/-
# Source values of enumeration mappings in all their forms

The values that an enumeration value stands for can be written as objects with a tag each, as
one object with a tag for all, which may be a collection of such objects however deep, as
plain values under a source type, or as plain values. Whatever the form, the values that are
read are those that are written.

Key definitions: `SourceValue.Bare`, `SourceValue.Structured`.
Key theorems: `SourceValue.readFlagged_eq`, `SourceValue.readAll_eq`, `SourceValue.encodings_agree`.
-/
import Mathlib.Data.List.Nodup
import ModelGraph.Proofs.Json.Decode
import ModelGraph.Proofs.Model.Imports

namespace ModelGraph

open List Decode Option Result Decoder Nat

variable {n : Int} {name type : String} {js : List Json} {v : SourceValue} {vs : List SourceValue}
  {s : FlaggedSource}

/-! ### Fields of records -/

theorem StructuredSource.tag_eq {j : Json} {s : StructuredSource} (h : decoder.decode j = .ok s) :
    s.tag = text.build (given "_type" j.members) := by
  have hnodup : (fields.map fun f => foldKey f.name).Nodup := by decide
  rw [decode_ok h, ← valuesOf_named hnodup (by decide)]
  show (fill fields ([j].flatMap Json.members) {}).tag = _
  rw [flatMap_singleton, fill]
  generalize named fields j.members = ms
  unfold fields
  simp only [foldl_cons, Slot.text, Slot.raw, Slot.field]
  rcases valuesOf "_type" ms with _ | ⟨_, _⟩ <;> rcases valuesOf "enumeration" ms with _ | ⟨_, _⟩ <;>
    rcases valuesOf "value" ms with _ | ⟨_, _⟩ <;> rfl

theorem FlaggedSource.eq_given {j : Json} (h : decoder.decode j = .ok s) :
    s.tag = text.build (given "_type" j.members) ∧
    s.values = raw.list.build (given "values" j.members) := by
  have hnodup : (fields.map fun f => foldKey f.name).Nodup := by decide
  rw [decode_ok h, ← valuesOf_named hnodup (by decide), ← valuesOf_named hnodup (by decide)]
  show (fill fields ([j].flatMap Json.members) {}).tag = _ ∧
    (fill fields ([j].flatMap Json.members) {}).values = _
  rw [flatMap_singleton, fill]
  generalize named fields j.members = ms
  unfold fields
  simp only [foldl_cons, Slot.text, Slot.list, Slot.field]
  rcases valuesOf "_type" ms with _ | ⟨_, _⟩ <;> rcases valuesOf "values" ms with _ | ⟨_, _⟩ <;>
    rcases valuesOf "fullPath" ms with _ | ⟨_, _⟩ <;> rcases valuesOf "value" ms with _ | ⟨_, _⟩ <;>
    exact ⟨rfl, rfl⟩

namespace Json

variable {j x : Json}

theorem depth_le_depths : ∀ {js : List Json}, j ∈ js → j.depth ≤ depths js
  | i :: js, h => by
    rw [depths]
    rcases mem_cons.1 h with rfl | h
    · exact le_max_left _ _
    · exact le_trans (depth_le_depths h) (le_max_right _ _)

theorem depth_lt_of_mem_items (h : x ∈ j.items) : x.depth < j.depth := by
  cases j with
  | array text js =>
    rw [depth]
    exact lt_succ_of_le (depth_le_depths h)
  | _ => cases h

theorem depth_lt_of_mem_members {m : String × Json} (h : m ∈ j.members) : m.2.depth < j.depth := by
  cases j with
  | object text ms =>
    exact lt_succ_of_le (depth_le_memberDepths h)
  | _ => cases h

end Json

theorem Decoder.mem_list_raw {x : Json} (h : x ∈ raw.list.build js) : ∃ y ∈ js, x ∈ y.items ∨ x = .null := by
  obtain ⟨column, hcolumn, rfl⟩ := mem_map.1 h
  obtain ⟨i, hi, rfl⟩ := mem_map.1 hcolumn
  have hrows : ∀ row ∈ (sinceReset emptiesList js).map Json.items, ∃ y ∈ js, row = y.items := by
    intro row hrow
    obtain ⟨y, hy, rfl⟩ := mem_map.1 hrow
    exact ⟨y, mem_reverse.1 (takeWhile_subset _ (mem_reverse.1 hy)), rfl⟩
  generalize (sinceReset emptiesList js).map Json.items = rows at hi hrows ⊢
  have hlast : ∃ row ∈ rows, i < row.length := by
    rcases hlast : rows.getLast? with _ | row
    · simp [hlast] at hi
    · exact ⟨row, mem_of_getLast? hlast, by simpa [hlast] using hi⟩
  obtain ⟨row, hrow, -⟩ := hlast
  rcases hlast : (rows.filterMap (·[i]?)).getLast? with _ | x
  · obtain ⟨y, hy, -⟩ := hrows row hrow
    exact ⟨y, hy, .inr (by simp [raw, hlast])⟩
  · obtain ⟨row, hrow, hx⟩ := mem_filterMap.1 (mem_of_getLast? hlast)
    obtain ⟨y, hy, rfl⟩ := hrows row hrow
    exact ⟨y, hy, .inl (by simpa [raw, hlast] using mem_of_getElem? hx)⟩

theorem FlaggedSource.depth_lt {j x : Json} (h : decoder.decode j = .ok s) (hx : x ∈ s.values) :
    x.depth < j.depth := by
  rw [(eq_given h).2] at hx
  obtain ⟨y, hy, hx⟩ := mem_list_raw hx
  obtain ⟨m, hm, rfl⟩ := mem_map.1 hy
  have hmember := Json.depth_lt_of_mem_members (mem_filter.1 hm).1
  rcases hx with hx | rfl
  · exact lt_trans (Json.depth_lt_of_mem_items hx) hmember
  · have hnull : Json.null.depth = 0 := by simp [Json.depth]
    omega

/-! ### Forms of source values -/

namespace SourceValue

/-- A value that is written plainly. -/
inductive Bare : Json → SourceValue → Prop
  | text {literal s : String} : Bare (.string literal s) (.text s)
  | integer {literal : String} {n : Int} : Number.word? literal = some n → Bare (.number literal) (.integer n)

/-- A value that is written as an object with a tag of its own. -/
inductive Structured : Json → SourceValue → Prop
  | text {text enumeration literal s : String} {ms : List (String × Json)} :
      StructuredSource.decoder.decode (.object text ms) =
        .ok { tag := "stringSourceValue", enumeration, value := some (.string literal s) } →
      Structured (.object text ms) (.text s)
  | integer {text enumeration literal : String} {n : Int} {ms : List (String × Json)} :
      StructuredSource.decoder.decode (.object text ms) =
        .ok { tag := "integerSourceValue", enumeration, value := some (.number literal) } →
      Number.word? literal = some n → Structured (.object text ms) (.integer n)
  | enumValue {text path literal name : String} {ms : List (String × Json)} :
      StructuredSource.decoder.decode (.object text ms) =
        .ok { tag := "enumSourceValue", enumeration := path, value := some (.string literal name) } →
      Structured (.object text ms) (.enumValue path name)

mutual

/-- Values that are written as one object with a tag, which may be a collection of such objects. -/
inductive Flagged : Json → List SourceValue → Prop
  | texts {text path value : String} {ms : List (String × Json)} {js : List Json} {ss : List String} :
      FlaggedSource.decoder.decode (.object text ms) = .ok { tag := "string", values := js, path, value } →
      Forall₂ Bare js (ss.map .text) → Flagged (.object text ms) (ss.map .text)
  | integers {text path value : String} {ms : List (String × Json)} {js : List Json} {ns : List Int} :
      FlaggedSource.decoder.decode (.object text ms) = .ok { tag := "integer", values := js, path, value } →
      Forall₂ Bare js (ns.map .integer) → Flagged (.object text ms) (ns.map .integer)
  | enumValue {text path name : String} {ms : List (String × Json)} {js : List Json} :
      FlaggedSource.decoder.decode (.object text ms) =
        .ok { tag := "enumValue", values := js, path, value := name } →
      Flagged (.object text ms) [.enumValue path name]
  | collection {text path value : String} {ms : List (String × Json)} {js : List Json} {vs : List SourceValue} :
      FlaggedSource.decoder.decode (.object text ms) = .ok { tag := "collection", values := js, path, value } →
      FlaggedAll js vs → Flagged (.object text ms) vs

/-- The values of the members of a collection, put together. -/
inductive FlaggedAll : List Json → List SourceValue → Prop
  | nil : FlaggedAll [] []
  | cons {j : Json} {js : List Json} {vs ws : List SourceValue} :
      Flagged j vs → FlaggedAll js ws → FlaggedAll (j :: js) (vs ++ ws)

end

/-- A value that is written as a source type says. -/
inductive Typed (type : String) : Json → SourceValue → Prop
  | text {literal s : String} : upperText type = "STRING" → Typed type (.string literal s) (.text s)
  | integer {literal : String} {n : Int} : upperText type = "INTEGER" → Number.word? literal = some n →
      Typed type (.number literal) (.integer n)
  | digits {literal s : String} {n : Int} : upperText type = "INTEGER" → Number.word? s = some n →
      Typed type (.string literal s) (.integer n)
  | enumValue {literal name : String} : Typed type (.string literal name) (.enumValue type name)

/-- Values that are written in one of the forms, where the mapping has a source type or none. -/
inductive Encodes : (type : String) → List Json → List SourceValue → Prop
  | structured {type : String} {js : List Json} {vs : List SourceValue} :
      Forall₂ Structured js vs → Encodes type js vs
  | flagged {type : String} {j : Json} {vs : List SourceValue} : Flagged j vs → Encodes type [j] vs
  | typed {type : String} {js : List Json} {vs : List SourceValue} :
      type ≠ "" → Forall₂ (Typed type) js vs → Encodes type js vs
  | bare {js : List Json} {vs : List SourceValue} : Forall₂ Bare js vs → Encodes "" js vs

/-- A text or an integer, or a value that an enumeration of the model has, given by a path with
a package. -/
def Known (c : Context) : SourceValue → Prop
  | .enumValue path name => Path.isQualified path = true ∧
      ∃ e, c.model.find? .enumeration path = some e ∧ name ∈ (Context.enumValues e).map (·.name)
  | _ => True

variable {c : Context} {span : Span}

/-! ### What is read -/

theorem readEnum_eq {path : String} (h : (enumValue path name).Known c) :
    readEnum c span path name = .ok (.enumValue path name) := by
  obtain ⟨hqualified, e, he, hname⟩ := h
  have hresolve : c.resolve .enumeration path span = .ok e := by
    rw [Context.resolve, Context.search, if_pos (by simp [hqualified])]
    exact Model.lookup_eq_ok.2 he
  have hpath : e.path = path := by
    unfold Model.find? at he
    split at he
    · rename_i x hx
      cases he
      exact Model.path_of_declared? (filter_eq_some_iff.1 hx).1
    · have hpackage : path ≠ "Package" := by
        rintro rfl
        exact absurd hqualified (by decide)
      rw [if_neg hpackage] at he
      exact Model.path_of_library (filter_eq_some_iff.1 he).1
  obtain ⟨v, hv, rfl⟩ := mem_map.1 hname
  have hfind : ((Context.enumValues e).find? fun w => w.name = v.name).isSome :=
    find?_isSome.2 ⟨v, hv, by simp⟩
  obtain ⟨w, hw⟩ := isSome_iff_exists.1 hfind
  have hwname : w.name = v.name := by simpa using find?_some hw
  unfold readEnum Context.resolveEnumValue Context.enumValue
  simp only [hresolve, hw, hpath, hwname, bind, Except.bind, pure, Except.pure]

theorem readInteger_eq {literal : String} (h : Number.word? literal = some n) :
    readInteger span (some (.number literal)) = .ok (.integer n) := by
  have hdecode : Decoder.integer.decode (.number literal) = .ok n := by
    simp [Decoder.integer, decode, plain, h, Except.map]
  unfold readInteger
  rw [map_some, hdecode]

theorem mapM_of_forall₂ {α β : Type} {f : α → Result β} {R : α → β → Prop} {as : List α} {bs : List β}
    (h : Forall₂ R as bs) (hf : ∀ a b, b ∈ bs → R a b → f a = .ok b) : as.mapM f = .ok bs := by
  refine mapM_eq_ok.2 ?_
  induction h with
  | nil => exact .nil
  | cons hab _ ih =>
    exact .cons (hf _ _ (.head _) hab) (ih fun a b hb => hf a b (.tail _ hb))

theorem Structured.exists_read {j : Json} (h : Structured j v) (hv : v.Known c) :
    ∃ s, structured? j = some s ∧ readStructured c span s = .ok v := by
  cases h with
  | text hdecode =>
    refine ⟨_, by simp only [structured?, hdecode]; rfl, ?_⟩
    rfl
  | integer hdecode hword =>
    refine ⟨_, by simp only [structured?, hdecode]; rfl, ?_⟩
    exact readInteger_eq hword
  | enumValue hdecode =>
    refine ⟨_, by simp only [structured?, isObject, hdecode]; rfl, ?_⟩
    exact readEnum_eq hv

theorem Flagged.exists_decode {j : Json} {vs : List SourceValue} (h : Flagged j vs) :
    ∃ s, FlaggedSource.decoder.decode j = .ok s ∧ isObject j = true ∧ isStructured j = false := by
  have hplain {text : String} {ms : List (String × Json)} {s : FlaggedSource}
      (hs : FlaggedSource.decoder.decode (.object text ms) = .ok s)
      (htag : [integerTag, stringTag, enumTag].contains s.tag = false) :
      ∃ s, FlaggedSource.decoder.decode (.object text ms) = .ok s ∧ isObject (.object text ms) = true ∧
        isStructured (.object text ms) = false := by
    refine ⟨s, hs, rfl, ?_⟩
    unfold isStructured structured?
    rw [if_neg (by simp [isObject])]
    split
    · rename_i s' hs'
      rw [StructuredSource.tag_eq hs', ← (FlaggedSource.eq_given hs).1, htag]
      rfl
    · rfl
  cases h with
  | texts hs _ => exact hplain hs rfl
  | integers hs _ => exact hplain hs rfl
  | enumValue hs => exact hplain hs rfl
  | collection hs _ => exact hplain hs rfl

mutual

/-- Values under one tag are read if the bound is greater than the depth of the object. -/
theorem readFlagged_eq {j : Json} {vs : List SourceValue} : Flagged j vs → ∀ {s : FlaggedSource} {depth : Nat},
    FlaggedSource.decoder.decode j = .ok s → j.depth < depth → (∀ v ∈ vs, v.Known c) →
      readFlagged c span depth s = .ok vs
  | .texts hdecode hss, s, depth + 1, hs, _, _ => by
    cases hdecode.symm.trans hs
    refine mapM_of_forall₂ hss fun j v hv hbare => ?_
    obtain ⟨s, -, rfl⟩ := mem_map.1 hv
    cases hbare
    rfl
  | .integers hdecode hns, s, depth + 1, hs, _, _ => by
    cases hdecode.symm.trans hs
    refine mapM_of_forall₂ hns fun j v hv hbare => ?_
    obtain ⟨n, -, rfl⟩ := mem_map.1 hv
    cases hbare with
    | integer hword => exact readInteger_eq hword
  | .enumValue hdecode, s, depth + 1, hs, _, hknown => by
    cases hdecode.symm.trans hs
    simp only [readFlagged, readEnum_eq (hknown _ (mem_singleton_self _))]
    rfl
  | .collection hdecode hall, s, depth + 1, hs, hdepth, hknown => by
    cases hdecode.symm.trans hs
    obtain ⟨parts, hparts, rfl⟩ := readFlaggedAll_eq hall (fun x hx =>
      lt_of_lt_of_le (FlaggedSource.depth_lt hs hx) (le_of_lt_succ hdepth)) hknown
    refine bind_eq_ok.2 ⟨parts, mapM_of_forall₂ hparts fun j part _ hpart => ?_, rfl⟩
    obtain ⟨s, hs, hread⟩ := hpart
    rw [hs]
    exact hread

theorem readFlaggedAll_eq {js : List Json} {vs : List SourceValue} : FlaggedAll js vs → ∀ {depth : Nat},
    (∀ j ∈ js, j.depth < depth) → (∀ v ∈ vs, v.Known c) → ∃ parts : List (List SourceValue),
      Forall₂ (fun j part => ∃ s, FlaggedSource.decoder.decode j = .ok s ∧ readFlagged c span depth s = .ok part)
        js parts ∧ parts.flatten = vs
  | .nil, depth, _, _ => ⟨[], .nil, rfl⟩
  | .cons h hall, depth, hdepth, hknown => by
    obtain ⟨hv, hvs⟩ := forall_mem_append.1 hknown
    obtain ⟨hj, hjs⟩ := forall_mem_cons.1 hdepth
    obtain ⟨s, hs, -⟩ := h.exists_decode
    obtain ⟨parts, hparts, rfl⟩ := readFlaggedAll_eq hall hjs hvs
    exact ⟨_ :: parts, .cons ⟨s, hs, readFlagged_eq h hs hj hv⟩ hparts, rfl⟩

end

theorem mapM_readStructured (span : Span) {js : List Json} {vs : List SourceValue} (h : Forall₂ Structured js vs)
    (hknown : ∀ v ∈ vs, v.Known c) :
    js.all isStructured = true ∧ (js.filterMap structured?).mapM (readStructured c span) = .ok vs := by
  induction h with
  | nil => exact ⟨rfl, rfl⟩
  | cons hj _ ih =>
    obtain ⟨hv, hvs⟩ := forall_mem_cons.1 hknown
    obtain ⟨s, hs, hread⟩ := hj.exists_read hv
    obtain ⟨hall, hrest⟩ := ih hvs
    refine ⟨by simp [isStructured, hs, hall], ?_⟩
    rw [filterMap_cons_some hs, mapM_cons, hread]
    exact bind_eq_ok.2 ⟨_, rfl, bind_eq_ok.2 ⟨_, hrest, rfl⟩⟩

theorem upperText_ne (h : Path.isQualified type = true) (hname : ':' ∉ name.toList) : upperText type ≠ name := by
  rintro rfl
  obtain ⟨package, rest, rfl⟩ := Path.isQualified_iff.1 h
  refine hname ?_
  have hcolon : upperChar ':' = ':' := by decide +kernel
  simp only [upperText, String.toList_ofList, String.toList_append, map_append]
  refine mem_append_left _ (mem_append_right _ ?_)
  rw [← hcolon]
  exact mem_map_of_mem (by decide)

theorem Typed.readAs_eq {j : Json} (h : Typed type j v) (hv : v.Known c) : readAs c span type j = .ok v := by
  cases h with
  | text htype => simp [readAs, readPlain, htype, bind, Except.bind, pure, Except.pure]
  | integer htype hword => simp [readAs, readPlain, htype, hword, bind, Except.bind, pure, Except.pure]
  | digits htype hword => simp [readAs, readPlain, htype, hword, bind, Except.bind, pure, Except.pure]
  | enumValue =>
    have hstring := upperText_ne hv.1 (by decide : ':' ∉ "STRING".toList)
    have hinteger := upperText_ne hv.1 (by decide : ':' ∉ "INTEGER".toList)
    simp [readAs, readPlain, hstring, hinteger, bind, Except.bind, readEnum_eq hv]

theorem Bare.readPlain_eq {j : Json} (h : Bare j v) : readPlain span j = .ok v := by
  cases h with
  | text => rfl
  | integer hword => simp [readPlain, hword]

theorem readAll_plain {j : Json} (hj : isObject j = false) :
    readAll c span type (j :: js) =
      if type = "" then (j :: js).mapM (readPlain span) else (j :: js).mapM (readAs c span type) := by
  have hstructured : (j :: js).all isStructured = false := by
    simp [isStructured, structured?, hj]
  unfold readAll
  simp only [hstructured, hj, Bool.and_false, Bool.false_eq_true, if_false]

/-- **Values are read as they are written, in every form.** -/
theorem readAll_eq {js : List Json} {vs : List SourceValue} (h : Encodes type js vs)
    (hknown : ∀ v ∈ vs, v.Known c) : readAll c span type js = .ok vs := by
  cases h with
  | structured hs =>
    cases hs with
    | nil => rfl
    | cons hj hjs =>
      obtain ⟨hall, hread⟩ := mapM_readStructured span (.cons hj hjs) hknown
      unfold readAll
      simp only [hall, if_true, hread]
  | flagged hj =>
    obtain ⟨s, hs, hobject, hplain⟩ := hj.exists_decode
    unfold readAll
    simp only [all_cons, hplain, hobject, hs]
    exact readFlagged_eq hj hs (lt_succ_self _) hknown
  | typed htype hs =>
    cases hs with
    | nil => rfl
    | cons hj hjs =>
      rw [readAll_plain (by cases hj <;> rfl), if_neg htype]
      exact mapM_of_forall₂ (.cons hj hjs) fun j v hv hjv => hjv.readAs_eq (hknown v hv)
  | bare hs =>
    cases hs with
    | nil => rfl
    | cons hj hjs =>
      rw [readAll_plain (by cases hj <;> rfl)]
      exact mapM_of_forall₂ (.cons hj hjs) fun j v _ hjv => hjv.readPlain_eq

/-! ### How values can be written -/

/-- A value as an object with a tag of its own. -/
def structuredForm : SourceValue → Json
  | .text s => .ofObject [("_type", .ofString stringTag), ("value", .ofString s)]
  | .integer n => .ofObject [("_type", .ofString integerTag), ("value", .ofInt n)]
  | .enumValue path name =>
    .ofObject [("_type", .ofString enumTag), ("enumeration", .ofString path), ("value", .ofString name)]
  | .float _ | .other _ => .null

def flaggedForm (tag : String) (items : List Json) : Json :=
  .ofObject [("_type", .ofString tag), ("values", .ofArray items)]

/-- A value of an enumeration under a tag for lists. -/
def flaggedEnum (path name : String) : Json :=
  .ofObject [("_type", .ofString "enumValue"), ("fullPath", .ofString path), ("value", .ofString name)]

theorem structuredForm_text (s : String) : Structured (structuredForm (.text s)) (.text s) := by
  have hdecode : StructuredSource.decoder.decode (structuredForm (.text s)) =
      .ok { tag := "stringSourceValue", enumeration := "", value := some (.ofString s) } := rfl
  exact .text hdecode

theorem structuredForm_integer (h : Number.fitsWord n = true) :
    Structured (structuredForm (.integer n)) (.integer n) := by
  have hdecode : StructuredSource.decoder.decode (structuredForm (.integer n)) =
      .ok { tag := "integerSourceValue", enumeration := "", value := some (.ofInt n) } := rfl
  exact .integer hdecode (Number.word?_toString h)

theorem structuredForm_enumValue (path name : String) :
    Structured (structuredForm (.enumValue path name)) (.enumValue path name) := by
  have hdecode : StructuredSource.decoder.decode (structuredForm (.enumValue path name)) =
      .ok { tag := "enumSourceValue", enumeration := path, value := some (.ofString name) } := rfl
  exact .enumValue hdecode

theorem decode_flaggedForm (tag : String) (items : List Json) :
    FlaggedSource.decoder.decode (flaggedForm tag items) = .ok { tag, values := items } := by
  have hcheck : FlaggedSource.decoder.check (flaggedForm tag items) = .ok () := by
    have hmembers : FlaggedSource.decoder.check (flaggedForm tag items) =
        checkAll (checkMember FlaggedSource.fields) [("values", .ofArray items)] false := rfl
    have hvalues : checkMember FlaggedSource.fields ("values", .ofArray items) = .ok () :=
      checkAll_ok fun _ _ => rfl
    rw [hmembers, checkAll, hvalues]
    rfl
  have hbuild : FlaggedSource.decoder.build [flaggedForm tag items] =
      { tag, values := raw.list.build [.ofArray items] } := rfl
  have hitems : items.map (fun j => raw.build [j]) = items := map_id items
  rw [decode, hcheck, hbuild, Json.ofArray, list_build, hitems]
  rfl

theorem flaggedEnum_flagged (path name : String) : Flagged (flaggedEnum path name) [.enumValue path name] := by
  have hdecode : FlaggedSource.decoder.decode (flaggedEnum path name) =
      .ok { tag := "enumValue", values := [], path, value := name } := rfl
  exact .enumValue hdecode

theorem flaggedEnum_all (path : String) : ∀ names : List String,
    FlaggedAll (names.map (flaggedEnum path)) (names.map (.enumValue path))
  | [] => .nil
  | name :: names => .cons (flaggedEnum_flagged path name) (flaggedEnum_all path names)

theorem forall₂_map {α : Type} {R : Json → SourceValue → Prop} {f : α → Json} {g : α → SourceValue} :
    ∀ {as : List α}, (∀ a ∈ as, R (f a) (g a)) → Forall₂ R (as.map f) (as.map g)
  | [], _ => .nil
  | _ :: _, h => .cons (h _ (.head _)) (forall₂_map fun a ha => h a (.tail _ ha))

/-- **All forms of source values are read alike.** Values are read as they are written, in
whatever form; an enumeration value is one of an enumeration that is given by a path with a
package. And texts, integers of 64 bits and enumeration values can be written as objects with
tags of their own, under one tag for all, as the source type says and, enumeration values
apart, plainly; integers under a source type also as texts. Collections of what is under tags
are themselves under a tag, however deep. -/
theorem encodings_agree (c : Context) (span : Span) :
    (∀ type js vs, Encodes type js vs → (∀ v ∈ vs, v.Known c) → readAll c span type js = .ok vs) ∧
    (∀ (type : String) (ss : List String),
      Encodes type (ss.map fun s => structuredForm (.text s)) (ss.map .text) ∧
      Encodes type [flaggedForm "string" (ss.map .ofString)] (ss.map .text) ∧
      (upperText type = "STRING" → Encodes type (ss.map .ofString) (ss.map .text)) ∧
      Encodes "" (ss.map .ofString) (ss.map .text)) ∧
    (∀ (type : String) (ns : List Int), (∀ n ∈ ns, Number.fitsWord n = true) →
      Encodes type (ns.map fun n => structuredForm (.integer n)) (ns.map .integer) ∧
      Encodes type [flaggedForm "integer" (ns.map .ofInt)] (ns.map .integer) ∧
      (upperText type = "INTEGER" → Encodes type (ns.map .ofInt) (ns.map .integer) ∧
        Encodes type (ns.map fun n => .ofString (toString n)) (ns.map .integer)) ∧
      Encodes "" (ns.map .ofInt) (ns.map .integer)) ∧
    (∀ (type path : String) (names : List String),
      Encodes type (names.map fun name => structuredForm (.enumValue path name)) (names.map (.enumValue path)) ∧
      Encodes type [flaggedForm "collection" (names.map (flaggedEnum path))] (names.map (.enumValue path)) ∧
      (path ≠ "" → Encodes path (names.map .ofString) (names.map (.enumValue path)))) ∧
    ∀ js vs, FlaggedAll js vs → Flagged (flaggedForm "collection" js) vs := by
  have hne {type name : String} (h : upperText type = name) (hname : name ≠ "") : type ≠ "" := by
    rintro rfl
    exact hname (h.symm.trans rfl)
  refine ⟨fun _ _ _ h hknown => readAll_eq h hknown, fun type ss => ?_, fun type ns hns => ?_,
    fun type path names => ?_, fun js vs h => .collection (decode_flaggedForm _ _) h⟩
  · have hbare : Forall₂ Bare (ss.map .ofString) (ss.map .text) := forall₂_map fun _ _ => .text
    exact ⟨.structured (forall₂_map fun s _ => structuredForm_text s),
      .flagged (.texts (decode_flaggedForm _ _) hbare),
      fun htype => .typed (hne htype (by decide)) (forall₂_map fun _ _ => .text htype), .bare hbare⟩
  · have hword (n : Int) (hn : n ∈ ns) := Number.word?_toString (hns n hn)
    have hbare : Forall₂ Bare (ns.map .ofInt) (ns.map .integer) := forall₂_map fun n hn => .integer (hword n hn)
    exact ⟨.structured (forall₂_map fun n hn => structuredForm_integer (hns n hn)),
      .flagged (.integers (decode_flaggedForm _ _) hbare),
      fun htype => ⟨.typed (hne htype (by decide)) (forall₂_map fun n hn => .integer htype (hword n hn)),
        .typed (hne htype (by decide)) (forall₂_map fun n hn => .digits htype (hword n hn))⟩, .bare hbare⟩
  · exact ⟨.structured (forall₂_map fun name _ => structuredForm_enumValue path name),
      .flagged (.collection (decode_flaggedForm _ _) (flaggedEnum_all path names)),
      fun hpath => .typed hpath (forall₂_map fun _ _ => .enumValue)⟩

end SourceValue

def Document.twoValues : Document :=
  { enumerations := [{ header := { package := "m", name := "E" }, values := [{ value := "A" }, { value := "B" }] }] }

open SourceValue Document in
/-- A collection in a collection of enumeration values, and the same values under a source type. -/
theorem Document.twoValues_read : ∃ m, (twoValues.build {}).result = .ok m ∧
    (∀ v ∈ ["A", "B"].map (SourceValue.enumValue "m::E"), v.Known (Context.of m "m::M")) ∧
    readAll (Context.of m "m::M") {} "" [flaggedForm "collection"
      [flaggedForm "collection" [flaggedEnum "m::E" "A"], flaggedEnum "m::E" "B"]] =
        .ok (["A", "B"].map (.enumValue "m::E")) ∧
    readAll (Context.of m "m::M") {} "m::E" (["A", "B"].map .ofString) = .ok (["A", "B"].map (.enumValue "m::E")) := by
  obtain ⟨m, hok, e, he, hnames⟩ : ∃ m, (twoValues.build {}).result = .ok m ∧
      ∃ e, m.find? .enumeration "m::E" = some e ∧ (Context.enumValues e).map (·.name) = ["A", "B"] := by
    decide +kernel
  have hknown : ∀ v ∈ ["A", "B"].map (SourceValue.enumValue "m::E"), v.Known (Context.of m "m::M") := by
    intro v hv
    obtain ⟨name, hname, rfl⟩ := mem_map.1 hv
    exact ⟨by decide, e, he, hnames.symm ▸ hname⟩
  obtain ⟨hread, -, -, henum, hcollection⟩ := encodings_agree (Context.of m "m::M") {}
  have hfirst := hcollection _ _ (flaggedEnum_all "m::E" ["A"])
  refine ⟨m, hok, hknown, hread _ _ _ (.flagged ?_) hknown, ?_⟩
  · exact hcollection _ _ (.cons hfirst (flaggedEnum_all "m::E" ["B"]))
  · exact hread _ _ _ ((henum "" "m::E" ["A", "B"]).2.2 (by decide)) hknown

end ModelGraph
