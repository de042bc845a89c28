/-
# Kinds of source values

What is read under tags is a text, an integer of 64 bits or an enumeration value, and so it has a
type that can be checked. Plain values are read as they are: a number that is not written as an
integer of 64 bits becomes a floating point number, and what is neither a number nor a text is kept.
A source type does not change that. `STRING` leaves all values as they are, and `INTEGER` all but texts;
any other one asks for enumeration values. Values under tags are read without regard to it.

Key definitions: `SourceValue.Kind`, `SourceValue.kindAs`.
Key theorems: `SourceValue.readFlagged_checked`, `SourceValue.readAll_kinds`, `Document.source_kinds`.
-/
import ModelGraph.Proofs.Mapping.Mapped
import ModelGraph.Proofs.Mapping.Sources

namespace ModelGraph

open Model List Result

namespace SourceValue

inductive Kind where
  | text
  | integer
  | enumValue
  | float
  | other
  deriving DecidableEq

def kind : SourceValue → Kind
  | .text _ => .text
  | .integer _ => .integer
  | .enumValue _ _ => .enumValue
  | .float _ => .float
  | .other _ => .other

def plainKind : Json → Kind
  | .string _ _ => .text
  | .number literal => if (Number.word? literal).isSome then .integer else .float
  | _ => .other

/-- The kind of a plain value under a source type. -/
def kindAs (type : String) (j : Json) : Kind :=
  if type = "" ∨ upperText type = "STRING" then plainKind j
  else if upperText type = "INTEGER" then
    if plainKind j = .text then .integer else plainKind j
  else .enumValue

/-- Values under tags: all have tags of their own, or one object is all there is. -/
def isTagged (js : List Json) : Bool := js.all isStructured || js.length = 1 && js.all isObject

/-- An integer has 64 bits, and an enumeration value is one of an enumeration of the model. -/
def Valid (m : Model) : SourceValue → Prop
  | .integer n => Number.fitsWord n = true
  | .enumValue path name => ∃ e, m.element? path = some e ∧ name ∈ (Context.enumValues e).map (·.name)
  | _ => True

/-- The kinds of source values, as they are declared under a source type and as they are read. -/
structure Kinds (m : Model) (type : String) (js : List Json) (vs : List SourceValue) : Prop where
  valid : ∀ v ∈ vs, v.Valid m
  tagged : isTagged js = true → ∀ v ∈ vs, v.typeRef?.isSome = true
  plain : isTagged js = false → vs.map kind = js.map (kindAs type)

theorem fitsWord_of_word? {text : String} {n : Int} (h : Number.word? text = some n) : Number.fitsWord n = true := by
  unfold Number.word? at h
  split at h
  · split at h
    · cases h
      assumption
    · cases h
  · cases h

section Read

variable {m : Model} {c : Context} {span : Span} {v : SourceValue} {vs : List SourceValue}
  (hc : ∀ p span e, c.resolve .enumeration p span = .ok e → m.element? e.path = some e) {j : Json} {type : String}
  {js : List Json}

/-! ### Under tags -/

theorem readInteger_ok {j : Option Json} (h : readInteger span j = .ok v) : v.kind = .integer ∧ v.Valid m := by
  unfold readInteger at h
  split at h
  · rename_i n hn
    cases h
    obtain ⟨j, -, hdecode⟩ := Option.map_eq_some_iff.1 hn
    refine ⟨rfl, ?_⟩
    rw [Decoder.decode_ok hdecode]
    -- What is decoded is the number that is written, or zero for `null`.
    show Number.fitsWord (([j].findSome? _).getD 0) = true
    rw [findSome?_singleton]
    split
    · rename_i literal
      rcases hword : Number.word? literal with _ | n
      · rfl
      · exact fitsWord_of_word? hword
    · rfl
  · cases h
  · cases h

include hc in
theorem readEnum_ok {path name : String} (h : readEnum c span path name = .ok v) :
    v.kind = .enumValue ∧ v.Valid m := by
  obtain ⟨⟨p, w⟩, hw, h⟩ := bind_eq_ok.1 h
  cases h
  obtain ⟨e, he, hw⟩ := bind_eq_ok.1 hw
  obtain ⟨w', hfind, hw⟩ := bind_eq_ok.1 hw
  cases hw
  refine ⟨rfl, e, hc _ _ _ he, ?_⟩
  unfold Context.enumValue at hfind
  split at hfind
  · rename_i hsome
    cases hfind
    exact mem_map_of_mem (mem_of_find?_eq_some hsome)
  · cases hfind

theorem typeRef?_isSome : v.typeRef?.isSome = true ↔ v.kind ≠ .float ∧ v.kind ≠ .other := by
  cases v <;> simp [typeRef?, kind]

def Checked (m : Model) (v : SourceValue) : Prop := v.typeRef?.isSome = true ∧ v.Valid m

theorem Checked.of_kind (h : v.kind = .integer ∧ v.Valid m ∨ v.kind = .enumValue ∧ v.Valid m) : v.Checked m := by
  rcases h with ⟨hk, hv⟩ | ⟨hk, hv⟩ <;> exact ⟨typeRef?_isSome.2 (by simp [hk]), hv⟩

include hc in
theorem readStructured_checked {s : StructuredSource} (h : readStructured c span s = .ok v) : v.Checked m := by
  unfold readStructured at h
  split at h
  · exact .of_kind (.inl (readInteger_ok h))
  split at h
  · obtain ⟨text, -, h⟩ := bind_eq_ok.1 h
    cases h
    exact ⟨rfl, trivial⟩
  · obtain ⟨name, -, h⟩ := bind_eq_ok.1 h
    exact .of_kind (.inr (readEnum_ok hc h))

theorem forall_of_mapM {α : Type} {f : α → Result SourceValue} {as : List α} (h : as.mapM f = .ok vs)
    (hf : ∀ a v, f a = .ok v → v.Checked m) : ∀ v ∈ vs, v.Checked m := fun v hv => by
  obtain ⟨a, -, ha⟩ := exists_of_forall₂ (mapM_eq_ok.1 h) hv
  exact hf a v ha

include hc in
/-- **What is read under one tag can be checked, however deep collections are.** -/
theorem readFlagged_checked : ∀ {depth : Nat} {s : FlaggedSource} {vs : List SourceValue},
    readFlagged c span depth s = .ok vs → ∀ v ∈ vs, v.Checked m
  | 0, s, vs, h => by cases h
  | depth + 1, s, vs, h => by
    unfold readFlagged at h
    split at h
    · refine forall_of_mapM h fun j v hv => ?_
      obtain ⟨text, -, hv⟩ := bind_eq_ok.1 hv
      cases hv
      exact ⟨rfl, trivial⟩
    split at h
    · exact forall_of_mapM h fun j v hv => .of_kind (.inl (readInteger_ok hv))
    split at h
    · obtain ⟨v, hv, h⟩ := bind_eq_ok.1 h
      cases h
      exact forall_mem_singleton.2 (.of_kind (.inr (readEnum_ok hc hv)))
    split at h
    · obtain ⟨parts, hparts, h⟩ := bind_eq_ok.1 h
      cases h
      intro v hv
      obtain ⟨part, hpart, hv⟩ := mem_flatten.1 hv
      obtain ⟨j, -, hj⟩ := exists_of_forall₂ (mapM_eq_ok.1 hparts) hpart
      split at hj
      · cases hj
      · exact readFlagged_checked hj v hv
    · cases h

/-! ### Plain values -/

theorem readPlain_kind (h : readPlain span j = .ok v) : v.kind = plainKind j ∧ v.Valid m := by
  unfold readPlain at h
  split at h
  · split at h
    · rename_i n _ hword
      cases h
      exact ⟨by simp [kind, plainKind, hword], fitsWord_of_word? hword⟩
    · rename_i bits hword _
      cases h
      exact ⟨by simp [kind, plainKind, hword], trivial⟩
    · cases h
  · cases h
    exact ⟨rfl, trivial⟩
  · rename_i hnumber hstring
    cases h
    refine ⟨?_, trivial⟩
    cases j <;> first | rfl | exact absurd rfl (hnumber _) | exact absurd rfl (hstring _ _)

include hc in
theorem readAs_kind (htype : type ≠ "") (h : readAs c span type j = .ok v) : v.kind = kindAs type j ∧ v.Valid m := by
  obtain ⟨w, hw, h⟩ := bind_eq_ok.1 h
  obtain ⟨hkind, hvalid⟩ := readPlain_kind (m := m) hw
  unfold kindAs
  simp only [htype, false_or]
  dsimp only at h
  split at h
  · rename_i hstring
    cases h
    rw [if_pos hstring]
    exact ⟨hkind, hvalid⟩
  rename_i hstring
  rw [if_neg hstring]
  split at h
  · rename_i hinteger
    rw [if_pos hinteger, ← hkind]
    split at h
    · split at h
      · rename_i hword
        cases h
        exact ⟨rfl, fitsWord_of_word? hword⟩
      · cases h
    · rename_i hnot
      cases h
      refine ⟨?_, hvalid⟩
      rw [if_neg]
      cases v <;> first | exact absurd rfl (hnot _) | simp [kind]
  · rename_i hinteger
    rw [if_neg hinteger]
    split at h
    · exact readEnum_ok hc h
    · cases h

theorem kinds_of_mapM {f : Json → Result SourceValue} (h : js.mapM f = .ok vs)
    (hf : ∀ j v, f j = .ok v → v.kind = kindAs type j ∧ v.Valid m) :
    vs.map kind = js.map (kindAs type) ∧ ∀ v ∈ vs, v.Valid m := by
  have hall := (mapM_eq_ok.1 h).imp fun j v => hf j v
  constructor
  · have hkinds : Forall₂ (· = ·) (vs.map kind) (js.map (kindAs type)) := by
      rw [forall₂_map_left_iff, forall₂_map_right_iff]
      exact hall.flip.imp fun _ _ hv => hv.1
    rwa [forall₂_eq_eq_eq] at hkinds
  · intro v hv
    obtain ⟨j, -, hj⟩ := exists_of_forall₂ hall hv
    exact hj.2

include hc in
/-- **Source values are of the kinds that their forms and the source type say.** -/
theorem readAll_kinds (h : readAll c span type js = .ok vs) : Kinds m type js vs := by
  have tagged (htagged : isTagged js = true) (hvs : ∀ v ∈ vs, v.Checked m) : Kinds m type js vs :=
    ⟨fun v hv => (hvs v hv).2, fun _ v hv => (hvs v hv).1, fun hnot => by cases htagged.symm.trans hnot⟩
  unfold readAll at h
  dsimp only at h
  split at h
  · cases h
    exact tagged rfl (forall_mem_nil _)
  rename_i j rest
  split at h
  · rename_i hall
    refine tagged (by simp only [isTagged, hall, Bool.true_or]) ?_
    exact forall_of_mapM h fun s v hv => readStructured_checked hc hv
  rename_i hall
  split at h
  · rename_i hone
    obtain ⟨hnil, hobject⟩ := Bool.and_eq_true_iff.1 hone
    obtain rfl : rest = [] := List.isEmpty_iff.1 hnil
    refine tagged (by simp [isTagged, hobject]) ?_
    split at h
    · cases h
    · exact readFlagged_checked hc h
  · rename_i hmany
    have hplain : isTagged (j :: rest) = false := by
      rw [isTagged, Bool.eq_false_of_not_eq_true hall, Bool.false_or]
      cases rest with
      | nil => simpa using hmany
      | cons _ _ => simp
    have plain {f : Json → Result SourceValue} (hrun : (j :: rest).mapM f = .ok vs)
        (hf : ∀ j v, f j = .ok v → v.kind = kindAs type j ∧ v.Valid m) : Kinds m type (j :: rest) vs :=
      ⟨(kinds_of_mapM hrun hf).2, fun htagged => (by cases hplain.symm.trans htagged),
        fun _ => (kinds_of_mapM hrun hf).1⟩
    split at h
    · rename_i htype
      refine plain h fun j v hv => ?_
      rw [kindAs, if_pos (.inl htype)]
      exact readPlain_kind hv
    · rename_i htype
      exact plain h fun j v => readAs_kind hc htype

end Read
end SourceValue

/-! ### Whole builds -/

theorem EnumerationMappingDecl.build_kinds {b : EnumerationMappingDecl} {m : Model} {c : Context}
    {e : EnumerationMapping} (hc : ∀ p span e, c.resolve .enumeration p span = .ok e → m.element? e.path = some e)
    (h : b.build c = .ok e) :
    Forall₂ (fun y v => SourceValue.Kinds m b.sourceType y.sources v.sources) b.values e.values := by
  unfold build at h
  dsimp only at h
  split at h
  · cases h
  obtain ⟨_, -, h⟩ := bind_eq_ok.1 h
  obtain ⟨values, hvalues, h⟩ := bind_eq_ok.1 h
  cases h
  refine (mapM_eq_ok.1 hvalues).imp fun y v hv => ?_
  obtain ⟨_, -, hv⟩ := bind_eq_ok.1 hv
  obtain ⟨sources, hsources, hv⟩ := bind_eq_ok.1 hv
  cases hv
  exact SourceValue.readAll_kinds hc hsources

namespace Document

variable {d : Document} {o : Options} {m : Model} {path : String} {x : Mapping}

/-- **Source values can be checked if they are under tags or written as the source type asks for.** -/
theorem source_kinds (h : (d.build o).result = .ok m) (hx : m.mapping? path = some x) :
    ∃ a ∈ d.mappings, a.header.path = path ∧ Forall₂ (fun b e =>
      Forall₂ (fun y v => SourceValue.Kinds m b.sourceType y.sources v.sources) b.values e.values)
        a.enumMappings x.enumMappings := by
  obtain ⟨t⟩ := exists_trace h
  obtain ⟨a, ha, rfl⟩ := mem_map.1 (t.mapping?_isSome.1 (has_mapping.2 ⟨x, hx⟩))
  obtain ⟨n, y, i, -, hy, -, henums, hat, himports⟩ := t.structured_at ha
  cases hx.symm.trans hy
  refine ⟨a, ha, rfl, (Result.mapM_eq_ok.1 henums).imp fun b e he => EnumerationMappingDecl.build_kinds ?_ he⟩
  -- An enumeration that was found while the mapping was built is still there in the end.
  intro p span e he
  have hgrows : Grows (within [.mapping, .connection, .runtime]) n m :=
    t.grows hat (by decide) (fun _ => by decide) (by decide)
  have himports : m.imports = n.imports :=
    t.final_imports.trans ((Pass.each_imports (fun a _ => a.setsStep_imports) t.mapSets).trans himports)
  rw [← hgrows.resolve himports (by decide) (by simp [within])] at he
  exact ((hgrows.tidy hat.tidy).element?_of_resolve he).1

/-- An enumeration mapping from a fraction and a truth value, and one from an integer where the source
type is that of texts. -/
def plainSources : Document :=
  { twoValues with
    mappings :=
      [{ header := { package := "m", name := "M" }
         enumMappings :=
           [{ enumeration := { path := "m::E" }
              values := [{ enumValue := "A", sources := [.number "1.5", .bool true] }] },
            { id := "s", enumeration := { path := "m::E" }, sourceType := "STRING"
              values := [{ enumValue := "B", sources := [.ofInt 5] }] }] }] }

/-- The values are of the kinds that they are written as. -/
theorem plainSources_kinds : ∃ m x, (plainSources.build {}).result = .ok m ∧ m.mapping? "m::M" = some x ∧
    ∃ a ∈ plainSources.mappings, a.header.path = "m::M" ∧ Forall₂ (fun b e =>
      Forall₂ (fun y v => SourceValue.Kinds m b.sourceType y.sources v.sources) b.values e.values)
        a.enumMappings x.enumMappings := by
  obtain ⟨m, hok, h⟩ : ∃ m, (plainSources.build {}).result = .ok m ∧ (m.mapping? "m::M").isSome := by decide +kernel
  obtain ⟨x, hx⟩ := Option.isSome_iff_exists.1 h
  exact ⟨m, x, hok, hx, source_kinds hok hx⟩

/-- Two of them are of no kind that can be checked, and the source type asks for a text in vain. -/
theorem plainSources_unchecked : ∃ m x, (plainSources.build {}).result = .ok m ∧ m.mapping? "m::M" = some x ∧
    x.enumMappings.map (·.values.map (·.sources.map (·.kind))) = [[[.float, .other]], [[.integer]]] := by
  simp only [exists_and_left]
  decide +kernel

end Document
end ModelGraph
