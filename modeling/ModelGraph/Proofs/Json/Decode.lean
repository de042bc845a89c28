/-
# Decoders read what was written

A decoder reads a value as the given one if the value fits and nothing else was stored before. An object
is read field by field: each field takes the member of its name, if there is one, and members that have
no field are passed over.

Key definitions: `Decode.given`, `Decoder.Reads`.
Key theorems: `Decoder.list_build`, `Decode.Fills.reads`, `Decode.fill_keeps`.
-/
import Mathlib.Data.List.Nodup
import ModelGraph.Document.Node

namespace ModelGraph

open List Decode Number

variable {n : Int} {m : String × Json}

/-! ### Numbers as they are written -/

namespace Number

theorem isDigit_of_mem_toDigits {c : Char} {k : Nat} (h : c ∈ Nat.toDigits 10 k) : c.isDigit = true :=
  Nat.isDigit_of_mem_toDigits (by decide) (by decide) h

theorem natural?_toDigits (k : Nat) : natural? (Nat.toDigits 10 k) = some k := by
  have hdigits : digits (Nat.toDigits 10 k) = k := Nat.ofDigitChars_toDigits (by decide) (by decide)
  have hall : (Nat.toDigits 10 k).all Char.isDigit = true := all_eq_true.2 fun _ => isDigit_of_mem_toDigits
  have hne : (Nat.toDigits 10 k).isEmpty = false := by simp
  rw [natural?, hall, hne, hdigits]
  rfl

theorem toList_toString (n : Int) :
    (toString n).toList = (if n < 0 then ['-'] else []) ++ Nat.toDigits 10 n.natAbs := by
  cases n with
  | ofNat k => exact String.toList_ofList
  | negSucc k =>
    rw [if_pos (Int.negSucc_lt_zero k)]
    show ("-" ++ Nat.repr (k + 1)).toList = _
    rw [String.toList_append]
    exact congrArg ('-' :: ·) String.toList_ofList

theorem exists_toDigits (k : Nat) : ∃ c cs, Nat.toDigits 10 k = c :: cs ∧ c.isDigit = true := by
  obtain ⟨c, cs, h⟩ := exists_cons_of_ne_nil (Nat.toDigits_ne_nil (n := k) (b := 10))
  have hc : c ∈ Nat.toDigits 10 k := h ▸ Mem.head _
  exact ⟨c, cs, h, isDigit_of_mem_toDigits hc⟩

theorem integer?_toString (n : Int) : integer? (toString n) = some n := by
  have hnat := natural?_toDigits n.natAbs
  unfold integer?
  rw [toList_toString]
  by_cases hn : n < 0
  · simp only [if_pos hn, singleton_append, hnat]
    exact congrArg some (Int.neg_eq_comm.1 (Int.ofNat_natAbs_of_nonpos (Int.le_of_lt hn)).symm)
  · obtain ⟨c, cs, hcs, hc⟩ := exists_toDigits n.natAbs
    rw [if_neg hn, nil_append, hcs]
    rw [hcs] at hnat
    split
    · rename_i h
      cases h
      cases hc
    · rename_i h
      cases h
      cases hc
    · rw [hnat]
      exact congrArg some (Int.natAbs_of_nonneg (Int.not_lt.1 hn))

theorem word?_toString (h : fitsWord n = true) : word? (toString n) = some n := by
  rw [word?, integer?_toString]
  simp [h]

end Number

/-! ### Single values -/

theorem Json.depth_le_memberDepths : ∀ {ms : List (String × Json)}, m ∈ ms → m.2.depth ≤ memberDepths ms
  | (k, i) :: ms, h => by
    rw [memberDepths]
    rcases mem_cons.1 h with rfl | h
    · exact Nat.le_max_left _ _
    · exact Nat.le_trans (depth_le_memberDepths h) (Nat.le_max_right _ _)

def Decoder.Reads {β : Type} (d : Decoder β) (j : Json) (b : β) : Prop := d.check j = .ok () ∧ d.build [j] = b

namespace Decoder

variable {β : Type} {d : Decoder β} {b : β} {j : Json}

theorem decode_ok (h : d.decode j = .ok b) : b = d.build [j] := by
  unfold decode at h
  cases hc : d.check j <;> rw [hc] at h
  · cases h
  · exact (Except.ok.inj h).symm

theorem text_reads (s : String) : text.Reads (.ofString s) s := ⟨rfl, rfl⟩

theorem integer_reads (h : fitsWord n = true) : integer.Reads (.ofInt n) n := by
  have hword : word? (toString n) = some n := word?_toString h
  constructor
  · show (if (word? (toString n)).isSome then .ok () else .error .mismatch : Decoded Unit) = .ok ()
    rw [hword]
    rfl
  · simp only [integer, plain, Json.ofInt, reverse_singleton, findSome?_cons, hword, Option.getD_some]

theorem optional_reads (h : d.Reads j b) (hj : isNull j = false) : d.optional.Reads j (some b) := by
  have hsince : sinceReset isNull [j] = [j] := by simp [sinceReset, hj]
  constructor
  · cases j with
    | null => cases hj
    | _ => exact h.1
  · simp only [optional, hsince, h.2]

theorem checkAll_ok {γ : Type} {check : γ → Decoded Unit} {xs : List γ} (h : ∀ x ∈ xs, check x = .ok ()) :
    checkAll check xs false = .ok () := by
  induction xs with
  | nil => rfl
  | cons x xs ih =>
    obtain ⟨hx, hxs⟩ := forall_mem_cons.1 h
    rw [checkAll, hx]
    exact ih hxs

theorem list_build (d : Decoder β) (text : String) (items : List Json) :
    d.list.build [.array text items] = items.map fun j => d.build [j] := by
  rcases items with _ | ⟨x, items⟩
  · rfl
  · have hrows : (sinceReset emptiesList [.array text (x :: items)]).map Json.items = [x :: items] := rfl
    have hcolumns : columns [x :: items] = (x :: items).map ([·]) :=
      ext_getElem (by simp [columns]) fun i _ hi => by
        rw [length_map] at hi
        simp only [columns, getElem_map, getElem_range, filterMap_cons,
          getElem?_eq_getElem hi, filterMap_nil]
    simp only [list, hrows, hcolumns, map_map]
    rfl

theorem list_reads {encode : β → Json} {bs : List β} (h : ∀ b ∈ bs, d.Reads (encode b) b) :
    d.list.Reads (.ofArray (bs.map encode)) bs := by
  constructor
  · refine checkAll_ok fun j hj => ?_
    obtain ⟨b, hb, rfl⟩ := mem_map.1 hj
    exact (h b hb).1
  · rw [Json.ofArray, list_build, map_map]
    exact (map_congr_left fun b hb => (h b hb).2).trans (map_id bs)

end Decoder

/-! ### Records -/

namespace Decode

variable {α β : Type} {fields fs : List (Slot α)} {f : Slot α} {ms : List (String × Json)} {x y z : α}
  {key name : String} {j : Json}

/-- What every field keeps is kept when members are stored. -/
theorem fill_keeps {P : α → Prop} (ms : List (String × Json)) (hx : P x)
    (hf : ∀ f ∈ fields, ∀ js y, P y → P (f.store js y)) : P (fill fields ms x) := by
  refine List.foldlRecOn fields _ hx fun y hy f hmem => ?_
  split
  · exact hy
  · exact hf f hmem _ y hy

theorem mem_of_fieldFor {key : String} (h : fieldFor fields key = some f) :
    f ∈ fields ∧ foldKey key = foldKey f.name := by
  unfold fieldFor at h
  split at h
  · rename_i hx
    cases h
    have hname : f.name = key := by simpa using find?_some hx
    exact ⟨mem_of_find?_eq_some hx, by rw [hname]⟩
  · have hname : foldKey f.name = foldKey key := by simpa using find?_some h
    exact ⟨mem_of_find?_eq_some h, hname.symm⟩

/-- If no two names of fields are compared as one, a key belongs to the field whose name it is
compared as. -/
theorem fieldFor_eq_some (hnodup : (fields.map fun f => foldKey f.name).Nodup) (hf : f ∈ fields) (key : String) :
    fieldFor fields key = some f ↔ foldKey key = foldKey f.name := by
  refine ⟨fun h => (mem_of_fieldFor h).2, fun hkey => ?_⟩
  rcases hg : fieldFor fields key with _ | g
  · have hnone : fields.find? (fun f => foldKey f.name = foldKey key) = none := by
      unfold fieldFor at hg
      split at hg
      · cases hg
      · exact hg
    exact absurd hkey.symm (by simpa using find?_eq_none.1 hnone f hf)
  · obtain ⟨hmem, hname⟩ := mem_of_fieldFor hg
    rw [inj_on_of_nodup_map hnodup hmem hf (hname.symm.trans hkey)]

/-- The values that an object gives to a field. -/
def given (name : String) (ms : List (String × Json)) : List Json :=
  (ms.filter fun m => foldKey m.1 = foldKey name).map (·.2)

theorem valuesOf_named (hnodup : (fields.map fun f => foldKey f.name).Nodup) (hname : name ∈ fields.map (·.name))
    (ms : List (String × Json)) : valuesOf name (named fields ms) = given name ms := by
  obtain ⟨f, hf, rfl⟩ := mem_map.1 hname
  unfold valuesOf named given
  rw [filterMap_filterMap, ← filterMap_eq_map, filterMap_filter]
  refine filterMap_congr fun m _ => ?_
  by_cases hkey : foldKey m.1 = foldKey f.name
  · simp [(fieldFor_eq_some hnodup hf m.1).2 hkey, hkey]
  · rcases hg : fieldFor fields m.1 with _ | g
    · simp [hkey]
    · have hne : g.name ≠ f.name := fun hname => hkey (hname ▸ (mem_of_fieldFor hg).2)
      simp [hkey, hne]

/-- Keys of members and names of fields are among some that are told apart when they are compared. -/
structure Keyed (keys : List String) (fields : List (Slot α)) (ms : List (String × Json)) : Prop where
  nodup : (keys.map foldKey).Nodup
  names : (fields.map (·.name)).Sublist keys
  members : ∀ m ∈ ms, m.1 ∈ keys

/-- There is no member for a field, or one that the field takes. -/
inductive Places (ms : List (String × Json)) (f : Slot α) (x : α) : α → Prop
  | absent : valuesOf f.name ms = [] → Places ms f x x
  | present {j : Json} : valuesOf f.name ms = [j] → f.check j = .ok () → Places ms f x (f.store [j] x)

/-- Members are stored in fields, one after another. -/
inductive Fills (ms : List (String × Json)) : List (Slot α) → α → α → Prop
  | nil (x : α) : Fills ms [] x x
  | cons {f : Slot α} {fs : List (Slot α)} {x y z : α} : Places ms f x y → Fills ms fs y z → Fills ms (f :: fs) x z

theorem places_unless {d : Decoder β} {put : β → α → α} {b : β} (c : Prop) [Decidable c]
    (h : valuesOf name ms = if c then [] else [j]) (hx : c → put b x = x) (hd : ¬ c → d.Reads j b) :
    Places ms (.field name d put) x (put b x) := by
  by_cases hc : c
  · rw [if_pos hc] at h
    exact (hx hc).symm ▸ .absent h
  · rw [if_neg hc] at h
    obtain ⟨hcheck, rfl⟩ := hd hc
    exact .present h hcheck

theorem places_field {d : Decoder β} {put : β → α → α} {b : β} (h : valuesOf name ms = [j]) (hd : d.Reads j b) :
    Places ms (.field name d put) x (put b x) :=
  places_unless False (by rw [h, if_neg id]) False.elim fun _ => hd

theorem places_option {d : Decoder β} {put : Option β → α → α} {o : Option β} {encode : β → Json}
    (h : valuesOf name ms = (o.map encode).toList) (hx : o = none → put o x = x)
    (hd : ∀ b ∈ o, d.Reads (encode b) b ∧ Decoder.isNull (encode b) = false) :
    Places ms (.field name d.optional put) x (put o x) := by
  cases o with
  | none => exact (hx rfl).symm ▸ .absent h
  | some b => exact places_field h (Decoder.optional_reads (hd b rfl).1 (hd b rfl).2)

namespace Keyed

variable {keys : List String} (hk : Keyed keys fields ms)
include hk

theorem eq_of_foldKey (hm : m ∈ ms) (hf : f ∈ fields) (h : foldKey m.1 = foldKey f.name) : m.1 = f.name :=
  inj_on_of_nodup_map hk.nodup (hk.members m hm) (hk.names.subset (mem_map_of_mem hf)) h

theorem valuesOf_named (hf : f ∈ fields) : valuesOf f.name (named fields ms) = valuesOf f.name ms := by
  have hnodup : (fields.map fun f => foldKey f.name).Nodup := by
    have hsub := (hk.names.map foldKey).nodup hk.nodup
    rwa [map_map] at hsub
  rw [Decode.valuesOf_named hnodup (mem_map_of_mem hf)]
  unfold given
  rw [← filterMap_eq_map, filterMap_filter]
  refine filterMap_congr fun m hm => ?_
  by_cases hname : m.1 = f.name
  · simp [hname]
  · have hfold : foldKey m.1 ≠ foldKey f.name := fun h => hname (hk.eq_of_foldKey hm hf h)
    simp [hname, hfold]

end Keyed

namespace Fills

theorem places (h : Fills ms fs x y) (hf : f ∈ fs) : ∃ x y, Places ms f x y := by
  induction h with
  | nil => cases hf
  | cons hplace _ ih =>
    rcases mem_cons.1 hf with rfl | hf
    · exact ⟨_, _, hplace⟩
    · exact ih hf

theorem foldl_eq {g : α → Slot α → α} (h : Fills ms fs x y) (hg : ∀ f ∈ fs, ∀ x y, Places ms f x y → g x f = y) :
    fs.foldl g x = y := by
  induction h with
  | nil => rfl
  | cons hplace _ ih =>
    obtain ⟨hf, hfs⟩ := forall_mem_cons.1 hg
    rw [foldl_cons, hf _ _ hplace, ih hfs]

variable {keys : List String} (hk : Keyed keys fields ms) (h : Fills ms fields x y)
include hk h

theorem fill_eq : fill fields ms x = y := by
  refine h.foldl_eq fun f hf x y hplace => ?_
  rw [hk.valuesOf_named hf]
  cases hplace with
  | absent hnone => rw [hnone]
  | present hone => rw [hone]

theorem checkMember_ok : ∀ m ∈ ms, checkMember fields m = .ok () := by
  intro m hm
  unfold checkMember
  split
  · rename_i f hfor
    obtain ⟨hf, hname⟩ := mem_of_fieldFor hfor
    have hmem : m.2 ∈ valuesOf f.name ms := mem_filterMap.2 ⟨m, hm, if_pos (hk.eq_of_foldKey hm hf hname)⟩
    obtain ⟨_, _, hplace⟩ := h.places hf
    cases hplace with
    | absent hnone =>
      rw [hnone] at hmem
      cases hmem
    | present hone hcheck =>
      rw [hone, mem_singleton] at hmem
      exact hmem ▸ hcheck
  · rfl

/-- **An object is read as what its members fill the fields with.** -/
theorem reads : (Decoder.record fields x).Reads (.ofObject ms) y :=
  ⟨Decoder.checkAll_ok (h.checkMember_ok hk), by
    show fill fields (ms ++ []) x = y
    rw [append_nil, h.fill_eq hk]⟩

end Fills

@[simp] theorem valuesOf_nil : valuesOf name [] = [] := rfl

@[simp] theorem valuesOf_append (ms ns : List (String × Json)) : valuesOf name (ms ++ ns) = valuesOf name ms ++ valuesOf name ns :=
  filterMap_append

@[simp] theorem valuesOf_cons (key : String) (j : Json) (ms : List (String × Json)) :
    valuesOf name ((key, j) :: ms) = if key = name then j :: valuesOf name ms else valuesOf name ms := by
  by_cases h : key = name <;> simp [valuesOf, h]

@[simp] theorem valuesOf_unless (c : Prop) [Decidable c] (key : String) (j : Json) :
    valuesOf name (if c then [] else [(key, j)]) = if key = name then if c then [] else [j] else [] := by
  by_cases h : key = name <;> by_cases hc : c <;> simp [hc]

@[simp] theorem valuesOf_option (key : String) (o : Option Json) :
    valuesOf name (Node.optionMember key o) = if key = name then o.toList else [] := by
  cases o <;> by_cases h : key = name <;> simp [Node.optionMember]

theorem forall_mem_option (key : String) (o : Option Json) (P : String × Json → Prop) :
    (∀ m ∈ Node.optionMember key o, P m) ↔ ∀ j ∈ o, P (key, j) := by
  cases o <;> simp [Node.optionMember]

theorem forall_mem_unless {γ : Type} (c : Prop) [Decidable c] (a : γ) (P : γ → Prop) :
    (∀ m ∈ (if c then [] else [a]), P m) ↔ (¬ c → P a) := by
  by_cases hc : c <;> simp [hc]

end Decode
end ModelGraph
