/-
# Derived properties by place

The declared derived properties of a class stand in front, numbered by their places, and
generated ones come after them without numbers. So a number leads to the place of the same
declaration, however much was generated, and compiling by number is compiling by place.

Key definitions: `Numbered`, `ClassDecl.compileAt`.
Key theorems: `ClassDecl.compileQualifieds_eq`, `AssociationDecl.compileQualifieds_eq`.
-/
import ModelGraph.Proofs.Domain.Effects

namespace ModelGraph

open Model Build List QualifiedProperty

/-- Derived properties that have the numbers of their places, or none. -/
def Numbered (owner : String) (qs : List QualifiedProperty) : Prop :=
  ∀ (j : Nat) (q : QualifiedProperty), qs[j]? = some q → q.ordinal = none ∨ q.Is owner j = true

variable {owner : String} {U : Nat → Prop} {q signature : QualifiedProperty} {qs qs' : List QualifiedProperty}
  {j : Nat} {n n₀ : Model}

theorem QualifiedProperty.is_iff : q.Is owner j = true ↔ q.owner = owner ∧ q.ordinal = some j := by
  simp [Is]

theorem is_of_signatures {α : Type} (f : α → QualifiedDecl) (this : α → TypeRef) {c : Context} {as : List α}
    (h : Forall₂ (fun (a : α × Nat) q => (f a.1).signature c owner (this a.1) a.2 = .ok q) as.zipIdx qs)
    (hq : qs[j]? = some q) : q.Is owner j = true := by
  obtain ⟨hj, rfl⟩ := List.getElem?_eq_some_iff.1 hq
  have hj' : j < as.zipIdx.length := by rwa [h.length_eq]
  have hsig := (forall₂_iff_get.1 h).2 j hj' hj
  simp only [get_eq_getElem, getElem_zipIdx, Nat.zero_add] at hsig
  obtain ⟨howner, hordinal, -⟩ := QualifiedDecl.signature_ok hsig
  exact is_iff.2 ⟨howner, hordinal⟩

theorem ClassDecl.Signed.is {d : ClassDecl} (h : d.Signed n qs) (hq : qs[j]? = some q) :
    q.Is d.header.path j = true :=
  is_of_signatures id (fun _ => d.ref) h hq

theorem AssociationDecl.Signed.is {d : AssociationDecl} {receivers : List TypeRef}
    (h : d.Signed n receivers qs) (hq : qs[j]? = some q) : q.Is d.header.path j = true := by
  obtain ⟨ends, -, rfl, h⟩ := h
  exact is_of_signatures Prod.fst Prod.snd h hq

namespace Numbered

section

variable (h : Numbered owner qs)
include h

theorem ordinal_ne {i : Nat} (hq : qs[i]? = some q) (hi : i ≠ j) : q.ordinal ≠ some j := by
  intro hj
  rcases h i q hq with hnone | his
  · cases hnone.symm.trans hj
  · exact hi (Option.some.inj ((is_iff.1 his).2.symm.trans hj))

theorem generates (hg : Generates qs qs') : Numbered owner qs' := by
  obtain ⟨new, rfl, hnew⟩ := hg
  intro j q hq
  rw [getElem?_append] at hq
  split at hq
  · exact h j q hq
  · exact .inl (hnew q (mem_of_getElem? hq))

theorem refills (hr : Refills owner U qs qs') : Numbered owner qs' := by
  intro j q hq
  obtain ⟨hj', rfl⟩ := List.getElem?_eq_some_iff.1 hq
  have hj : j < qs.length := hr.length_eq ▸ hj'
  have hrefill := (forall₂_iff_get.1 hr).2 j hj hj'
  simp only [get_eq_getElem] at hrefill
  rw [hrefill.ordinal, hrefill.is_eq]
  exact h j _ (getElem?_eq_getElem hj)

theorem find?_eq {t : QualifiedProperty → Bool} (ht : ∀ r, t r = true → r.ordinal = some j)
    (hq : qs[j]? = some q) (hj : t q = true) : qs.find? t = some q := by
  obtain ⟨hlt, rfl⟩ := List.getElem?_eq_some_iff.1 hq
  refine find?_eq_some_iff_getElem.2 ⟨hj, j, hlt, rfl, fun i hi => ?_⟩
  have hne := h.ordinal_ne (getElem?_eq_getElem (Nat.lt_trans hi hlt)) (Nat.ne_of_lt hi)
  rw [Bool.not_eq_true', Bool.eq_false_iff]
  exact fun hi => hne (ht _ hi)

theorem withBody_eq (hq : qs[j]? = some q) (hj : q.Is owner j = true) (body : List Expr) :
    ClassDecl.withBody qs owner j body = qs.modify j fun q => { q with body } := by
  refine ext_getElem? fun i => ?_
  rw [ClassDecl.withBody, getElem?_map, getElem?_modify]
  by_cases hi : j = i
  · have his := is_iff.1 hj
    rw [← hi, hq]
    simp [his.1, his.2]
  · rcases hr : qs[i]? with _ | r
    · rfl
    · simp [hi, h.ordinal_ne hr (Ne.symm hi)]

end

end Numbered

theorem Refills.getElem? (h : Refills owner U qs qs') (hq : qs[j]? = some q) (his : q.Is owner j = true) (hj : U j) :
    qs'[j]? = some q := by
  obtain ⟨hlt, rfl⟩ := List.getElem?_eq_some_iff.1 hq
  have hlt' : j < qs'.length := h.length_eq ▸ hlt
  have hrefill := (forall₂_iff_get.1 h).2 j hlt hlt'
  rw [getElem?_eq_getElem hlt']
  exact congrArg some (hrefill.eq his fun _ => hj)

theorem zipIdx_split {α : Type} {l : List α} {pre post : List (α × Nat)} {y : α × Nat}
    (h : l.zipIdx = pre ++ y :: post) : y.2 ∉ pre.map (·.2) ∧ l[y.2]? = some y.1 := by
  have hnodup : (l.zipIdx.map (·.2)).Nodup := by
    rw [zipIdx_map_snd]
    exact nodup_range'
  rw [h, map_append] at hnodup
  refine ⟨fun hmem => (nodup_append.1 hnodup).2.2 _ hmem _ (.head _) rfl, ?_⟩
  exact mem_zipIdx_iff_getElem?.1 (h ▸ mem_append_right _ (.head _))

theorem forM_zip {α β : Type} {as : List α} {bs : List β} {f : α → Nat → Build PUnit}
    (h : as.length = bs.length) :
    (as.zipIdx.forM fun y => f y.1 y.2) = (as.zip bs).zipIdx.forM fun y => f y.1.1 y.2 := by
  have has : as.zipIdx = (as.zip bs).zipIdx.map (Prod.map Prod.fst id) := by
    rw [← zipIdx_map, map_fst_zip (Nat.le_of_eq h)]
  rw [has]
  exact forM_map

theorem Generates.getElem? (h : Generates qs qs') (hq : qs[j]? = some q) : qs'[j]? = some q := by
  obtain ⟨new, rfl, -⟩ := h
  rw [getElem?_append_left (List.getElem?_eq_some_iff.1 hq).1, hq]

/-! ### Classes -/

namespace ClassDecl

variable {d : ClassDecl} {c : ClassContent} {m n : Model}

/-- Compiles the body of a derived property by its signature, and stores it at a place. -/
def compileAt (d : ClassDecl) (q : QualifiedDecl) (signature : QualifiedProperty) (place : Nat) : Build Unit := do
  let body ← q.compileBody d.header.path signature d.ref d.header.name
  let content ← Build.classOf d.header.path
  Build.setClass d.header.path { content with qualified := content.qualified.modify place fun q => { q with body } }

theorem classOf_staged (hc : m.staged? d.header.path = some (.classType c)) :
    classOf d.header.path m = .ok (c, m) := by
  show Except.ok ((m.class? d.header.path).getD {}, m) = _
  rw [class?_of_staged? hc, Option.getD_some]

theorem compileQualified_eq (h : d.Compiling m c U n) (hj : U j) (hnumbered : Numbered d.header.path c.qualified) (hq : c.qualified[j]? = some signature)
    (his : signature.Is d.header.path j = true) (q : QualifiedDecl) :
    d.compileQualified q j n = d.compileAt q signature j n := by
  obtain ⟨c', hn, -, hqs, -⟩ := h
  have hc' : n.staged? d.header.path = some (.classType c') := by rw [hn, Function.update_self]
  have hnumbered' := hnumbered.refills hqs
  have hplace := hqs.getElem? hq his hj
  have hfind := hnumbered'.find?_eq (fun _ => of_decide_eq_true) hplace
    (decide_eq_true (is_iff.1 his).2)
  unfold compileQualified compileAt
  simp only [bind_run, classOf_staged hc', hfind]
  rcases hbody : q.compileBody d.header.path signature d.ref d.header.name n with e | ⟨body, n₁⟩
  · rfl
  · -- Compiling a body leaves the class as it is.
    have hnoted : n.Noted n₁ := (q.compileBody_made _ _ _ _).notes n body n₁ hbody
    have hc₁ : n₁.staged? d.header.path = some (.classType c') := by rw [hnoted.staged?, hc']
    simp only [classOf_staged hc₁]
    rw [hnumbered'.withBody_eq hplace his]

/-- **The derived properties of a class are compiled at their places.** What was generated stands
behind them. -/
theorem compileQualifieds_eq (hc : m.staged? d.header.path = some (.classType c)) (hsigned : d.Signed n₀ qs)
    (hg : Generates qs c.qualified) : (d.qualified.zipIdx.forM fun y => d.compileQualified y.1 y.2) m =
      ((d.qualified.zip qs).zipIdx.forM fun y => d.compileAt y.1.1 y.1.2 y.2) m := by
  have hnumbered : Numbered d.header.path c.qualified := Numbered.generates (fun _ _ hq => .inr (hsigned.is hq)) hg
  rw [forM_zip (length_zipIdx.symm.trans hsigned.length_eq)]
  refine forM_congr_done (fun done n => d.Compiling m c (fun k => k ∉ done.map (·.2)) n) _
    (compiling_self hc fun _ => not_mem_nil) fun pre y post hsplit n hn => ⟨?_, compileQualified_next hn⟩
  obtain ⟨hunseen, hy⟩ := zipIdx_split hsplit
  obtain ⟨-, hq⟩ := getElem?_zip_eq_some.1 hy
  exact compileQualified_eq hn hunseen hnumbered (hg.getElem? hq) (hsigned.is hq) y.1.1

end ClassDecl

/-! ### Associations -/

namespace AssociationDecl

variable {d : AssociationDecl} {a : AssociationContent} {m n : Model}

/-- Compiles the body of a derived property by its signature, and stores it by number. -/
def compileAs (d : AssociationDecl) (q : QualifiedDecl) (this : TypeRef) (signature : QualifiedProperty)
    (ordinal : Nat) : Build Unit := do
  let body ← q.compileBody d.header.path signature this d.header.name
  d.storeBody this ordinal body

theorem contentOf_staged {p : String} (ha : m.staged? p = some (.association a)) : contentOf p m = .ok (a, m) := by
  obtain ⟨e, he, ha, -⟩ := staged?_eq_some.1 ha
  cases e
  cases ha
  rw [contentOf, he]

theorem compileQualified_eq (h : d.Compiling m a U n) (hnumbered : Numbered d.header.path a.signatures) (hq : a.signatures[j]? = some signature)
    (his : signature.Is d.header.path j = true) (q : QualifiedDecl) (this : TypeRef) :
    d.compileQualified q this j n = d.compileAs q this signature j n := by
  obtain ⟨a', ha', -, hs⟩ := h.staged
  rw [← hs] at hnumbered hq
  have hfind := hnumbered.find?_eq (fun r hr => (is_iff.1 hr).2) hq his
  unfold Is at hfind
  unfold compileQualified
  rw [bind_run, contentOf_staged ha']
  simp only [hfind]
  rfl

/-- **The derived properties of an association are compiled by the signatures of their places.** -/
theorem compileQualifieds_eq (ha : m.staged? d.header.path = some (.association a))
    (hsigned : d.Signed n₀ a.receivers a.signatures) :
    ((d.qualified.zip a.receivers).zipIdx.forM fun y => d.compileQualified y.1.1 y.1.2 y.2) m =
      (((d.qualified.zip a.receivers).zip a.signatures).zipIdx.forM fun y =>
        d.compileAs y.1.1.1 y.1.1.2 y.1.2 y.2) m := by
  have hnumbered : Numbered d.header.path a.signatures := fun _ _ hq => .inr (hsigned.is hq)
  obtain ⟨_, -, -, hqs⟩ := id hsigned
  have hlength : (d.qualified.zip a.receivers).length = a.signatures.length :=
    length_zipIdx.symm.trans hqs.length_eq
  rw [forM_zip (f := fun (y : QualifiedDecl × TypeRef) j => d.compileQualified y.1 y.2 j) hlength]
  refine forM_congr_done (fun done n => d.Compiling m a (fun k => k ∉ done.map (·.2)) n) _ (compiling_self ha)
    fun pre y post hsplit n hn => ?_
  obtain ⟨-, hy⟩ := zipIdx_split hsplit
  obtain ⟨hd, hq⟩ := getElem?_zip_eq_some.1 hy
  exact ⟨compileQualified_eq hn hnumbered hq (hsigned.is hq) y.1.1.1 y.1.1.2,
    compileQualified_next (f := (·.1.1)) (t := (·.1.2)) (getElem?_zip_eq_some.1 hd).2 hn⟩

end AssociationDecl

end ModelGraph
