/-
# What steps do to classes, associations and functions

Each step over the domain changes the contents of the element that it looks up, and an
association those of the classes at its ends. What becomes of them is told here once: the
stage, the derived properties that were declared and those that were generated.

Key definitions: `Model.staged?`, `QualifiedProperty.Is`.
Key theorems: `AssociationDecl.milestoneStep_effect`, `AssociationDecl.compileStep_effect`,
`FunctionDecl.compileStep_effect`.
-/
import Mathlib.Data.List.Induction
import ModelGraph.Proofs.Domain.Checked

namespace ModelGraph

open List hiding modify

open Model Build Function Stage

variable {α : Type} {this : TypeRef} {f : Element → Element} {package name r : String} {span : Span}
  {content : ElementContent} {annotations : Annotations} {n' : Model} {j k : Nat} {qs qs' : List QualifiedProperty}
  {c : ClassContent} {q : QualifiedProperty} {done : List (α × Nat)}

variable {lists : MemberLists}

/-- The stage of contents that have one: those of a class, an association or a function. -/
def ElementContent.stage? : ElementContent → Option Stage
  | .classType c => some c.stage
  | .association a => some a.stage
  | .function f => some f.stage
  | _ => none

/-- The contents of a declared class, association or function. -/
def Model.staged? (m : Model) (p : String) : Option ElementContent :=
  ((m.declared? p).map (·.content)).filter (·.stage?.isSome)

def ElementContent.mapClass (f : ClassContent → ClassContent) : ElementContent → ElementContent
  | .classType c => .classType (f c)
  | x => x

/-- Whether a derived property is the one of a number that an element declares. -/
def QualifiedProperty.Is (owner : String) (ordinal : Nat) (q : QualifiedProperty) : Bool :=
  q.owner = owner && q.ordinal = some ordinal

/-- A list of derived properties with generated ones after it. -/
def Generates (qs qs' : List QualifiedProperty) : Prop := ∃ new, qs' = qs ++ new ∧ ∀ q ∈ new, q.ordinal = none

/-- A derived property as it is, or, if it is one that `owner` declares with a number not in `U`,
with another body. -/
def Refill (owner : String) (U : Nat → Prop) (q q' : QualifiedProperty) : Prop :=
  q' = q ∨ ∃ k body, ¬ U k ∧ q.Is owner k = true ∧ q' = { q with body }

/-- Derived properties in their places, with other bodies only for those of `owner` with numbers
not in `U`. -/
def Refills (owner : String) (U : Nat → Prop) (qs qs' : List QualifiedProperty) : Prop :=
  Forall₂ (Refill owner U) qs qs'

/-- The derived properties that `owner` declares have bodies, but for those with numbers in `U`. -/
def Filled (owner : String) (U : Nat → Prop) (qs : List QualifiedProperty) : Prop :=
  ∀ q ∈ qs, ∀ k, q.Is owner k = true → ¬ U k → q.body ≠ []

/-- The derived properties of a class as they are built in a model. -/
def ClassDecl.Signed (d : ClassDecl) (m : Model) (qs : List QualifiedProperty) : Prop :=
  Forall₂ (fun y q => y.1.signature (Context.of m d.header.path) d.header.path d.ref y.2 = .ok q)
    d.qualified.zipIdx qs

def PropertyDecl.Built (ds : List PropertyDecl) (m : Model) (owner : String) (ps : List Property) : Prop :=
  Forall₂ (fun y p => y.build (Context.of m owner) owner = .ok p) ds ps

/-- The members of a class as they are built in a model: its properties with those for its dates
behind, its derived properties, and the originals that it brings along. -/
structure ClassDecl.Members (d : ClassDecl) (m : Model) (c : ClassContent) : Prop where
  properties : ∃ ps, PropertyDecl.Built d.properties m d.header.path ps ∧
    c.properties = ps ++ dateProperties d.ref (m.declaredTemporal d.ref) d.header.span
  signed : d.Signed m c.qualified
  originals : PropertyDecl.Built d.originals m d.header.path c.originals

/-- The derived properties of an association as they are built in a model, and the classes
that they are navigated from. -/
def AssociationDecl.Signed (d : AssociationDecl) (m : Model) (receivers : List TypeRef)
    (qs : List QualifiedProperty) : Prop :=
  ∃ ends, d.resolveEnds (Context.of m d.header.path) = .ok ends ∧
    receivers = d.qualified.map (receiverOf (Context.of m d.header.path) ends) ∧
    Forall₂ (fun y q => y.1.1.signature (Context.of m d.header.path) d.header.path y.1.2 y.2 = .ok q)
      (d.qualified.zip receivers).zipIdx qs

structure AssociationDecl.Members (d : AssociationDecl) (m : Model) (a : AssociationContent) : Prop where
  ends : ∃ ends, d.resolveEnds (Context.of m d.header.path) = .ok ends ∧ a.ends = some ends ∧
    a.receivers = d.qualified.map (receiverOf (Context.of m d.header.path) ends)
  properties : PropertyDecl.Built d.properties m d.header.path a.properties
  signed : d.Signed m a.receivers a.signatures
  qualified : a.qualified = a.signatures
  originals : PropertyDecl.Built d.originals m d.header.path a.originals

theorem Generates.refl (qs : List QualifiedProperty) : Generates qs qs :=
  ⟨[], (append_nil qs).symm, forall_mem_nil _⟩

theorem Generates.trans {qs'' : List QualifiedProperty} (h : Generates qs qs') (k : Generates qs' qs'') :
    Generates qs qs'' := by
  obtain ⟨new, rfl, hnew⟩ := h
  obtain ⟨more, rfl, hmore⟩ := k
  exact ⟨new ++ more, append_assoc .., forall_mem_append.2 ⟨hnew, hmore⟩⟩

theorem Generates.filter_is (h : Generates qs qs') (r : String) (k : Nat) :
    qs'.filter (·.Is r k) = qs.filter (·.Is r k) := by
  obtain ⟨new, rfl, hnew⟩ := h
  have hnone : new.filter (·.Is r k) = [] := filter_eq_nil_iff.2 fun q hq => by
    simp [QualifiedProperty.Is, hnew q hq]
  rw [filter_append, hnone, append_nil]

section Refills

variable {owner : String} {U V : Nat → Prop} {q q' : QualifiedProperty} {qs qs' : List QualifiedProperty}

theorem Refill.is_eq (h : Refill owner U q q') (r : String) (k : Nat) : q'.Is r k = q.Is r k := by
  rcases h with rfl | ⟨_, body, -, -, rfl⟩
  · rfl
  · rfl

theorem Refill.ordinal (h : Refill owner U q q') : q'.ordinal = q.ordinal := by
  rcases h with rfl | ⟨_, body, -, -, rfl⟩
  · rfl
  · rfl

theorem Refill.eq (h : Refill owner U q q') (hq : q.Is r k = true) (hk : r = owner → U k) : q' = q := by
  rcases h with h | ⟨k', body, hk', hq', -⟩
  · exact h
  · simp only [QualifiedProperty.Is, Bool.and_eq_true, decide_eq_true_eq] at hq hq'
    cases hq.2.symm.trans hq'.2
    exact absurd (hk (hq.1.symm.trans hq'.1)) hk'

theorem Refills.refl (qs : List QualifiedProperty) : Refills owner U qs qs :=
  forall₂_same.2 fun _ _ => .inl rfl

theorem Refills.mono (h : Refills owner U qs qs') (hv : ∀ k, V k → U k) : Refills owner V qs qs' := by
  refine Forall₂.imp (fun q q' hq => hq.imp_right ?_) h
  rintro ⟨k, body, hk, hq⟩
  exact ⟨k, body, fun hkv => hk (hv k hkv), hq⟩

theorem Refills.withBody (h : Refills owner U qs qs') (j : Nat) (body : List Expr) :
    Refills owner (fun k => U k ∧ k ≠ j) qs (ClassDecl.withBody qs' owner j body) := by
  refine forall₂_map_right_iff.2 (Forall₂.imp (fun q q' hq => ?_) h)
  have his : q'.Is owner j = q.Is owner j := hq.is_eq owner j
  split
  · rename_i hj
    refine .inr ⟨j, body, fun hne => hne.2 rfl, his ▸ hj, ?_⟩
    rcases hq with rfl | ⟨_, _, -, -, rfl⟩
    · rfl
    · rfl
  · refine hq.imp_right ?_
    rintro ⟨k, body', hk, hq⟩
    exact ⟨k, body', fun hkj => hk hkj.1, hq⟩

theorem Filled.withBody (h : Filled owner U qs) (j : Nat) {body : List Expr} (hbody : body ≠ []) :
    Filled owner (fun k => U k ∧ k ≠ j) (ClassDecl.withBody qs owner j body) := by
  intro q' hq' k hk hU
  obtain ⟨q, hq, rfl⟩ := mem_map.1 hq'
  by_cases hj : (q.owner = owner && q.ordinal = some j) = true
  · rw [if_pos hj]
    exact hbody
  · rw [if_neg hj] at hk ⊢
    refine h q hq k hk fun hUk => hU ⟨hUk, ?_⟩
    rintro rfl
    exact hj hk

/-- A derived property with a body, if it is the one of its number that `owner` declares. -/
def QualifiedProperty.fill (owner : String) (q : QualifiedProperty) (b : Nat × List Expr) : QualifiedProperty :=
  if q.owner = owner && q.ordinal = some b.1 then { q with body := b.2 } else q

/-- A derived property after bodies were stored by number, one after another. -/
def QualifiedProperty.fillAll (owner : String) (bs : List (Nat × List Expr)) (q : QualifiedProperty) :
    QualifiedProperty :=
  bs.foldl (fill owner) q

theorem withBody_fillAll (owner : String) (bs : List (Nat × List Expr)) (j : Nat) (body : List Expr)
    (qs : List QualifiedProperty) :
    ClassDecl.withBody (qs.map (.fillAll owner bs)) owner j body = qs.map (.fillAll owner (bs ++ [(j, body)])) := by
  unfold ClassDecl.withBody
  rw [map_map]
  refine map_congr_left fun q _ => ?_
  rw [QualifiedProperty.fillAll, foldl_append]
  rfl

/-- Bodies that are stored one after another are stored with the derived properties of their
numbers. -/
theorem Refills.fillAll (owner : String) (qs : List QualifiedProperty) (bs : List (Nat × List Expr)) :
    Refills owner (fun k => k ∉ bs.map (·.1)) qs (qs.map (.fillAll owner bs)) := by
  induction bs using List.reverseRecOn with
  | nil => exact (map_id qs).symm ▸ .refl qs
  | append_singleton bs b ih =>
    rw [← withBody_fillAll]
    refine (ih.withBody b.1 b.2).mono fun k hk => ?_
    rwa [map_append, mem_append, not_or, map_singleton, mem_singleton] at hk

theorem Refills.filter_is (h : Refills owner U qs qs') (hk : r = owner → U k) :
    qs'.filter (·.Is r k) = qs.filter (·.Is r k) := by
  induction h with
  | nil => rfl
  | cons hq _ ih =>
    rw [filter_cons, filter_cons, ih, hq.is_eq]
    split
    · rename_i his
      rw [hq.eq his hk]
    · rfl

end Refills

/-! ### Looking at contents -/

variable {m m' : Model} {p : String} {x y : ElementContent}

namespace Model

theorem staged?_eq_some : m.staged? p = some x ↔
    ∃ e, m.declared? p = some e ∧ e.content = x ∧ x.stage?.isSome = true := by
  unfold staged?
  rw [Option.filter_eq_some_iff, Option.map_eq_some_iff]
  constructor
  · rintro ⟨⟨e, he, hx⟩, hstage⟩
    exact ⟨e, he, hx, hstage⟩
  · rintro ⟨e, he, hx, hstage⟩
    exact ⟨⟨e, he, hx⟩, hstage⟩

theorem staged?_congr (h : m'.elements = m.elements) : m'.staged? = m.staged? :=
  funext fun p => by rw [staged?, staged?, declared?_congr h]

theorem Noted.staged? (h : m.Noted m') : m'.staged? = m.staged? := staged?_congr h.elements

theorem staged?_update (hf : ∀ e, (f e).path = e.path) (hc : ∀ e, (f e).content = e.content) : (m.update p f).staged? = m.staged? := by
  funext q
  rw [staged?, declared?_update hf]
  split
  · rw [Option.map_map]
    exact congrArg (Option.filter _ <| Option.map · _) (funext hc)
  · rfl

theorem staged?_setElement (hf : ∀ e, (f e).path = e.path) (hc : ∀ e, (f e).content = y)
    (hy : y.stage?.isSome = true) (h : m.staged? p = some x) :
    (m.update p f).staged? = Function.update m.staged? p (some y) := by
  obtain ⟨e, he, -, -⟩ := staged?_eq_some.1 h
  funext q
  rw [staged?, declared?_update hf, update_apply]
  split
  · rename_i hq
    rw [hq, he, Option.map_some, Option.map_some, hc]
    exact Option.filter_some_pos hy
  · rfl

theorem staged?_setContent (hy : y.stage?.isSome = true) (h : m.staged? p = some x) :
    (m.setContent p y).staged? = Function.update m.staged? p (some y) := by
  refine staged?_setElement ?_ ?_ hy h
  · exact fun _ => rfl
  · exact fun _ => rfl

section

variable (h : m.register package name span content annotations = .ok m')
include h

theorem staged?_register :
    m'.staged? = Function.update m.staged? (Path.join package name)
      ((some content).filter (·.stage?.isSome)) := by
  funext q
  rw [staged?, declared?_append (register_ok h).2.1, update_apply]
  by_cases hq : q = Path.join package name
  · rw [if_pos hq, hq, register_new h, if_pos rfl]
    rfl
  · rw [if_neg hq, if_neg (Ne.symm hq), Option.or_none]
    rfl

theorem staged?_register_new :
    m.staged? (Path.join package name) = none := by
  rw [staged?, register_new h]
  rfl

end

theorem staged?_updateClass (f : ClassContent → ClassContent) (q : String) :
    (m.updateClass p f).staged? q =
      if q = p then (m.staged? q).map (ElementContent.mapClass f) else m.staged? q := by
  rw [staged?, updateClass, declared?_update]
  · split
    · rw [staged?]
      rcases m.declared? q with _ | ⟨_, _, _, _, content⟩
      · rfl
      · cases content <;> rfl
    · rfl
  · intro e
    split <;> rfl

/-- Only contents without stages were added or changed. -/
theorem Grows.staged? (h : Grows (outside [.classType, .association, .function]) m m') :
    m'.staged? = m.staged? := by
  have hout {e : Element} {x : ElementContent} (hx : e.content = x) (hs : x.stage?.isSome = true) :
      ¬ outside [.classType, .association, .function] e.category? := by
    unfold Element.category?
    rw [hx]
    cases x with
    | classType c => exact fun hk => hk .classType (by simp) rfl
    | association a => exact fun hk => hk .association (by simp) rfl
    | function f => exact fun hk => hk .function (by simp) rfl
    | _ => cases hs
  funext q
  rcases hq : m.staged? q with _ | x
  · rcases hq' : m'.staged? q with _ | y
    · rfl
    · obtain ⟨e, he, hy, hs⟩ := staged?_eq_some.1 hq'
      have hq'' := staged?_eq_some.2 ⟨e, h.unchanged he (hout hy hs), hy, hs⟩
      rw [hq] at hq''
      cases hq''
  · obtain ⟨e, he, hx, hs⟩ := staged?_eq_some.1 hq
    obtain ⟨e', he', -, rfl | hk⟩ := h.kept he
    · exact staged?_eq_some.2 ⟨_, he', hx, hs⟩
    · exact absurd hk (hout hx hs)

theorem declaredTemporal_congr (h : m'.elements = m.elements) : m'.declaredTemporal = m.declaredTemporal := by
  funext t
  unfold declaredTemporal element?
  rw [declared?_congr h]

theorem declaredTemporal_setContent (p : String) (content : ElementContent) :
    (m.setContent p content).declaredTemporal = m.declaredTemporal := by
  funext t
  unfold declaredTemporal element?
  rw [declared?_setContent]
  by_cases ht : t.path = p
  · rw [if_pos ht]
    cases m.declared? t.path <;> rfl
  · rw [if_neg ht]

theorem class?_of_staged? (h : m.staged? p = some (.classType c)) : m.class? p = some c := by
  obtain ⟨e, he, hc, -⟩ := staged?_eq_some.1 h
  rw [class?, element?, he, Option.bind_some, Element.class?, hc]

theorem exists_staged_of_mem (h : q ∈ ((m.class? p).getD {}).assocQualified) :
    ∃ c, m.staged? p = some (.classType c) ∧ q ∈ c.assocQualified := by
  rcases hp : m.class? p with _ | c <;> rw [hp] at h
  · cases h
  · obtain ⟨e, he, hc⟩ := Option.bind_eq_some_iff.1 hp
    unfold element? at he
    split at he
    · rename_i x hx
      cases he
      unfold Element.class? at hc
      split at hc <;> cases hc
      rename_i hcontent
      exact ⟨_, staged?_eq_some.2 ⟨_, hx, hcontent, rfl⟩, h⟩
    · have hwordless := Library.class_isWordless he hc
      simp only [ClassContent.isWordless, Bool.and_eq_true, List.isEmpty_iff] at hwordless
      rw [Option.getD_some, hwordless.1.2] at h
      cases h

theorem Has.staged_class (h : m.Has p .classType) : ∃ c, m.staged? p = some (.classType c) := by
  obtain ⟨e, c, he, hc, -⟩ := h.class?
  exact ⟨c, staged?_eq_some.2 ⟨e, he, hc, rfl⟩⟩

theorem Has.staged_association (h : m.Has p .association) : ∃ a, m.staged? p = some (.association a) := by
  obtain ⟨e, a, he, ha⟩ := h.association
  exact ⟨a, staged?_eq_some.2 ⟨e, he, ha, rfl⟩⟩

end Model

theorem Build.ensures_classOf_staged {Q : ClassContent → Model → Prop}
    (h : m.staged? p = some (.classType c)) : (classOf p).Ensures m Q ↔ Q c m := by
  rw [ensures_classOf, class?_of_staged? h, Option.getD_some]

theorem AssociationDecl.ensures_contentOf_staged {a : AssociationContent} {Q : AssociationContent → Model → Prop}
    (h : m.staged? p = some (.association a)) : (contentOf p).Ensures m Q ↔ Q a m := by
  obtain ⟨e, he, ha, -⟩ := staged?_eq_some.1 h
  exact ensures_contentOf he ha

/-! ### Classes -/

namespace ClassDecl

variable {c : ClassContent}

theorem declare_effect (d : ClassDecl) : d.declare.Ensures m fun _ m' =>
    m.staged? d.header.path = none ∧
      m'.staged? = update m.staged? d.header.path (some (.classType {})) := by
  unfold declare
  simp only [ensures_bind, ensures_context, ensures_liftM, ensures_modify]
  refine ensures_register.2 fun n hn annotations _ => ?_
  have hsame := staged?_update (m := n) (p := d.header.path) (f := fun e => { e with annotations })
    (fun _ => rfl) fun _ => rfl
  refine ⟨staged?_register_new hn, ?_⟩
  rw [hsame, staged?_register hn]
  rfl

theorem structureStep_effect (d : ClassDecl) (hc : m.staged? d.header.path = some (.classType c)) :
    d.structureStep.Ensures m fun _ m' => ∃ c' : ClassContent,
      m'.staged? = update m.staged? d.header.path (some (.classType c')) ∧
      c'.stage = .structured ∧ d.Members m c' ∧ c'.assocProperties = c.assocProperties ∧
      c'.assocQualified = c.assocQualified := by
  unfold structureStep
  simp only [ensures_bind, ensures_context, ensures_get, ensures_liftM]
  intro named _
  refine ensures_mapM_liftM fun properties hproperties => ensures_mapM_liftM fun qualified hqualified =>
    ensures_mapM_liftM fun originals horiginals => ?_
  rw [ensures_classOf_staged hc]
  intro stage hstage
  obtain ⟨rfl, -⟩ := advance_ok hstage
  rw [ensures_setClass, staged?_setContent rfl hc]
  exact ⟨_, rfl, rfl, ⟨⟨properties, hproperties, rfl⟩, hqualified, horiginals⟩, rfl, rfl⟩

end ClassDecl

section Milestoning

variable {owner : TypeRef} {c : ClassContent}

/-- A derived property with a body of one expression. -/
def Bodied (q q' : QualifiedProperty) : Prop := ∃ e, q' = { q with body := [e] }

/-- What milestoning makes of the given lists of a class, with `qs` for the derived properties. -/
def MemberLists.replace (lists : MemberLists) (m : Model) (owner : TypeRef) (qs : List QualifiedProperty)
    (c : ClassContent) : ClassContent :=
  if (datedProperties m owner (lists.get c).1).isEmpty then c
  else
    { lists.put (storedProperties m owner (lists.get c).1, (lists.get c).2 ++ qs) c with
      originals := addOriginals c.originals (datedProperties m owner (lists.get c).1) }

/-- Derived properties with bodies for those that replace the dated ones of the given lists. -/
def MemberLists.Derives (lists : MemberLists) (m : Model) (owner : TypeRef) (c : ClassContent)
    (qs : List QualifiedProperty) : Prop :=
  Forall₂ Bodied ((datedProperties m owner (lists.get c).1).flatMap (·.derived)) qs

theorem MemberLists.Derives.generated (h : lists.Derives m owner c qs) : ∀ q ∈ qs, q.ordinal = none := by
  intro q hq
  obtain ⟨q₀, hq₀, e, rfl⟩ := exists_of_forall₂ h hq
  exact (derived_silent m owner _ q₀ hq₀).1

section

variable (h : m'.declaredTemporal = m.declaredTemporal)
include h

theorem Model.rawTemporal_congr : m'.rawTemporal = m.rawTemporal := by
  funext r
  cases r with
  | named t => exact congrFun h t
  | function => rfl

theorem datedProperties_congr :
    datedProperties m' = datedProperties m := by
  unfold datedProperties
  rw [h, rawTemporal_congr h]

theorem MemberLists.replace_congr (lists : MemberLists) :
    lists.replace m' = lists.replace m := by
  unfold replace storedProperties
  rw [datedProperties_congr h, rawTemporal_congr h]

end

theorem MemberLists.stage_replace (hl : lists.Mild) (qs : List QualifiedProperty) :
    (lists.replace m owner qs c).stage = c.stage := by
  unfold replace
  split
  · rfl
  · exact hl.stage _ _

@[simp] theorem MemberLists.associated_get_replace_own (qs : List QualifiedProperty) :
    associated.get (own.replace m owner qs c) = associated.get c := by
  unfold replace
  split <;> rfl

theorem DatedProperty.compile_bodied (d : DatedProperty) (owner : TypeRef) (q : QualifiedProperty) :
    (d.compile owner q).Ensures m fun q' _ => Bodied q q' := by
  intro q' m' h
  unfold compile at h
  simp only at h
  split at h
  · cases h
    exact ⟨_, rfl⟩
  · cases h

theorem compileDerived_bodied (found : List DatedProperty) :
    (found.mapM fun (d : DatedProperty) => d.derived.mapM (d.compile owner)).Ensures m fun compiled m' =>
      m.Noted m' ∧ Forall₂ Bodied (found.flatMap (·.derived)) compiled.flatten := by
  have hone (d : DatedProperty) (n : Model) (hn : m.Noted n) :
      (d.derived.mapM (d.compile owner)).Ensures n fun qs n' => m.Noted n' ∧ Forall₂ Bodied d.derived qs :=
    ensures_mapM_forall₂ hn fun q _ n hn => (((d.compile_made owner q).notes n).and (d.compile_bodied owner q)).mono
      fun _ _ h => ⟨hn.trans h.1, h.2⟩
  refine (ensures_mapM_forall₂ (.refl m) fun d _ n hn => hone d n hn).mono fun compiled m' h => ⟨h.1, ?_⟩
  exact rel_flatten (forall₂_map_left_iff.2 h.2)

theorem replaceDated_effect (hl : lists = .own ∨ lists = .associated)
    (hc : m.staged? owner.path = some (.classType c)) :
    (replaceDated owner lists).Ensures m fun _ m' => ∃ qs, lists.Derives m owner c qs ∧
      m'.staged? = update m.staged? owner.path (some (.classType (lists.replace m owner qs c))) ∧
      m'.declaredTemporal = m.declaredTemporal := by
  rw [replaceDated_eq]
  simp only [ensures_bind, ensures_get, ensures_classOf_staged hc, ensures_ite, ensures_setClass, ensures_pure]
  refine ⟨fun hnone => ⟨[], ?_, ?_, trivial⟩, fun hsome => ?_⟩
  · rw [MemberLists.Derives, List.isEmpty_iff.1 hnone]
    exact .nil
  · rw [MemberLists.replace, if_pos hnone, ← hc, update_eq_self]
  · generalize hc₁ : ({ lists.put _ c with originals := _ } : ClassContent) = c₁
    have hm₁ := staged?_setContent (y := .classType c₁) rfl hc
    refine (compileDerived_bodied _).mono ?_
    rintro compiled m₂ ⟨h₂, hcompiled⟩
    have hm₂ := h₂.staged?.trans hm₁
    have hc₂ : m₂.staged? owner.path = some (.classType c₁) := by rw [hm₂, update_self]
    have htemporal := (declaredTemporal_congr h₂.elements).trans
      (declaredTemporal_setContent owner.path (.classType c₁))
    rw [ensures_classOf_staged hc₂, staged?_setContent rfl hc₂, hm₂, update_idem,
      declaredTemporal_setContent, htemporal]
    refine ⟨compiled.flatten, hcompiled, ?_, rfl⟩
    rw [MemberLists.replace, if_neg hsome, ← hc₁]
    rcases hl with rfl | rfl
    · rfl
    · rfl

/-- **Milestoning a class.** Its own lists are milestoned first, then those from associations. -/
theorem milestoneClass_effect (hc : m.staged? owner.path = some (.classType c)) :
    (milestoneClass owner).Ensures m fun _ m' => ∃ qs rs, MemberLists.own.Derives m owner c qs ∧
      MemberLists.associated.Derives m owner c rs ∧
      m'.staged? = update m.staged? owner.path (some (.classType
        { MemberLists.associated.replace m owner rs (MemberLists.own.replace m owner qs c) with
          stage := .milestoned })) := by
  unfold milestoneClass
  rw [ensures_bind]
  refine (replaceDated_effect (.inl rfl) hc).mono ?_
  rintro _ m₁ ⟨qs, hqs, hm₁, htemporal⟩
  rw [ensures_bind]
  refine (replaceDated_effect (.inr rfl) (by rw [hm₁, update_self])).mono ?_
  rintro _ m₂ ⟨rs, hrs, hm₂, -⟩
  have hc₂ : m₂.staged? owner.path = some (.classType (MemberLists.associated.replace m₁ owner rs
      (MemberLists.own.replace m owner qs c))) := by rw [hm₂, update_self]
  simp only [ensures_bind, ensures_classOf_staged hc₂, ensures_liftM, ensures_setClass]
  intro stage hstage
  obtain ⟨rfl, -⟩ := advance_ok hstage
  rw [staged?_setContent rfl hc₂, hm₂, hm₁, update_idem, update_idem]
  rw [MemberLists.Derives, MemberLists.associated_get_replace_own, datedProperties_congr htemporal] at hrs
  refine ⟨qs, rs, hqs, hrs, ?_⟩
  rw [MemberLists.replace_congr htemporal]

/-- What milestoning makes of a class: derived properties are generated, the others stay. -/
structure ClassContent.Overloaded (c c' : ClassContent) : Prop where
  qualified : Generates c.qualified c'.qualified
  assocQualified : Generates c.assocQualified c'.assocQualified

theorem MemberLists.overloaded_replace (hl : lists = .own ∨ lists = .associated)
    (h : ∀ q ∈ qs, q.ordinal = none) : c.Overloaded (lists.replace m owner qs c) := by
  unfold replace
  split
  · exact ⟨.refl _, .refl _⟩
  · rcases hl with rfl | rfl
    · exact ⟨⟨_, rfl, h⟩, .refl _⟩
    · exact ⟨.refl _, ⟨_, rfl, h⟩⟩

theorem milestoneClass_overloads (hc : m.staged? owner.path = some (.classType c)) :
    (milestoneClass owner).Ensures m fun _ m' => ∃ c' : ClassContent,
      m'.staged? = update m.staged? owner.path (some (.classType c')) ∧
      c'.stage = .milestoned ∧ c.Overloaded c' := by
  refine (milestoneClass_effect hc).mono ?_
  rintro _ m' ⟨qs, rs, hqs, hrs, hm'⟩
  have hown : c.Overloaded (MemberLists.own.replace m owner qs c) :=
    MemberLists.overloaded_replace (.inl rfl) hqs.generated
  have hassociated : (MemberLists.own.replace m owner qs c).Overloaded
      (MemberLists.associated.replace m owner rs (MemberLists.own.replace m owner qs c)) :=
    MemberLists.overloaded_replace (.inr rfl) hrs.generated
  exact ⟨_, hm', rfl, hown.1.trans hassociated.qualified, hown.2.trans hassociated.assocQualified⟩

end Milestoning

/-- A property without its default value. -/
def Property.bare (p : Property) : Property := { p with default := none }

/-- What compiling leaves of a class: all but bodies, default values and constraints. -/
def ClassContent.frame (c : ClassContent) : ClassContent :=
  { c with properties := c.properties.map Property.bare, qualified := [], constraints := [] }

theorem ClassDecl.setDefault_bare (name : String) (value : Expr) :
    ∀ ps : List Property, (setDefault name value ps).map Property.bare = ps.map Property.bare
  | [] => rfl
  | p :: ps => by
    unfold setDefault
    split
    · rfl
    · rw [map_cons, map_cons, setDefault_bare name value ps]

namespace ClassDecl

variable {c : ClassContent} {n : Model} (d : ClassDecl)

/-- From `m`, where the class has the contents `c`, its bodies are being compiled, those with
numbers in `U` not yet, and nothing else has changed. -/
def Compiling (m : Model) (c : ClassContent) (U : Nat → Prop) (n : Model) : Prop :=
  ∃ c' : ClassContent, n.staged? = update m.staged? d.header.path (some (.classType c')) ∧
    c'.frame = c.frame ∧ Refills d.header.path U c.qualified c'.qualified ∧ Filled d.header.path U c'.qualified

variable {d} {U V : Nat → Prop}

theorem compiling_self (hc : m.staged? d.header.path = some (.classType c)) (hU : ∀ k, U k) : d.Compiling m c U m :=
  ⟨c, by rw [← hc, update_eq_self], rfl, .refl _, fun _ _ k _ hk => absurd (hU k) hk⟩

theorem Compiling.set (h : d.Compiling m c U n) (f : ClassContent → ClassContent)
    (hf : ∀ c, (f c).frame = c.frame)
    (hq : ∀ c', Refills d.header.path U c.qualified c'.qualified →
      Refills d.header.path V c.qualified (f c').qualified)
    (hfill : ∀ c', Filled d.header.path U c'.qualified → Filled d.header.path V (f c').qualified) :
    (do let content ← classOf d.header.path
        setClass d.header.path (f content)).Ensures n fun _ n' => d.Compiling m c V n' := by
  obtain ⟨c', hn, hframe, hqs, hfilled⟩ := h
  have hc' : n.staged? d.header.path = some (.classType c') := by rw [hn, update_self]
  rw [ensures_bind, ensures_classOf_staged hc', ensures_setClass]
  refine ⟨f c', ?_, (hf c').trans hframe, hq c' hqs, hfill c' hfilled⟩
  rw [staged?_setContent rfl hc', hn, update_idem]

theorem Compiling.noted (h : d.Compiling m c U n) (hn : n.Noted n') : d.Compiling m c U n' := by
  unfold Compiling
  rwa [hn.staged?]

theorem compileQualified_effect (q : QualifiedDecl) (j : Nat) (h : d.Compiling m c U n) :
    (d.compileQualified q j).Ensures n fun _ n' => d.Compiling m c (fun k => U k ∧ k ≠ j) n' := by
  unfold compileQualified
  rw [ensures_bind, ensures_classOf]
  split
  · rename_i hnone
    obtain ⟨c', hn, hframe, hqs, hfilled⟩ := h
    have hc' : n.staged? d.header.path = some (.classType c') := by rw [hn, update_self]
    rw [class?_of_staged? hc'] at hnone
    refine ensures_pure.2 ⟨c', hn, hframe, hqs.mono fun _ hk => hk.1, fun r hr k hk hU => ?_⟩
    refine hfilled r hr k hk fun hUk => hU ⟨hUk, ?_⟩
    rintro rfl
    exact find?_eq_none.1 hnone r hr (Bool.and_eq_true_iff.1 hk).2
  · rw [ensures_bind]
    refine (q.compileBody_compiles _ _ _).ensures.mono ?_
    rintro body n₁ ⟨h₁, -, last, hlast, -⟩
    have hbody : body ≠ [] := by
      rintro rfl
      cases hlast
    exact (h.noted h₁).set
      (fun content => { content with qualified := withBody content.qualified d.header.path j body })
      (fun _ => rfl) (fun c' hqs => hqs.withBody j body) fun c' hfilled => hfilled.withBody j hbody

theorem compileQualified_next {f : α → QualifiedDecl} {y : α × Nat}
    (h : d.Compiling m c (fun k => k ∉ done.map (·.2)) n) : (d.compileQualified (f y.1) y.2).Ensures n fun _ n' =>
      d.Compiling m c (fun k => k ∉ (done ++ [y]).map (·.2)) n' := by
  simp only [map_append, mem_append, not_or, map_singleton, mem_singleton]
  exact compileQualified_effect (f y.1) y.2 h

theorem compileQualifieds_effect (hc : m.staged? d.header.path = some (.classType c)) (ys : List (QualifiedDecl × Nat)) :
    (ys.forM fun y => d.compileQualified y.1 y.2).Ensures m fun _ n =>
      d.Compiling m c (fun k => k ∉ ys.map (·.2)) n :=
  ensures_forM_done (fun done n => d.Compiling m c (fun k => k ∉ done.map (·.2)) n) ys
    (compiling_self hc fun _ => not_mem_nil) fun _ _ _ _ _ hn => compileQualified_next (f := id) hn

theorem compileDefault_effect (p : PropertyDecl) (h : d.Compiling m c U n) :
    (d.compileDefault p).Ensures n fun _ n' => d.Compiling m c U n' := by
  unfold compileDefault
  rw [ensures_bind, ensures_classOf]
  split
  · exact ensures_pure.2 h
  · rw [ensures_ite]
    refine ⟨fun _ => ?_, fun _ => ensures_pure.2 h⟩
    rw [ensures_bind]
    refine (notes_value _ _ _ n).mono fun value n₁ h₁ => ?_
    refine (h.noted h₁).set
      (fun content => { content with properties := setDefault p.name value content.properties })
      (fun content => ?_) (fun c' hqs => hqs) fun c' hfilled => hfilled
    unfold ClassContent.frame
    rw [setDefault_bare]

theorem compileMembers_effect (hc : m.staged? d.header.path = some (.classType c)) :
    d.compileMembers.Ensures m fun _ n => d.Compiling m c (fun k => k ∉ d.qualified.zipIdx.map (·.2)) n := by
  unfold compileMembers
  simp only [ensures_bind, ensures_get]
  refine (compileQualifieds_effect hc _).mono fun _ n hn => ?_
  refine (ensures_forM hn fun p _ n hn => compileDefault_effect p hn).mono fun _ n hn => ?_
  exact ((made_mapM fun c _ => c.compile_made _ _).notes n).mono fun _ n' hn' => hn.noted hn'

theorem compileStep_effect (hc : m.staged? d.header.path = some (.classType c)) :
    d.compileStep.Ensures m fun _ m' => ∃ c' : ClassContent,
      m'.staged? = update m.staged? d.header.path (some (.classType c')) ∧
      c'.frame = { c.frame with stage := .compiled } ∧
      Refills d.header.path (fun _ => False) c.qualified c'.qualified ∧
      Filled d.header.path (fun k => d.qualified.length ≤ k) c'.qualified := by
  rw [compileStep_eq, ensures_bind]
  refine (compileMembers_effect hc).mono ?_
  rintro constraints n ⟨c', hn, hframe, hqs, hfilled⟩
  have hc' : n.staged? d.header.path = some (.classType c') := by rw [hn, update_self]
  rw [ensures_bind, ensures_classOf_staged hc', ensures_bind, ensures_liftM]
  intro stage hstage
  obtain ⟨rfl, -⟩ := advance_ok hstage
  rw [ensures_setClass, staged?_setContent rfl hc', hn, update_idem]
  refine ⟨_, rfl, congrArg (fun c : ClassContent => { c with stage := .compiled }) hframe,
    hqs.mono fun _ => False.elim, fun q hq k hk hlt => hfilled q hq k hk (not_not.2 ?_)⟩
  rw [zipIdx_map_snd, mem_range'_1]
  exact ⟨Nat.zero_le k, by simpa using hlt⟩

end ClassDecl

/-! ### Associations -/

/-- The contents of classes, associations and functions with each class changed in its own way. -/
def Model.remap (m : Model) (f : String → ClassContent → ClassContent) (p : String) : Option ElementContent :=
  (m.staged? p).map (ElementContent.mapClass (f p))

theorem Model.remap_id (m : Model) : m.remap (fun _ c => c) = m.staged? := by
  funext p
  unfold remap
  rcases m.staged? p with _ | x
  · rfl
  · cases x <;> rfl

theorem Model.remap_remap (m : Model) (f : String → ClassContent → ClassContent) (g : ClassContent → ClassContent)
    (p q : String) :
    (if q = p then (m.remap f q).map (ElementContent.mapClass g) else m.remap f q) =
      m.remap (fun q c => if q = p then g (f q c) else f q c) q := by
  unfold remap
  split
  · rename_i hq
    rcases m.staged? q with _ | x
    · rfl
    · cases x <;> simp [ElementContent.mapClass, hq]
  · rename_i hq
    simp only [hq, if_false]

/-- A class with members of an association added. -/
def ClassContent.receive (ps : List Property) (qs : List QualifiedProperty) (c : ClassContent) : ClassContent :=
  { c with assocProperties := c.assocProperties ++ ps, assocQualified := c.assocQualified ++ qs }

theorem ClassContent.receive_nil (c : ClassContent) : c.receive [] [] = c := by
  unfold receive
  rw [append_nil, append_nil]

theorem ClassContent.receive_receive (c : ClassContent) (ps ps' : List Property) (qs qs' : List QualifiedProperty) :
    (c.receive ps qs).receive ps' qs' = c.receive (ps ++ ps') (qs ++ qs') := by
  unfold receive
  simp only [append_assoc]

/-- A change of a class that only adds members of an association, with the derived properties `qs`. -/
structure Receives (qs : List QualifiedProperty) (f : ClassContent → ClassContent) : Prop where
  stage : ∀ c, (f c).stage = c.stage
  qualified : ∀ c, (f c).qualified = c.qualified
  assocQualified : ∀ c, (f c).assocQualified = c.assocQualified ++ qs

/-- A change of a class that only stores bodies of derived properties of an association. -/
structure Refilling (owner : String) (U : Nat → Prop) (f : ClassContent → ClassContent) : Prop where
  stage : ∀ c, (f c).stage = c.stage
  qualified : ∀ c, (f c).qualified = c.qualified
  assocQualified : ∀ c, Refills owner U c.assocQualified (f c).assocQualified

/-- A class with bodies stored by number with its derived properties from an association. -/
def ClassContent.refill (owner : String) (bs : List (Nat × List Expr)) (c : ClassContent) : ClassContent :=
  { c with assocQualified := c.assocQualified.map (.fillAll owner bs) }

/-- An association with bodies stored by number with its derived properties. -/
def AssociationContent.refill (owner : String) (bs : List (Nat × List Expr)) (a : AssociationContent) :
    AssociationContent :=
  { a with qualified := a.qualified.map (.fillAll owner bs) }

/-- The bodies, out of some with the classes and numbers of their derived properties, that go to the
class of a path. -/
def bodiesAt (bs : List (TypeRef × Nat × List Expr)) (p : String) : List (Nat × List Expr) :=
  (bs.filter fun b => b.1.path = p).map (·.2)

theorem bodiesAt_concat (bs : List (TypeRef × Nat × List Expr)) (b : TypeRef × Nat × List Expr) (p : String) :
    bodiesAt (bs ++ [b]) p = bodiesAt bs p ++ if p = b.1.path then [b.2] else [] := by
  unfold bodiesAt
  by_cases h : b.1.path = p
  · simp [h]
  · simp [h, Ne.symm h]

/-- The derived properties that go to a class, out of some with the classes that they go to. -/
def handed (ys : List (TypeRef × QualifiedProperty)) (p : String) : List QualifiedProperty :=
  (ys.filter fun y => y.1.path = p).map (·.2)

theorem handed_concat (ys : List (TypeRef × QualifiedProperty)) (y : TypeRef × QualifiedProperty) (p : String) :
    handed (ys ++ [y]) p = handed ys p ++ if p = y.1.path then [y.2] else [] := by
  unfold handed
  by_cases h : y.1.path = p
  · simp [h]
  · simp [h, Ne.symm h]

/-- From `m` on, each class has got members of an association. -/
def Model.Hands (m : Model) (ps : String → List Property) (qs : String → List QualifiedProperty) (n : Model) : Prop :=
  n.staged? = m.remap fun p => ClassContent.receive (ps p) (qs p)

theorem Model.hands_self (m : Model) : m.Hands (fun _ => []) (fun _ => []) m := by
  have hnil : ClassContent.receive [] [] = id := funext ClassContent.receive_nil
  rw [Hands, hnil]
  exact m.remap_id.symm

theorem Model.Hands.updateClass {n : Model} {ps : String → List Property} {qs : String → List QualifiedProperty}
    {ps' : List Property} {g : ClassContent → ClassContent} (h : m.Hands ps qs n)
    (hg : ∀ c, g c = c.receive ps' qs') :
    m.Hands (fun q => ps q ++ if q = p then ps' else []) (fun q => qs q ++ if q = p then qs' else [])
      (n.updateClass p g) := by
  funext q
  rw [staged?_updateClass, h, m.remap_remap]
  unfold remap
  by_cases hq : q = p
  · simp only [hq, if_true, hg, ClassContent.receive_receive]
  · simp only [hq, if_false, append_nil]

/-- The stored properties of an association that the class of a path holds: each one is navigated
from the end that is not its type. -/
def AssociationContent.propertiesAt (a : AssociationContent) (p : String) : List Property :=
  a.ends.elim [] fun ends =>
    (if p = ends.2.path then a.properties.take 1 else []) ++ if p = ends.1.path then a.properties.drop 1 else []

/-- The derived properties of an association that the class of a path holds. -/
def AssociationContent.qualifiedAt (a : AssociationContent) (p : String) : List QualifiedProperty :=
  handed (a.receivers.zip a.signatures) p

namespace AssociationDecl

theorem declare_effect (d : AssociationDecl) : d.declare.Ensures m fun _ m' => ∃ n a,
    m.register d.header.package d.header.name d.header.span (.association {}) = .ok n ∧
    d.Members n a ∧ a.stage = .structured ∧ m'.staged? = update
      (m.remap fun p => ClassContent.receive (a.propertiesAt p) (a.qualifiedAt p)) d.header.path (some (.association a)) := by
  unfold declare
  simp only [ensures_bind]
  refine ensures_register.2 fun n hn => ?_
  rw [ensures_context, ensures_liftM]
  intro ends hends
  refine ensures_mapM_liftM fun properties hproperties => ensures_mapM_liftM fun qualified hqualified =>
    ensures_mapM_liftM fun originals horiginals => ?_
  simp only [ensures_liftM, ensures_modify]
  intro annotations _ stage hstage
  obtain ⟨rfl, -⟩ := advance_ok hstage
  generalize hreceivers : d.qualified.map (receiverOf (Context.of n d.header.path) ends) = receivers at hqualified ⊢
  let a : AssociationContent :=
    { stage := .structured, properties, qualified, originals, ends := some ends
      receivers, signatures := qualified }
  generalize hn₁ : (n.updateClass _ _).updateClass _ _ = n₁
  -- The stored properties are handed out first, then the derived ones, one by one.
  have hattach (ps : List Property) (c : ClassContent) :
      { c with assocProperties := c.assocProperties ++ ps } = c.receive ps [] := by
    rw [ClassContent.receive, append_nil]
  have hstart : n.Hands a.propertiesAt (handed []) n₁ := by
    have hands := (n.hands_self.updateClass (p := ends.2.path) (hattach (properties.take 1))).updateClass
      (p := ends.1.path) (hattach (properties.drop 1))
    simp only [ite_self, hn₁] at hands
    exact hands
  refine (ensures_forM_done (fun done k => n.Hands a.propertiesAt (handed done) k) _ hstart
    fun pre y _ _ k hk => ?_).mono fun _ m₂ h₂ => ?_
  · rw [ensures_modify]
    have hgive (c : ClassContent) : { c with assocQualified := c.assocQualified ++ [y.2] } = c.receive [] [y.2] := by
      rw [ClassContent.receive, append_nil]
    have hands := hk.updateClass (p := y.1.path) hgive
    simp only [ite_self, append_nil, ← handed_concat] at hands
    exact hands
  · have hn₂ := staged?_register hn
    have hpath : m₂.staged? d.header.path = some (.association {}) := by
      rw [h₂, remap, hn₂]
      exact congrArg _ (update_self ..)
    have hmembers : d.Members n a :=
      ⟨⟨ends, hends, rfl, hreceivers.symm⟩, hproperties, ⟨ends, hends, hreceivers.symm, hqualified⟩, rfl, horiginals⟩
    refine ⟨n, a, hn, hmembers, rfl, ?_⟩
    have hset := staged?_setElement
      (f := fun e => { e with annotations, content := .association a }) (fun _ => rfl) (fun _ => rfl) rfl hpath
    refine hset.trans (funext fun q => ?_)
    rw [update_apply, update_apply]
    split
    · rfl
    · rename_i hq
      rw [h₂, remap, hn₂]
      exact congrArg _ (update_of_ne hq ..)

variable {a : AssociationContent} {n : Model} {U V : Nat → Prop}

theorem mem_fromEnd {path : String} {source : TypeRef} {target : ClassContent}
    (h : q ∈ (a.fromEnd path source target).qualified) :
    q ∈ a.qualified ∨ q ∈ target.assocQualified ∧ q.owner = path := by
  unfold AssociationContent.fromEnd at h
  split at h
  · exact .inl h
  · rcases mem_append.1 h with h | h
    · exact .inl (mem_of_mem_filter h)
    · rw [mem_filter, decide_eq_true_eq] at h
      exact .inr h

theorem fromEnd_kept (a : AssociationContent) (path : String) (source : TypeRef) (target : ClassContent) :
    (a.fromEnd path source target).ends = a.ends ∧ (a.fromEnd path source target).receivers = a.receivers ∧
      (a.fromEnd path source target).signatures = a.signatures := by
  unfold AssociationContent.fromEnd
  split
  · exact ⟨rfl, rfl, rfl⟩
  · exact ⟨rfl, rfl, rfl⟩

/-- **Milestoning an association.** It takes over what its ends have made of its members. -/
theorem milestoneStep_effect (d : AssociationDecl) {first second : TypeRef}
    (ha : m.staged? d.header.path = some (.association a)) (hends : a.ends = some (first, second)) :
    d.milestoneStep.Ensures m fun _ m' => m'.staged? = update m.staged? d.header.path (some (.association
      { (a.fromEnd d.header.path second ((m.class? first.path).getD {})).fromEnd d.header.path first
          ((m.class? second.path).getD {}) with stage := .milestoned })) := by
  unfold milestoneStep
  simp only [ensures_bind, ensures_contentOf_staged ha, ensures_liftM]
  intro stage hstage
  obtain ⟨rfl, -⟩ := advance_ok hstage
  rw [hends]
  simp only [ensures_bind, ensures_classOf, ensures_setContent]
  exact staged?_setContent rfl ha

theorem milestoneStep_takes (d : AssociationDecl) (ha : m.staged? d.header.path = some (.association a))
    (hends : a.ends.isSome = true) : d.milestoneStep.Ensures m fun _ m' => ∃ a' : AssociationContent,
      m'.staged? = update m.staged? d.header.path (some (.association a')) ∧
      a'.stage = .milestoned ∧ a'.receivers = a.receivers ∧ a'.signatures = a.signatures ∧
      ∀ q ∈ a'.qualified, q ∈ a.qualified ∨
        ∃ p c, m.staged? p = some (.classType c) ∧ q ∈ c.assocQualified ∧ q.owner = d.header.path := by
  obtain ⟨⟨first, second⟩, hends⟩ := Option.isSome_iff_exists.1 hends
  refine (d.milestoneStep_effect ha hends).mono fun _ m' hm' => ?_
  have hkept₁ := fromEnd_kept a d.header.path second ((m.class? first.path).getD {})
  have hkept₂ := fromEnd_kept (a.fromEnd d.header.path second ((m.class? first.path).getD {})) d.header.path first
    ((m.class? second.path).getD {})
  refine ⟨_, hm', rfl, hkept₂.2.1.trans hkept₁.2.1, hkept₂.2.2.trans hkept₁.2.2, fun q hq => ?_⟩
  rcases mem_fromEnd hq with hq | ⟨hq, howner⟩
  · rcases mem_fromEnd hq with hq | ⟨hq, howner⟩
    · exact .inl hq
    · obtain ⟨c, hc, hq⟩ := exists_staged_of_mem hq
      exact .inr ⟨_, c, hc, hq, howner⟩
  · obtain ⟨c, hc, hq⟩ := exists_staged_of_mem hq
    exact .inr ⟨_, c, hc, hq, howner⟩

variable (d : AssociationDecl)

/-- From `m`, where the association has the contents `a`, bodies were compiled, none with a number
in `U`. Each one is stored with the association and with the class that it is navigated from, and
nothing else has changed. -/
def Compiling (m : Model) (a : AssociationContent) (U : Nat → Prop) (n : Model) : Prop :=
  ∃ bs : List (TypeRef × Nat × List Expr),
    (∀ b ∈ bs, ¬ U b.2.1 ∧ a.receivers[b.2.1]? = some b.1) ∧
    n.staged? = update (m.remap fun p => ClassContent.refill d.header.path (bodiesAt bs p)) d.header.path
      (some (.association (a.refill d.header.path (bs.map (·.2)))))

variable {d}

theorem compiling_self (ha : m.staged? d.header.path = some (.association a)) : d.Compiling m a U m := by
  have hnil (p : String) : ClassContent.refill d.header.path (bodiesAt [] p) = id := by
    funext c
    exact congrArg (fun qs => { c with assocQualified := qs }) (map_id _)
  have hself : a.refill d.header.path [] = a := congrArg (fun qs => { a with qualified := qs }) (map_id _)
  refine ⟨[], forall_mem_nil _, ?_⟩
  simp only [hnil, map_nil, hself, ← ha]
  rw [eq_update_iff]
  exact ⟨rfl, fun p _ => congrFun m.remap_id.symm p⟩

theorem Compiling.staged (h : d.Compiling m a U n) : ∃ a' : AssociationContent,
    n.staged? d.header.path = some (.association a') ∧ a'.stage = a.stage ∧ a'.signatures = a.signatures := by
  obtain ⟨bs, -, hn⟩ := h
  exact ⟨a.refill d.header.path (bs.map (·.2)), by rw [hn, update_self], rfl, rfl⟩

theorem Compiling.noted (h : d.Compiling m a U n) (hn : n.Noted n') : d.Compiling m a U n' := by
  unfold Compiling
  rwa [hn.staged?]

theorem Compiling.mono (h : d.Compiling m a U n) (hv : ∀ k, V k → U k) : d.Compiling m a V n := by
  obtain ⟨bs, hbs, hn⟩ := h
  exact ⟨bs, fun b hb => ⟨fun hk => (hbs b hb).1 (hv _ hk), (hbs b hb).2⟩, hn⟩

variable (d)

/-- Stores the body of a derived property with the class that it is navigated from and with the
association. -/
def storeBody (this : TypeRef) (j : Nat) (body : List Expr) : Build Unit := do
  modify fun m => m.updateClass this.path fun content =>
    { content with assocQualified := ClassDecl.withBody content.assocQualified d.header.path j body }
  let a ← contentOf d.header.path
  setContent d.header.path { a with qualified := ClassDecl.withBody a.qualified d.header.path j body }

variable {d}

theorem storeBody_effect (h : d.Compiling m a U n) (hj : a.receivers[j]? = some this) (body : List Expr) :
    (d.storeBody this j body).Ensures n fun _ n' => d.Compiling m a (fun k => U k ∧ k ≠ j) n' := by
  obtain ⟨bs, hbs, hn⟩ := h
  unfold storeBody
  rw [ensures_bind, ensures_modify]
  -- A class that goes by the path of the association would be the association, and stay as it is.
  have hn₁ : (n.updateClass this.path fun content => { content with
        assocQualified := ClassDecl.withBody content.assocQualified d.header.path j body }).staged? =
      update (m.remap fun p => ClassContent.refill d.header.path (bodiesAt (bs ++ [(this, j, body)]) p))
        d.header.path (some (.association (a.refill d.header.path (bs.map (·.2))))) := by
    funext q
    rw [staged?_updateClass, hn]
    by_cases hq : q = d.header.path
    · rw [hq, update_self, update_self]
      split <;> rfl
    · rw [update_of_ne hq, update_of_ne hq, m.remap_remap, remap, remap]
      simp only [bodiesAt_concat]
      by_cases hthis : q = this.path
      · simp only [hthis, ClassContent.refill, withBody_fillAll]
        rfl
      · simp only [hthis, if_false, append_nil]
  have ha₁ := congrFun hn₁ d.header.path
  rw [update_self] at ha₁
  rw [ensures_bind, ensures_contentOf_staged ha₁, ensures_setContent]
  refine ⟨bs ++ [(this, j, body)], forall_mem_append.2 ⟨fun b hb => ⟨fun hk => (hbs b hb).1 hk.1, (hbs b hb).2⟩,
    forall_mem_singleton.2 ⟨fun hk => hk.2 rfl, hj⟩⟩, ?_⟩
  rw [staged?_setContent rfl ha₁, hn₁, update_idem, map_append]
  simp only [AssociationContent.refill, withBody_fillAll, map_singleton]

theorem compileQualified_effect (q : QualifiedDecl) (hj : a.receivers[j]? = some this) (h : d.Compiling m a U n) :
    (d.compileQualified q this j).Ensures n fun _ n' => d.Compiling m a (fun k => U k ∧ k ≠ j) n' := by
  obtain ⟨a', ha', -, -⟩ := h.staged
  unfold compileQualified
  rw [ensures_bind, ensures_contentOf_staged ha']
  split
  · exact ensures_pure.2 (h.mono fun _ hk => hk.1)
  · rw [ensures_bind]
    refine ((q.compileBody_made _ _ _ _).notes n).mono fun body n₁ h₁ => ?_
    exact storeBody_effect (h.noted h₁) hj body

theorem compileQualified_next {f : α → QualifiedDecl} {t : α → TypeRef} {y : α × Nat}
    (hy : a.receivers[y.2]? = some (t y.1)) (h : d.Compiling m a (fun k => k ∉ done.map (·.2)) n) :
    (d.compileQualified (f y.1) (t y.1) y.2).Ensures n fun _ n' =>
      d.Compiling m a (fun k => k ∉ (done ++ [y]).map (·.2)) n' := by
  refine (compileQualified_effect (f y.1) hy h).mono fun _ n' hn' => hn'.mono fun k hk => ?_
  rw [map_append, mem_append, not_or, map_singleton, mem_singleton] at hk
  exact hk

theorem compileQualifieds_effect (ha : m.staged? d.header.path = some (.association a)) :
    ((d.qualified.zip a.receivers).zipIdx.forM fun y => d.compileQualified y.1.1 y.1.2 y.2).Ensures m fun _ n =>
      d.Compiling m a (fun k => k ∉ (d.qualified.zip a.receivers).zipIdx.map Prod.snd) n := by
  refine ensures_forM_done (fun (done : List ((QualifiedDecl × TypeRef) × Nat)) n =>
      d.Compiling m a (fun k => k ∉ done.map Prod.snd) n) _ (compiling_self ha)
    fun pre y post hsplit n hn => compileQualified_next ?_ hn
  have hy : y ∈ (d.qualified.zip a.receivers).zipIdx := hsplit ▸ mem_append_right _ (.head _)
  exact (getElem?_zip_eq_some.1 (mem_zipIdx_iff_getElem?.1 hy)).2

/-- **Compiling an association.** The body of each derived property is stored with the association
and with the class that it is navigated from. -/
theorem compileStep_effect (ha : m.staged? d.header.path = some (.association a)) :
    d.compileStep.Ensures m fun _ m' => ∃ bs : List (TypeRef × Nat × List Expr),
      (∀ b ∈ bs, a.receivers[b.2.1]? = some b.1) ∧
      m'.staged? = update (m.remap fun p => ClassContent.refill d.header.path (bodiesAt bs p)) d.header.path
        (some (.association { a.refill d.header.path (bs.map (·.2)) with stage := .compiled })) := by
  unfold compileStep
  rw [ensures_bind, ensures_contentOf_staged ha, ensures_bind]
  refine (compileQualifieds_effect ha).mono ?_
  rintro _ n ⟨bs, hbs, hn⟩
  have ha' := congrFun hn d.header.path
  rw [update_self] at ha'
  rw [ensures_bind, ensures_contentOf_staged ha', ensures_bind, ensures_liftM]
  intro stage hstage
  obtain ⟨rfl, -⟩ := advance_ok hstage
  rw [ensures_setContent, staged?_setContent rfl ha', hn, update_idem]
  exact ⟨bs, fun b hb => (hbs b hb).2, rfl⟩

end AssociationDecl

/-! ### Functions -/

namespace FunctionDecl

theorem declare_effect (d : FunctionDecl) : d.declare.Ensures m fun _ m' =>
    m.staged? d.elementPath = none ∧ ∃ f : FunctionContent,
      m'.staged? = Function.update m.staged? d.elementPath (some (.function f)) ∧ f.stage = .structured := by
  refine d.declare_run.mono ?_
  rintro _ _ ⟨n, k, annotations, parameters, resultType, hn, helements, -, rfl⟩
  have hnew := (staged?_congr helements).trans (staged?_register hn)
  have hpath := congrFun hnew d.elementPath
  refine ⟨staged?_register_new hn, d.typed parameters resultType, ?_, rfl⟩
  rw [staged?_setElement (fun _ => by rfl) (fun _ => by rfl) rfl (hpath.trans (update_self ..)), hnew]
  exact update_idem ..

theorem ensures_contentOf_staged (d : FunctionDecl) {Q : FunctionContent → Model → Prop} :
    d.contentOf.Ensures m Q ↔ ∀ f, m.staged? d.elementPath = some (.function f) → Q f m := by
  rw [ensures_contentOf]
  constructor
  · intro h f hf
    obtain ⟨e, he, hf, -⟩ := staged?_eq_some.1 hf
    exact h e f he hf
  · exact fun h e f he hf => h f (staged?_eq_some.2 ⟨e, he, hf, rfl⟩)

theorem compileStep_effect (d : FunctionDecl) : d.compileStep.Ensures m fun _ m' => ∃ f f' : FunctionContent,
    m.staged? d.elementPath = some (.function f) ∧
    m'.staged? = update m.staged? d.elementPath (some (.function f')) ∧ f'.stage = .compiled ∧
    f'.body ≠ [] := by
  refine d.compileStep_run.mono ?_
  rintro _ _ ⟨e, f, n, body, pre, post, tests, he, hf, -, hn, hbody, -, rfl⟩
  have hstaged : m.staged? d.elementPath = some (.function f) := staged?_eq_some.2 ⟨e, he, hf, rfl⟩
  rw [staged?_setContent rfl (hn.staged? ▸ hstaged), hn.staged?]
  exact ⟨f, _, hstaged, rfl, rfl, hbody⟩

end FunctionDecl

end ModelGraph
