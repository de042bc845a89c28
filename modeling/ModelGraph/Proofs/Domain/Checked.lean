/-
# The domain is checked

Each step over the domain lets a model grow and keeps it checked. Declarations add elements without
expressions; milestoning adds derived properties with bodies that were compiled; bodies
are stored with the properties whose signature they were checked against.

Key theorems: `AssociationDecl.compileStep_advances`, `FunctionDecl.compileStep_advances`,
`MeasureDecl.compileStep_advances`.
-/
import ModelGraph.Proofs.Build.Compile

namespace ModelGraph

open Option Result MemberLists PropertyDecl Stage DatedProperty

open List hiding get

open Element (category? measure? parameters? superEdges Bare)

open Model Build

variable {c : Context} {i : Nat} {qs : List QualifiedProperty} {n : Model}

variable {m m' : Model} {σ : Signatures}

/-! ### Members without expressions -/

theorem PropertyDecl.build_expressions {p : PropertyDecl} {owner : String} {x : Property}
    (h : p.build c owner = .ok x) : x.expressions = [] := by
  obtain ⟨type, -, h⟩ := bind_eq_ok.1 h
  obtain ⟨annotations, -, h⟩ := bind_eq_ok.1 h
  cases h
  rfl

theorem PropertyDecl.build_sound {ds : List PropertyDecl} {owner : String} {ps : List Property}
    (h : Forall₂ (fun d p => build d c owner = .ok p) ds ps) :
    ∀ p ∈ ps, ∀ x ∈ p.expressions, m.Sound x := by
  induction h with
  | nil => exact forall_mem_nil _
  | cons hd _ ih =>
    refine forall_mem_cons.2 ⟨?_, ih⟩
    rw [build_expressions hd]
    exact forall_mem_nil _

theorem dateProperties_expressions {owner : TypeRef} {t : Temporal} {span : Span} :
    ∀ p ∈ dateProperties owner t span, p.expressions = [] := by
  unfold dateProperties
  split
  · exact forall_mem_nil _
  · refine forall_mem_append.2 ⟨fun p hp => ?_, forall_mem_singleton.2 rfl⟩
    obtain ⟨name, -, rfl⟩ := mem_map.1 hp
    rfl

theorem QualifiedDecl.signature_ok {q : QualifiedDecl} {owner : String} {this : TypeRef} {x : QualifiedProperty}
    (h : q.signature c owner this i = .ok x) : x.owner = owner ∧ x.ordinal = some i ∧ x.body = [] := by
  obtain ⟨parameters, -, h⟩ := bind_eq_ok.1 h
  obtain ⟨type, -, h⟩ := bind_eq_ok.1 h
  obtain ⟨annotations, -, h⟩ := bind_eq_ok.1 h
  cases h
  exact ⟨rfl, rfl, rfl⟩

/-- The types of derived properties by their place in a list. -/
def signaturesOf (qs : List QualifiedProperty) (i : Nat) : Option Typed :=
  qs[i]?.map fun q => (q.type, q.multiplicity)

theorem numbered_signatures {α : Type} (f : α → QualifiedDecl) (this : α → TypeRef) {owner : String} {as : List α}
    (h : Forall₂ (fun (a : α × Nat) q => (f a.1).signature c owner (this a.1) a.2 = .ok q) as.zipIdx qs) :
    ∀ q ∈ qs, q.owner = owner ∧ q.body = [] ∧ ∃ i < as.length, q.ordinal = some i ∧ qs[i]? = some q := by
  intro q hq
  obtain ⟨j, hj, rfl⟩ := mem_iff_getElem.1 hq
  have hj' : j < as.zipIdx.length := by rwa [h.length_eq]
  have hsig := (forall₂_iff_get.1 h).2 j hj' hj
  simp only [get_eq_getElem, getElem_zipIdx, Nat.zero_add] at hsig
  obtain ⟨howner, hordinal, hbody⟩ := QualifiedDecl.signature_ok hsig
  exact ⟨howner, hbody, j, by simpa using hj', hordinal, getElem?_eq_getElem hj⟩

theorem checked_signatures {α : Type} (f : α → QualifiedDecl) (this : α → TypeRef) {owner : String} {as : List α}
    (h : Forall₂ (fun (a : α × Nat) q => (f a.1).signature c owner (this a.1) a.2 = .ok q) as.zipIdx qs) :
    ∀ q ∈ qs, q.owner = owner ∧ q.Checked m (signaturesOf qs) := by
  intro q hq
  obtain ⟨howner, hbody, j, -, hordinal, hj⟩ := numbered_signatures f this h q hq
  refine ⟨howner, by simp [hbody], fun {i} hi => ?_, fun {i last} _ hl => by simp [hbody] at hl⟩
  rw [hordinal] at hi
  cases hi
  simp [signaturesOf, hj]

/-! ### Declarations -/

theorem ClassDecl.structureStep_advances (d : ClassDecl) (hm : m.Tidy) (hd : m.Has d.header.path .classType) :
    d.structureStep.Ensures m fun _ m' => Advances (among [.classType]) m m' := by
  obtain ⟨e, c, he, hc, hclass⟩ := hd.class?
  unfold structureStep
  simp only [ensures_bind, ensures_context, ensures_get, ensures_liftM]
  intro named hnamed
  refine ensures_mapM_liftM fun properties hproperties => ensures_mapM_liftM fun qualified hqualified =>
    ensures_mapM_liftM fun originals horiginals => ?_
  rw [ensures_classOf, hclass]
  intro stage hstage
  obtain ⟨rfl, hlt⟩ := advance_ok hstage
  rw [ensures_setClass]
  refine advances_setContent (grows_setClass _ hd hclass (Int.le_of_lt hlt)
    (.inr ⟨hm.bare he c hc (Int.lt_add_one_iff.1 hlt), Int.one_pos, fun s hs => ?_⟩)) fun h => ?_
  · split at hs
    · rw [mem_singleton.1 hs]
      exact .inl rfl
    · exact .inr (d.names_of_resolveSupers hm _ _ hnamed s hs)
  · refine { h.class? hclass with
      properties := forall_mem_append.2 ⟨build_sound hproperties, fun p hp => ?_⟩
      qualified := ⟨_, fun q hq => (checked_signatures id (fun _ => d.ref) hqualified q hq).2⟩
      originals := build_sound horiginals }
    rw [dateProperties_expressions p hp]
    exact forall_mem_nil _

/-! ### Milestoning -/

theorem QualifiedProperty.checked_of_generated {τ : Nat → Option Typed} {q : QualifiedProperty}
    (ho : q.ordinal = none) (hs : ∀ x ∈ q.body, m.Sound x) : q.Checked m τ :=
  ⟨hs, fun h => by simp [ho] at h, fun h => by simp [ho] at h⟩

/-- What it takes for lists of a class to be checked, where `D` is about its derived
properties. -/
structure MemberLists.Checking (lists : MemberLists) (σ : Signatures)
    (D : Model → List QualifiedProperty → Prop) : Prop where
  get : ∀ {m c}, c.Checked σ m →
    (∀ p ∈ (lists.get c).1, ∀ x ∈ p.expressions, m.Sound x) ∧ D m (lists.get c).2
  put : ∀ {m c ps qs}, c.Checked σ m → (∀ p ∈ ps, ∀ x ∈ p.expressions, m.Sound x) → D m qs →
    (lists.put (ps, qs) c).Checked σ m
  append : ∀ {m qs new}, D m qs → (∀ q ∈ new, q.ordinal = none ∧ ∀ x ∈ q.body, m.Sound x) →
    D m (qs ++ new)
  grows : ∀ {m m' qs}, D m qs → Grows (among [.classType]) m m' → m.Tidy → D m' qs

theorem MemberLists.own_checking (σ : Signatures) :
    MemberLists.own.Checking σ fun m qs => ∃ τ, ∀ q ∈ qs, q.Checked m τ where
  get hc := ⟨hc.properties, hc.qualified⟩
  put hc hps hqs := { hc with properties := hps, qualified := hqs }
  append hqs hnew := hqs.imp fun _ hτ => forall_mem_append.2
    ⟨hτ, fun q hq => QualifiedProperty.checked_of_generated (hnew q hq).1 (hnew q hq).2⟩
  grows hqs hg hm := hqs.imp fun _ hτ q hq => (hτ q hq).grows hg hm

theorem MemberLists.associated_checking (σ : Signatures) :
    associated.Checking σ fun m qs => ∀ q ∈ qs, q.Checked m (σ q.owner) where
  get hc := ⟨hc.assocProperties, hc.assocQualified⟩
  put hc hps hqs := { hc with assocProperties := hps, assocQualified := hqs }
  append hqs hnew := forall_mem_append.2
    ⟨hqs, fun q hq => QualifiedProperty.checked_of_generated (hnew q hq).1 (hnew q hq).2⟩
  grows hqs hg hm := fun q hq => (hqs q hq).grows hg hm

theorem DatedProperty.derived_of {owner : TypeRef} {source target : Temporal} {p : Property} :
    ∀ q ∈ (DatedProperty.of owner source target p).derived, q.ordinal = none ∧ q.body = [] := by
  intro q hq
  simp only [DatedProperty.of, mem_append, mem_singleton] at hq
  rcases hq with (rfl | hq) | hq
  · exact ⟨rfl, rfl⟩
  all_goals
    split at hq
    · rw [mem_singleton.1 hq]
      exact ⟨rfl, rfl⟩
    · cases hq

section

variable {owner : TypeRef} {ps : List Property}

theorem mem_datedProperties {d : DatedProperty} (h : d ∈ datedProperties m owner ps) :
    d.property ∈ ps ∧ d.edgePoint.expressions = [] ∧ ∀ q ∈ d.derived, q.ordinal = none ∧ q.body = [] := by
  obtain ⟨p, hp, rfl⟩ := mem_map.1 h
  exact ⟨mem_of_mem_filter (mem_of_mem_filter hp), rfl, derived_of⟩

theorem derived_silent (m : Model) (owner : TypeRef) (ps : List Property) :
    ∀ q ∈ (datedProperties m owner ps).flatMap (·.derived), q.ordinal = none ∧ q.body = [] := by
  intro q hq
  obtain ⟨d, hd, hq⟩ := mem_flatMap.1 hq
  exact (mem_datedProperties hd).2.2 q hq

theorem compileDerived_compiles :
    Compiles ((datedProperties m owner ps).mapM fun d => d.derived.mapM (d.compile owner)) n fun qss =>
      ∀ q ∈ qss.flatten, q.ordinal = none ∧ ∀ x ∈ q.body, n.Sound x := by
  refine Compiles.mono (P := fun qss : List (List QualifiedProperty) =>
      ∀ qs ∈ qss, ∀ q ∈ qs, q.ordinal = none ∧ ∀ x ∈ q.body, n.Sound x)
    (compiles_mapM fun d hd => compiles_mapM fun q hq => (d.compile_compiles owner q).mono fun q' hq' => ?_)
    fun qss h q hq => ?_
  · obtain ⟨e, rfl, he⟩ := hq'
    exact ⟨((mem_datedProperties hd).2.2 q hq).1, forall_mem_singleton.2 he⟩
  · obtain ⟨qs, hqs, hq⟩ := mem_flatten.1 hq
    exact h qs hqs q hq

theorem storedProperties_sound (owner : TypeRef) (h : ∀ p ∈ ps, ∀ x ∈ p.expressions, m.Sound x) :
    ∀ p ∈ storedProperties m owner ps, ∀ x ∈ p.expressions, m.Sound x := by
  refine forall_mem_append.2
    ⟨fun p hp => h p (mem_of_mem_filter (mem_of_mem_filter hp)), fun p hp => ?_⟩
  obtain ⟨d, hd, rfl⟩ := mem_map.1 hp
  rw [(mem_datedProperties hd).2.1]
  exact forall_mem_nil _

theorem addOriginals_sound {known : List Property}
    (hk : ∀ p ∈ known, ∀ x ∈ p.expressions, m.Sound x) (h : ∀ p ∈ ps, ∀ x ∈ p.expressions, m.Sound x) :
    ∀ p ∈ addOriginals known (datedProperties m owner ps), ∀ x ∈ p.expressions, m.Sound x := by
  refine forall_mem_append.2 ⟨hk, fun p hp => ?_⟩
  obtain ⟨d, hd, rfl⟩ := mem_map.1 (mem_of_mem_filter hp)
  exact h _ (mem_datedProperties hd).1

end

theorem replaceDated_advances {owner : TypeRef} {lists : MemberLists}
    {D : Signatures → Model → List QualifiedProperty → Prop} (hl : lists.Mild) (hk : ∀ σ, lists.Checking σ (D σ))
    (hd : m.Has owner.path .classType) :
    (replaceDated owner lists).Ensures m fun _ m' => Advances (among [.classType]) m m' := by
  obtain ⟨e, c, he, hc, hclass⟩ := hd.class?
  rw [replaceDated_eq]
  simp only [ensures_bind, ensures_get, ensures_classOf, hclass, ensures_ite,
    ensures_setClass, ensures_pure]
  refine ⟨fun _ => .refl m, fun _ => ?_⟩
  have hstage (l) (c : ClassContent) : c.stage.rank ≤ (lists.put l c).stage.rank :=
    Int.le_of_eq (congrArg rank (hl.stage _ _).symm)
  generalize hm₁ : m.setContent owner.path _ = m₁
  have hg₁ : Grows (among [.classType]) m m₁ := hm₁ ▸ grows_setClass _ hd hclass (hstage _ c)
    (.inl (hl.supers _ c))
  refine compileDerived_compiles.ensures.mono ?_
  rintro compiled m₂ ⟨h₂, hcompiled⟩
  have hg₂ : Grows (among [.classType]) m m₂ := hg₁.trans h₂.grows
  obtain ⟨e', c', he', hc', hclass'⟩ := (hg₂.has hd).class?
  rw [hclass']
  have hg₃ (l) := grows_setClass (lists.put l c') (hg₂.has hd) hclass' (hstage l c') (.inl (hl.supers l c'))
  refine ⟨hg₂.trans (hg₃ _), fun {σ} h => ?_⟩
  have hcc := h.class? hclass
  obtain ⟨hps, hqs⟩ := (hk σ).get hcc
  have hstored := storedProperties_sound owner hps
  -- First the derived properties without bodies,
  have hsilent := derived_silent m owner (lists.get c).1
  have hput := (hk σ).put hcc hstored ((hk σ).append hqs fun q hq =>
    ⟨(hsilent q hq).1, by rw [(hsilent q hq).2]; exact forall_mem_nil _⟩)
  have h₁ : m₁.Checked σ := by
    rw [← hm₁] at hg₁ ⊢
    exact h.setContent hg₁ { hput with originals := addOriginals_sound hcc.originals hps }
  -- then the same with the bodies that were compiled.
  have hc₂ := h₁.noted h₂
  refine hc₂.setContent (hg₃ _) ((hk σ).put (hc₂.class? hclass') ?_ ?_)
  · exact fun p hp x hx => hg₂.sound h.tidy (hstored p hp x hx)
  · refine (hk σ).append ((hk σ).grows hqs hg₂ h.tidy) fun q hq => ?_
    obtain ⟨ho, hs⟩ := hcompiled q hq
    exact ⟨ho, fun x hx => h₂.symm.sound (hs x hx)⟩

theorem milestoneClass_advances {owner : TypeRef} (hd : m.Has owner.path .classType) :
    (milestoneClass owner).Ensures m fun _ m' => Advances (among [.classType]) m m' := by
  unfold milestoneClass
  rw [ensures_bind]
  refine (replaceDated_advances own_mild own_checking hd).mono fun _ m₁ h₁ => ?_
  rw [ensures_bind]
  refine (replaceDated_advances associated_mild associated_checking (h₁.grows.has hd)).mono fun _ m₂ h₂ => ?_
  exact advances_advanceClass (h₁.trans h₂) hd (fun _ => rfl) (fun _ => rfl) fun _ hc => { hc with }

/-! ### Bodies -/

namespace ClassDecl

/-- A body goes to the derived properties of its owner and number, which all have the
type that it was checked against. -/
theorem checked_withBody {τ : Signatures} {owner : String} {t : Typed} {body : List Expr}
    (h : ∀ q ∈ qs, q.Checked m (τ q.owner)) (ht : τ owner i = some t) (hs : ∀ x ∈ body, m.Sound x)
    (hr : ∃ last, body.getLast? = some last ∧ m.Admits t last) :
    ∀ q ∈ withBody qs owner i body, q.Checked m (τ q.owner) := by
  intro q hq
  obtain ⟨x, hx, rfl⟩ := mem_map.1 hq
  have hxc := h x hx
  split
  · rename_i hmatch
    simp only [Bool.and_eq_true, decide_eq_true_eq] at hmatch
    refine ⟨hs, hxc.signature, fun {j last} _ hl => ?_⟩
    obtain ⟨last', hl', hadmits⟩ := hr
    have htype := hxc.signature hmatch.2
    rw [hmatch.1, ht] at htype
    cases hl.symm.trans hl'
    cases htype
    exact hadmits
  · exact hxc

theorem compileQualified_advances (d : ClassDecl) (q : QualifiedDecl) (i : Nat) (hd : m.Has d.header.path .classType) :
    (d.compileQualified q i).Ensures m fun _ m' => Advances (among [.classType]) m m' := by
  unfold compileQualified
  rw [ensures_bind, ensures_classOf]
  split
  · exact ensures_pure.2 (.refl m)
  · rename_i signature hfind
    rw [ensures_bind]
    refine (q.compileBody_compiles _ _ _).ensures.mono ?_
    rintro body m₁ ⟨h₁, hsound, last, hlast, hadmits⟩
    refine advances_rewriteClass h₁.advances hd (fun _ => Int.le_refl _) (fun _ => rfl) fun {c σ} hclass h hc => ?_
    have hclass₀ : m.class? d.header.path = some c := by
      rw [← hclass, class?, class?, element?, element?, h₁.declared?]
    obtain ⟨τ, hτ⟩ := hc.qualified
    rw [hclass₀] at hfind
    have hmem := mem_of_find?_eq_some hfind
    have hordinal : signature.ordinal = some i := by simpa using find?_some hfind
    exact { hc with qualified := ⟨τ, checked_withBody (τ := fun _ => τ) hτ ((hτ signature hmem).signature hordinal)
      (fun x hx => h₁.symm.sound (hsound x hx)) ⟨last, hlast, h₁.admits hadmits⟩⟩ }

theorem setDefault_sound {name : String} {value : Expr} (hv : m.Sound value) :
    ∀ {ps : List Property}, (∀ p ∈ ps, ∀ x ∈ p.expressions, m.Sound x) →
      ∀ p ∈ setDefault name value ps, ∀ x ∈ p.expressions, m.Sound x
  | [], h => h
  | p :: ps, h => by
    obtain ⟨hp, hps⟩ := forall_mem_cons.1 h
    unfold setDefault
    split
    · refine forall_mem_cons.2 ⟨?_, hps⟩
      simpa [Property.expressions] using hv
    · exact forall_mem_cons.2 ⟨hp, setDefault_sound hv hps⟩

theorem compileDefault_advances (d : ClassDecl) (p : PropertyDecl) (hd : m.Has d.header.path .classType) :
    (d.compileDefault p).Ensures m fun _ m' => Advances (among [.classType]) m m' := by
  unfold compileDefault
  rw [ensures_bind, ensures_classOf]
  split
  · exact ensures_pure.2 (.refl m)
  · rw [ensures_ite]
    refine ⟨fun _ => ?_, fun _ => ensures_pure.2 (.refl m)⟩
    rw [ensures_bind]
    refine (compiles_value soundScope_nil).ensures.mono ?_
    rintro value m₁ ⟨h₁, hvalue⟩
    exact advances_rewriteClass h₁.advances hd (fun _ => Int.le_refl _) (fun _ => rfl) fun _ _ hc =>
      { hc with properties := setDefault_sound (h₁.symm.sound hvalue) hc.properties }

theorem compileStep_advances (d : ClassDecl) (hd : m.Has d.header.path .classType) :
    d.compileStep.Ensures m fun _ m' => Advances (among [.classType]) m m' := by
  unfold compileStep
  rw [ensures_bind]
  refine (ensures_forM (I := Advances (among [.classType]) m) (.refl m) fun x _ n hn =>
    (d.compileQualified_advances x.1 x.2 (hn.grows.has hd)).mono fun _ _ h => hn.trans h).mono fun _ m₁ h₁ => ?_
  rw [ensures_bind]
  refine (ensures_forM h₁ fun p _ n hn =>
    (d.compileDefault_advances p (hn.grows.has hd)).mono fun _ _ h => hn.trans h).mono fun _ m₂ h₂ => ?_
  rw [ensures_bind, ensures_get, ensures_bind]
  refine Ensures.mono (Compiles.ensures (compiles_mapM fun c _ =>
    c.compile_compiles (thisScope_sound (.refl m₂) d.ref))) ?_
  rintro constraints m₃ ⟨h₃, hconstraints⟩
  refine advances_advanceClass (h₂.trans h₃.advances) hd (fun _ => rfl) (fun _ => rfl) fun hm hc => { hc with
    constraints := fun k hk => ?_ }
  exact (hconstraints k hk).grows (h₃.grows (K := among [])) (hm.noted h₃.symm).tidy

end ClassDecl

/-! ### Associations -/

namespace AssociationDecl

end AssociationDecl

theorem AssociationContent.fromEnd_checked {a : AssociationContent} (path : String) (source : TypeRef)
    {target : ClassContent} (ha : a.Checked σ m) (ht : target.Checked σ m) :
    (a.fromEnd path source target).Checked σ m := by
  unfold fromEnd
  split
  · exact ha
  · exact
      { properties := forall_mem_append.2
          ⟨fun p hp => ha.properties p (mem_of_mem_filter hp),
            fun p hp => ht.assocProperties p (mem_of_mem_filter hp)⟩
        originals := forall_mem_append.2
          ⟨fun p hp => ha.originals p (mem_of_mem_filter hp),
            fun p hp => ht.originals p (mem_of_mem_filter hp)⟩
        qualified := forall_mem_append.2
          ⟨fun q hq => ha.qualified q (mem_of_mem_filter hq),
            fun q hq => ht.assocQualified q (mem_of_mem_filter hq)⟩
        signatures := ha.signatures }

namespace AssociationDecl

theorem milestoneStep_advances (d : AssociationDecl) (hd : m.Has d.header.path .association) :
    d.milestoneStep.Ensures m fun _ m' => Advances (among [.association]) m m' := by
  obtain ⟨e, a, he, ha⟩ := hd.association
  unfold milestoneStep
  simp only [ensures_bind, ensures_contentOf he ha, ensures_liftM]
  intro stage hstage
  obtain ⟨rfl, hlt⟩ := advance_ok hstage
  split
  · exact ensures_pure.2 (.refl m)
  · rename_i first second _
    simp only [ensures_bind, ensures_classOf, ensures_setContent]
    refine advances_setContent (grows_setAssociation _ he ha (Int.le_of_lt hlt)) fun h => ?_
    have hfirst := AssociationContent.fromEnd_checked d.header.path second
      (h.association he ha) (h.classOf first.path)
    have hboth := AssociationContent.fromEnd_checked d.header.path first hfirst
      (h.classOf second.path)
    exact { hboth with }

theorem compileQualified_advances (d : AssociationDecl) (q : QualifiedDecl) (this : TypeRef) (i : Nat)
    (hd : m.Has d.header.path .association) :
    (d.compileQualified q this i).Ensures m fun _ m' => Advances (among [.classType, .association]) m m' := by
  obtain ⟨e, a, he, ha⟩ := hd.association
  unfold compileQualified
  rw [ensures_bind, ensures_contentOf he ha]
  split
  · exact ensures_pure.2 (.refl m)
  · rename_i signature hfind
    simp only [ensures_bind, ensures_modify]
    refine (q.compileBody_compiles _ _ _).ensures.mono ?_
    rintro body m₁ ⟨h₁, hsound, last, hlast, hadmits⟩
    have hg₂ : Grows (among [.classType, .association]) m (m₁.updateClass this.path fun content =>
        { content with
          assocQualified := ClassDecl.withBody content.assocQualified d.header.path i body }) := by
      refine Grows.trans h₁.grows ((grows_updateClass ?_ ?_).among_mono (by simp))
      all_goals exact fun _ => rfl
    obtain ⟨e₂, a₂, he₂, ha₂⟩ := (hg₂.has hd).association
    rw [ensures_contentOf he₂ ha₂, ensures_setContent]
    have hg₃ := grows_setAssociation { a₂ with qualified := ClassDecl.withBody a₂.qualified d.header.path i body }
      he₂ ha₂ (Int.le_refl _)
    refine ⟨hg₂.trans (hg₃.among_mono (by simp)), fun {σ} h => ?_⟩
    have hmem := mem_of_find?_eq_some hfind
    have hmatch := find?_some hfind
    simp only [Bool.and_eq_true, decide_eq_true_eq] at hmatch
    have htype := ((h.association he ha).signatures signature hmem).signature hmatch.2
    rw [hmatch.1] at htype
    have withBody {n : Model} (hg : Grows (among [.classType, .association]) m n)
        {qs : List QualifiedProperty} (hqs : ∀ q ∈ qs, q.Checked n (σ q.owner)) :
        ∀ q ∈ ClassDecl.withBody qs d.header.path i body, q.Checked n (σ q.owner) :=
      ClassDecl.checked_withBody hqs htype (fun x hx => hg.sound h.tidy (hsound x hx))
        ⟨last, hlast, hg.admits h.tidy hadmits⟩
    have hc₂ : Checked σ (m₁.updateClass this.path fun content =>
        { content with
          assocQualified := ClassDecl.withBody content.assocQualified d.header.path i body }) := by
      refine (h.noted h₁).updateClass ?_ ?_ fun c hc =>
        { hc with assocQualified := withBody h₁.grows hc.assocQualified }
      all_goals exact fun _ => rfl
    have haa := hc₂.association he₂ ha₂
    exact hc₂.setContent hg₃ { haa with qualified := withBody hg₂ haa.qualified }

theorem compileStep_advances (d : AssociationDecl) (hd : m.Has d.header.path .association) :
    d.compileStep.Ensures m fun _ m' => Advances (among [.classType, .association]) m m' := by
  obtain ⟨e, a, he, ha⟩ := hd.association
  unfold compileStep
  simp only [ensures_bind, ensures_contentOf he ha]
  refine (ensures_forM (I := Advances (among [.classType, .association]) m) (.refl m) fun x _ n hn =>
    (d.compileQualified_advances _ _ _ (hn.grows.has hd)).mono fun _ _ h => hn.trans h).mono fun _ m₁ h₁ => ?_
  obtain ⟨e₁, a₁, he₁, ha₁⟩ := (h₁.grows.has hd).association
  simp only [ensures_contentOf he₁ ha₁, ensures_liftM, ensures_setContent]
  intro stage hstage
  obtain ⟨rfl, hlt⟩ := advance_ok hstage
  exact h₁.trans (advances_setContent ((grows_setAssociation _ he₁ ha₁ (Int.le_of_lt hlt)).among_mono (by simp))
    fun h => { h.association he₁ ha₁ with })

end AssociationDecl

/-! ### Functions and units -/

/-- A function once it is compiled. -/
def FunctionContent.compiled (f : FunctionContent) (body : List Expr) (pre post : List Constraint)
    (tests : List FunctionTest) : FunctionContent :=
  { f with body, preConstraints := pre, postConstraints := post, tests, stage := .compiled }

namespace FunctionDecl

theorem compileStep_run (d : FunctionDecl) : d.compileStep.Ensures m fun _ m' => ∃ e f n body pre post tests,
    m.declared? d.elementPath = some e ∧ e.content = .function f ∧ f.stage.rank < Stage.compiled.rank ∧ m.Noted n ∧
    body ≠ [] ∧ (f.compiled body pre post tests).Checked m ∧
    m' = n.setContent d.elementPath (.function (f.compiled body pre post tests)) := by
  unfold compileStep
  rw [ensures_bind, ensures_contentOf]
  intro e f he hf
  simp only [ensures_ite, ensures_bind, ensures_fail, implies_true, true_and]
  intro _
  have hscope : m.SoundScope (parameterScope f.parameters []) := parameterScope_sound soundScope_nil _
  refine Ensures.mono (compiles_body hscope).ensures ?_
  rintro body m₁ ⟨h₁, hbody⟩
  split
  · rename_i last node hlast _
    simp only [ensures_bind]
    refine Ensures.mono (compiles_fits m₁ h₁) ?_
    rintro _ m₂ ⟨h₂, hfits⟩
    refine Ensures.mono (compiles_mapM (fun c _ => c.compile_compiles hscope) m₂ h₂) ?_
    rintro pre m₃ ⟨h₃, hpre⟩
    refine Ensures.mono (compiles_mapM (fun c _ => c.compile_compiles (hscope.cons soundDates_none)) m₃ h₃) ?_
    rintro post m₄ ⟨h₄, hpost⟩
    refine Ensures.mono (d.compileTests_compiles f m₄ h₄) ?_
    rintro tests m₅ ⟨h₅, htests⟩
    simp only [ensures_liftM, ensures_modify]
    intro stage hstage
    obtain ⟨rfl, hlt⟩ := advance_ok hstage
    have hne : body ≠ [] := by
      rintro rfl
      cases hlast
    refine ⟨e, f, m₅, body, pre, post, tests, he, hf, hlt, h₅, hne, ⟨hbody, fun hl => ?_, hpre, hpost, htests⟩, rfl⟩
    cases hlast.symm.trans hl
    exact hfits
  · simp only [ensures_bind, ensures_fail]

theorem compileStep_advances (d : FunctionDecl) :
    d.compileStep.Ensures m fun _ m' => Advances (among [.function]) m m' := by
  refine d.compileStep_run.mono ?_
  rintro _ _ ⟨e, f, n, body, pre, post, tests, he, hf, hlt, hn, -, hchecked, rfl⟩
  refine hn.advances.trans (advances_setContent (grows_setStill ((hn.declared? _).trans he)
    ⟨_, mem_cons_self, by simp [category?, hf]⟩ fun y hy => ?_) fun {σ} h => ?_)
  · simpa [category?, measure?, parameters?, superEdges, Element.rank, Bare, FunctionContent.compiled,
      hf, hy] using Int.le_of_lt hlt
  · exact ElementContent.Checked.grows (x := .function _) (σ := σ) hchecked (hn.grows (K := among []))
      (h.noted hn.symm).tidy

end FunctionDecl

namespace MeasureDecl

theorem compileUnit_advances (d : MeasureDecl) {u : UnitDecl}
    (hu : m.HasUnit (d.unitHeader u).path d.header.path) :
    (d.compileUnit u).Ensures m fun _ m' => Advances (among [.unit]) m m' := by
  unfold compileUnit
  split
  · exact ensures_pure.2 (.refl m)
  · simp only [ensures_bind, ensures_modify]
    refine Ensures.mono (Compiles.ensures (compiles_run soundScope_nil fun n hn =>
      lambda_keeps_sound hn _ _)) ?_
    rintro e m₁ ⟨h₁, he⟩
    obtain ⟨x, hx, hmx⟩ := hu
    unfold measure? at hmx
    split at hmx <;> cases hmx
    rename_i hc
    refine h₁.advances.trans (advances_setContent (grows_setStill ((h₁.declared? _).trans hx)
      ⟨_, mem_cons_self, by simp [category?, hc]⟩ fun y hy => ?_) fun _ x hx => ?_)
    · simp [category?, measure?, parameters?, superEdges, Element.rank, Bare, hc, hy]
    · exact h₁.symm.sound (Option.some.inj hx ▸ he)

theorem compileStep_advances (d : MeasureDecl)
    (hu : ∀ u ∈ d.units, m.HasUnit (d.unitHeader u).path d.header.path) :
    d.compileStep.Ensures m fun _ m' => Advances (among [.unit]) m m' := by
  have item : ∀ u ∈ d.units, ∀ n, Advances (among [.unit]) m n →
      (d.compileUnit u).Ensures n fun _ m' => Advances (among [.unit]) m m' := fun u hmem n hn =>
    (d.compileUnit_advances (hn.grows.hasUnit (hu u hmem))).mono fun _ _ h => hn.trans h
  unfold compileStep
  rw [ensures_bind]
  refine Ensures.mono (Q := fun _ m' => Advances (among [.unit]) m m') ?_ fun _ m₁ h₁ => ?_
  · rcases hc : d.canonical with _ | u
    · exact ensures_pure.2 (.refl m)
    · exact item u (by simp [units, hc]) m (.refl m)
  · exact ensures_forM h₁ fun u hmem n hn => item u (by simp [units, hmem]) n hn

end MeasureDecl

end ModelGraph
