/-
# Every step of a build lets the model grow

The steps of a build add elements, each with a path of its own, or fill in an element
that a step before has added. A later step relies on the category of what it fills in;
since no step changes the category of an element, it is what the declaration made it.

Key definitions: `among`, `outside`.
Key theorems: `FunctionDecl.declare_grows`, `MappingDecl.linkStep_grows`,
`RuntimeElementDecl.buildStep_grows`.
-/
import ModelGraph.Proofs.Domain.Made
import ModelGraph.Proofs.Mapping.Made

namespace ModelGraph

open Model Build List Element Option MemberLists

variable {c : Category} {cs ds : List Category} {content : ElementContent} {p : String} {e : Element}
  {a : AssociationContent}

def among (cs : List Category) (c : Option Category) : Prop := ∃ x ∈ cs, c = some x

def outside (cs : List Category) (c : Option Category) : Prop := ∀ x ∈ cs, c ≠ some x

def within (cs : List Category) (c : Option Category) : Prop := ∀ x, c = some x → x ∈ cs

theorem among_head : among (c :: cs) (some c) :=
  ⟨c, mem_cons_self, rfl⟩

variable {m m' : Model} {K : Option Category → Prop}

theorem Model.Grows.among_mono (h : Grows (among cs) m m') (hs : cs ⊆ ds) : Grows (among ds) m m' :=
  h.mono fun _ hk => hk.imp fun _ hx => ⟨hs hx.1, hx.2⟩

theorem Model.Grows.to_within (h : Grows (among cs) m m') : Grows (within cs) m m' := by
  refine h.mono ?_
  rintro _ ⟨c, hc, rfl⟩ x hx
  cases hx
  exact hc

theorem Model.Grows.within_mono (h : Grows (within cs) m m') (hs : cs ⊆ ds) : Grows (within ds) m m' :=
  h.mono fun _ hk x hx => hs (hk x hx)

theorem Model.Grows.of_within (h : Grows (within cs) m m') (hd : ∀ c ∈ cs, c ∉ ds) : Grows (outside ds) m m' :=
  h.mono fun _ hk x hx hc => hd x (hk x hc) hx

theorem Model.Grows.any (h : Grows K m m') : Grows (fun _ => True) m m' := h.mono fun _ _ => trivial

/-! ### Adding elements -/

section Register

variable {header : Header} {annotations : Annotations}
  (hk : ∀ e : Element, e.content = content → K e.category? ∧ e.Bare)
  (hs : ∀ e : Element, e.content = content → ∀ s ∈ e.superEdges, s.1 = Library.any)
include hk hs

theorem Model.registered (h : m.register header.package header.name header.span content annotations = .ok m') :
    Grows K m m' ∧ m.declared? header.path = none ∧
      ∃ e, m'.declared? header.path = some e ∧ e.content = content := by
  have hd : m.declared? header.path = none := register_new h
  refine ⟨grows_register h hk hs, hd, ?_⟩
  rw [declared?_append (register_ok h).2.1, hd]
  exact ⟨_, if_pos rfl, rfl⟩

theorem Build.register_grows : (Build.register header content annotations).Ensures m fun _ m' =>
    Grows K m m' ∧ m.declared? header.path = none ∧ ∃ e, m'.declared? header.path = some e ∧ e.content = content :=
  ensures_register.2 fun _ h => registered hk hs h

end Register

theorem SectionIndexDecl.declare_grows (d : SectionIndexDecl) :
    d.declare.Ensures m fun _ m' => Grows (· = none) m m' := by
  unfold declare
  rw [ensures_bind]
  refine (register_grows (K := (· = none)) ?_ ?_).mono fun _ m₁ h => ?_
  · rintro ⟨⟩ rfl
    exact ⟨rfl, by rintro _ ⟨⟩⟩
  · rintro ⟨⟩ rfl
    exact forall_mem_nil _
  · rw [ensures_modify]
    exact h.1.trans (grows_of_elements rfl rfl)

theorem ProfileDecl.declare_grows (d : ProfileDecl) :
    d.declare.Ensures m fun _ m' => Grows (among [.profile]) m m' := by
  refine (register_grows ?_ ?_).mono fun _ _ h => h.1
  · rintro ⟨⟩ rfl
    exact ⟨among_head, by rintro _ ⟨⟩⟩
  · rintro ⟨⟩ rfl
    exact forall_mem_nil _

theorem EnumerationDecl.declare_grows (d : EnumerationDecl) :
    d.declare.Ensures m fun _ m' => Grows (among [.enumeration]) m m' := by
  unfold declare
  simp only [ensures_bind]
  refine (register_grows (K := among [.enumeration]) ?_ ?_).mono ?_
  · rintro ⟨⟩ rfl
    exact ⟨among_head, by rintro _ ⟨⟩⟩
  · rintro ⟨⟩ rfl s hs
    rw [mem_singleton.1 hs]
  · rintro _ m₁ ⟨h, hn, e, he, hc⟩
    rw [ensures_context, ensures_liftM]
    intro annotations _
    refine Ensures.mono ((made_mapM fun v _ => (made_liftM (Context.annotations_told _ _)).bind
      fun _ => .pure _).notes m₁) fun values m₂ h₂ => ?_
    rw [ensures_modify]
    refine (h.trans h₂.grows).update_fresh hn (fun _ => rfl) (fun e _ => ⟨among_head, by rintro _ ⟨⟩⟩)
      (fun e _ s hs => by rw [mem_singleton.1 hs]) fun x hx => ?_
    rw [h₂.declared?, he] at hx
    cases hx
    simp [typeRef?, typeKind?, hc]

theorem Model.has_update {f : Element → Element} (hf : ∀ e, (f e).path = e.path) (he : m.declared? p = some e)
    (hc : (f e).category? = some c) : (m.update p f).Has p c :=
  ⟨f e, by rw [declared?_update hf, if_pos rfl, he]; rfl, hc⟩

/-! ### Classes -/

namespace ClassDecl

theorem declare_grows (d : ClassDecl) :
    d.declare.Ensures m fun _ m' => Grows (among [.classType]) m m' ∧ m'.Has d.header.path .classType := by
  unfold declare
  simp only [ensures_bind]
  refine (register_grows (K := among [.classType]) ?_ ?_).mono ?_
  · rintro ⟨⟩ rfl
    refine ⟨among_head, fun c hc _ => ?_⟩
    cases hc
    rfl
  · rintro ⟨⟩ rfl
    exact forall_mem_nil _
  · rintro _ m₁ ⟨h, hn, e, he, hc⟩
    rw [ensures_context, ensures_liftM]
    intro annotations _
    rw [ensures_modify]
    have hcat : e.category? = some .classType := by unfold category?; rw [hc]
    have hpath : ∀ e : Element, ({ e with annotations } : Element).path = e.path := fun _ => rfl
    refine ⟨h.update_fresh hn hpath (fun x hx => ?_) (fun x hx s hs => ?_) fun _ _ => rfl,
      has_update hpath he hcat⟩
    · rw [he] at hx
      cases hx
      refine ⟨?_, (h.fresh hn he).2.2⟩
      show among _ e.category?
      rw [hcat]
      exact among_head
    · rw [he] at hx
      cases hx
      simp [superEdges, hc] at hs

end ClassDecl

theorem Model.Has.class? (h : m.Has p .classType) :
    ∃ e c, m.declared? p = some e ∧ e.content = .classType c ∧ m.class? p = some c := by
  obtain ⟨e, he, hc⟩ := h
  unfold category? at hc
  split at hc <;> cases hc
  rename_i c hc
  exact ⟨e, c, he, hc, by rw [Model.class?, element?, he]; simp [Element.class?, hc]⟩

/-- Other contents for a class: its stage stays or moves on, and its supertypes stay
unless it is only now that it gets some. -/
theorem grows_setClass {c : ClassContent} (c' : ClassContent) (h : m.Has p .classType) (hc : m.class? p = some c)
    (hr : c.stage.rank ≤ c'.stage.rank) (hs : c'.supers = c.supers ∨
      c.supers = [] ∧ Stage.declared.rank < c'.stage.rank ∧ ∀ s ∈ c'.supers,
        s.1 = Library.any ∨ s.1.kind = .classType ∧ m.Names s.1) :
    Grows (among [.classType]) m (m.setContent p (.classType c')) := by
  obtain ⟨e, x, he, hx, hcx⟩ := h.class?
  rw [hc] at hcx
  cases hcx
  refine grows_update (fun _ => rfl) (fun e' he' => ?_) fun e' he' => ?_
  all_goals
    rw [he] at he'
    cases he'
  · refine ⟨⟨rfl, rfl, rfl, ?_, ?_, ?_, ?_, ?_, ?_⟩, .inr ?_⟩
    · simp [category?, hx]
    · simp [measure?, hx]
    · simp [parameters?, hx]
    · simp only [superEdges, hx]
      exact hs.elim .inr fun hs => .inl hs.1
    · simpa [rank, hx] using hr
    · intro hbare y hy hrank
      cases hy
      rcases hs with hs | hs
      · rw [hs]
        exact hbare c hx (Int.le_trans hr hrank)
      · exact absurd hrank (Int.not_le.2 hs.2.1)
    · exact ⟨_, mem_cons_self, by simp [category?, hx]⟩
  · simp only [superEdges, hx]
    refine hs.imp_right fun hs s hmem => (hs.2.2 s hmem).imp_right fun hs => ⟨rfl, hs.1, names_update ?_ (fun y hy => ?_) hs.2⟩
    · exact fun _ => rfl
    · rw [he] at hy
      cases hy
      simp [typeRef?, typeKind?, hx]

theorem Stage.advance_ok {s t next : Stage} (h : s.advance next = .ok t) : t = next ∧ s.rank < next.rank := by
  unfold advance at h
  split at h
  · cases h
  · cases h
    exact ⟨rfl, by omega⟩

namespace ClassDecl

theorem names_of_resolveSupers (d : ClassDecl) (hm : m.Tidy) :
    ∀ (ps : List Pointer) (seen : List String) {named : List (TypeRef × Span)},
      d.resolveSupers (Context.of m d.header.path) ps seen = .ok named →
        ∀ s ∈ named, s.1.kind = .classType ∧ m.Names s.1
  | [], _, named, h => by
    cases h
    exact forall_mem_nil _
  | p :: ps, seen, named, h => by
    obtain ⟨t, ht, h⟩ := Result.bind_eq_ok.1 h
    split at h
    · cases h
    split at h
    · cases h
    rename_i hkind
    obtain ⟨rest, hrest, h⟩ := Result.bind_eq_ok.1 h
    have ih := names_of_resolveSupers d hm ps _ hrest
    simp only [pure, Except.pure, Except.ok.injEq] at h
    split at h <;> subst h
    · exact ih
    · exact forall_mem_cons.2 ⟨⟨by simpa using hkind, hm.names_resolveType ht⟩, ih⟩

end ClassDecl

/-! ### Milestoning -/

/-- The lists of a class that milestoning works on are members only. -/
structure MemberLists.Mild (lists : MemberLists) : Prop where
  stage : ∀ l c, (lists.put l c).stage = c.stage
  supers : ∀ l c, (lists.put l c).supers = c.supers

theorem MemberLists.own_mild : MemberLists.own.Mild := ⟨fun _ _ => rfl, fun _ _ => rfl⟩

theorem MemberLists.associated_mild : associated.Mild := ⟨fun _ _ => rfl, fun _ _ => rfl⟩

/-! ### Associations -/

theorem grows_updateClass {f : ClassContent → ClassContent} (hs : ∀ c, (f c).stage = c.stage)
    (hsup : ∀ c, (f c).supers = c.supers) : Grows (among [.classType]) m (m.updateClass p f) := by
  refine grows_update (fun e => ?_) (fun e _ => ?_) fun e _ => ?_
  · split <;> rfl
  · split
    · rename_i c hc
      refine ⟨⟨rfl, rfl, rfl, ?_, ?_, ?_, ?_, ?_, ?_⟩, .inr ?_⟩
      · simp [category?, hc]
      · simp [measure?, hc]
      · simp [parameters?, hc]
      · simp [superEdges, hc, hsup]
      · simp [rank, hc, hs]
      · intro hbare x hx hrank
        cases hx
        rw [hs] at hrank
        rw [hsup]
        exact hbare c hc hrank
      · exact ⟨_, mem_cons_self, by simp [category?, hc]⟩
    · exact ⟨.refl e, .inl rfl⟩
  · split
    · rename_i c hc
      simp [superEdges, hc, hsup]
    · exact .inl rfl

theorem Model.Has.association (h : m.Has p .association) :
    ∃ e a, m.declared? p = some e ∧ e.content = .association a := by
  obtain ⟨e, he, hc⟩ := h
  unfold category? at hc
  split at hc <;> cases hc
  rename_i a ha
  exact ⟨e, a, he, ha⟩

theorem grows_setStill (he : m.declared? p = some e)
    (hk : K e.category?) (h : ∀ y : Element, y.content = content → y.category? = e.category? ∧
      y.measure? = e.measure? ∧ y.parameters? = e.parameters? ∧ y.superEdges = e.superEdges ∧ e.rank ≤ y.rank ∧
      y.Bare) : Grows K m (m.setContent p content) := by
  obtain ⟨hcategory, hmeasure, hparameters, hsupers, hrank, hbare⟩ := h { e with content } rfl
  exact grows_setContent he
    ⟨rfl, rfl, rfl, hcategory, hmeasure, hparameters, .inr hsupers, hrank, fun _ => hbare⟩ hk hsupers

theorem grows_setAssociation (a' : AssociationContent)
    (he : m.declared? p = some e) (ha : e.content = .association a) (hr : a.stage.rank ≤ a'.stage.rank) :
    Grows (among [.association]) m (m.setContent p (.association a')) := by
  refine grows_setStill he ⟨_, mem_cons_self, by simp [category?, ha]⟩ fun y hy => ?_
  simpa [category?, measure?, parameters?, superEdges, rank, Bare,
    ha, hy] using hr

namespace AssociationDecl

theorem ensures_contentOf {Q : AssociationContent → Model → Prop} (he : m.declared? p = some e)
    (ha : e.content = .association a) : (contentOf p).Ensures m Q ↔ Q a m := by
  have h : contentOf p m = .ok (a, m) := by
    obtain ⟨name, path, span, annotations, content⟩ := e
    cases ha
    unfold contentOf
    rw [he]
  unfold Ensures
  rw [h]
  exact ⟨fun hq => hq a m rfl, by rintro hq _ _ ⟨⟩; exact hq⟩

@[simp] theorem ensures_setContent {Q : Unit → Model → Prop} :
    (setContent p a).Ensures m Q ↔ Q () (m.setContent p (.association a)) := ensures_modify

theorem declare_grows (d : AssociationDecl) :
    d.declare.Ensures m fun _ m' =>
      Grows (among [.classType, .association]) m m' ∧ m'.Has d.header.path .association := by
  unfold declare
  simp only [ensures_bind]
  refine (register_grows (K := among [.classType, .association]) ?_ ?_).mono ?_
  · rintro ⟨⟩ rfl
    exact ⟨⟨_, mem_cons_of_mem _ (.head _), rfl⟩, by rintro _ ⟨⟩⟩
  · rintro ⟨⟩ rfl
    exact forall_mem_nil _
  rintro _ m₁ ⟨h₁, hn, e, he, hc⟩
  have hclass : ∀ {n : Model} {p : String} {f : ClassContent → ClassContent},
      (∀ c, (f c).stage = c.stage) → (∀ c, (f c).supers = c.supers) →
      Grows (among [.classType, .association]) n (n.updateClass p f) := fun hs hsup =>
    (grows_updateClass hs hsup).among_mono (by simp)
  rw [ensures_context, ensures_liftM]
  intro ends _
  refine ensures_mapM_liftM fun properties _ => ensures_mapM_liftM fun qualified _ =>
    ensures_mapM_liftM fun originals _ => ?_
  simp only [ensures_liftM, ensures_modify]
  intro annotations _ stage _
  refine (ensures_forM (I := fun m' => Grows (among [.classType, .association]) m₁ m') ?_
    fun x _ n hn => ?_).mono fun _ m₂ h₂ => ?_
  · refine Grows.trans (hclass ?_ ?_) (hclass ?_ ?_) <;> exact fun _ => rfl
  · rw [ensures_modify]
    exact hn.trans (hclass (fun _ => rfl) fun _ => rfl)
  · obtain ⟨e₂, he₂, hg, -⟩ := h₂.kept he
    refine ⟨(h₁.trans h₂).update_fresh hn (fun _ => rfl) (fun x _ =>
      ⟨⟨_, mem_cons_of_mem _ (.head _), rfl⟩, by rintro _ ⟨⟩⟩) (fun _ _ => forall_mem_nil _) fun x hx => ?_, ?_⟩
    · rw [he₂] at hx
      cases hx
      rw [hg.typeRef?]
      simp [typeRef?, typeKind?, hc]
    · exact has_update (fun _ => rfl) he₂ rfl

end AssociationDecl

/-! ### Functions and measures -/

namespace FunctionDecl

def blank (d : FunctionDecl) : FunctionContent :=
  { package := d.header.package, functionName := d.signature.plainName d.header.name
    resultType := .ofRef Library.any, result := .ofBounds d.bounds }

def typed (d : FunctionDecl) (parameters : List Param) (resultType : GenericType) : FunctionContent :=
  { d.blank with stage := .structured, parameters, resultType }

theorem declare_run (d : FunctionDecl) : d.declare.Ensures m fun _ m' => ∃ (n k : Model) (annotations : Annotations)
    (parameters : List Param) (resultType : GenericType),
    m.register d.elementHeader.package d.elementHeader.name d.elementHeader.span (.function d.blank) = .ok n ∧
    k.elements = n.elements ∧ k.options = n.options ∧
    m' = k.update d.elementPath fun e => { e with annotations, content := .function (d.typed parameters resultType) } := by
  unfold declare
  simp only [ensures_bind, ensures_context]
  refine ensures_register.2 fun n hn => ?_
  rw [ensures_ite]
  -- Whether imports are noted or not, the rest is the same.
  refine ⟨fun _ => ?_, fun _ => ?_⟩
  all_goals
    simp only [ensures_bind, ensures_modify]
    refine ensures_mapM_liftM fun parameters _ => ?_
    simp only [ensures_liftM]
    intro resultType _ annotations _ stage hstage
    obtain ⟨rfl, -⟩ := Stage.advance_ok hstage
    refine ⟨n, _, annotations, parameters, resultType, hn, ?_, ?_, rfl⟩ <;> rfl

theorem declare_grows (d : FunctionDecl) :
    d.declare.Ensures m fun _ m' => Grows (among [.function]) m m' ∧ m'.Has d.elementPath .function := by
  refine d.declare_run.mono ?_
  rintro _ _ ⟨n, k, annotations, parameters, resultType, hn, helements, hoptions, rfl⟩
  obtain ⟨hg, hnew, e, he, hc⟩ := registered (K := among [.function])
    (by rintro ⟨⟩ rfl; exact ⟨among_head, by rintro _ ⟨⟩⟩) (by rintro ⟨⟩ rfl; exact forall_mem_nil _) hn
  have hk : k.declared? d.elementPath = some e := (declared?_congr helements _).trans he
  refine ⟨(hg.trans (grows_of_elements helements hoptions)).update_fresh hnew (fun _ => rfl)
    (fun _ _ => ⟨among_head, by rintro _ ⟨⟩⟩) (fun _ _ => forall_mem_nil _) fun x hx => ?_,
    has_update (fun _ => rfl) hk rfl⟩
  cases hk.symm.trans hx
  simp [typeRef?, typeKind?, hc]

theorem ensures_contentOf (d : FunctionDecl) {Q : FunctionContent → Model → Prop} :
    d.contentOf.Ensures m Q ↔
      ∀ e f, m.declared? d.elementPath = some e → e.content = .function f → Q f m := by
  unfold Ensures contentOf
  rcases hd : m.declared? d.elementPath with _ | ⟨name, path, span, annotations, content⟩
  · simp [failAt]
  · cases content with
    | function f =>
      constructor
      · rintro h _ _ ⟨⟩ ⟨⟩
        exact h f m rfl
      · rintro h _ _ ⟨⟩
        exact h _ _ rfl rfl
    | _ =>
      constructor
      · rintro _ _ _ ⟨⟩ ⟨⟩
      · rintro _ _ _ ⟨⟩

end FunctionDecl

def Model.HasUnit (m : Model) (p measure : String) : Prop :=
  ∃ e, m.declared? p = some e ∧ e.measure? = some measure

theorem Model.Grows.hasUnit {measure : String} (h : Grows K m m') (hu : m.HasUnit p measure) :
    m'.HasUnit p measure := by
  obtain ⟨e, he, hm⟩ := hu
  obtain ⟨e', he', hg, -⟩ := h.kept he
  exact ⟨e', he', hg.measure.trans hm⟩

namespace MeasureDecl

theorem declareUnit_grows (d : MeasureDecl) (u : UnitDecl) :
    (d.declareUnit u).Ensures m fun _ m' =>
      Grows (among [.measure, .unit]) m m' ∧ m'.HasUnit (d.unitHeader u).path d.header.path := by
  unfold declareUnit
  simp only [ensures_bind, ensures_modify, ensures_pure]
  refine (register_grows (K := among [.measure, .unit]) ?_ ?_).mono ?_
  · rintro ⟨⟩ rfl
    exact ⟨⟨_, mem_cons_of_mem _ (.head _), rfl⟩, by rintro _ ⟨⟩⟩
  · rintro ⟨⟩ rfl
    exact forall_mem_nil _
  · rintro _ m₁ ⟨h₁, _, e, he, hc⟩
    exact ⟨h₁.trans (grows_of_elements rfl rfl), e, he, by simp [measure?, hc]⟩

def units (d : MeasureDecl) : List UnitDecl := d.canonical.toList ++ d.nonCanonical

theorem declareUnits_grows (d : MeasureDecl) (us : List UnitDecl) :
    (us.mapM d.declareUnit).Ensures m fun _ m' => Grows (among [.measure, .unit]) m m' ∧
      ∀ u ∈ us, m'.HasUnit (d.unitHeader u).path d.header.path := by
  refine ensures_mapM_done (fun us _ m' => Grows (among [.measure, .unit]) m m' ∧
    ∀ u ∈ us, m'.HasUnit (d.unitHeader u).path d.header.path) us ⟨.refl m, by simp⟩ ?_
  rintro pre u post _ bs n ⟨hn, hu⟩
  exact (d.declareUnit_grows u).mono fun _ n' hn' => ⟨hn.trans hn'.1, forall_mem_append.2
    ⟨fun v hv => hn'.1.hasUnit (hu v hv), forall_mem_singleton.2 hn'.2⟩⟩

theorem hasUnit_setMeasure {q : String} (he : m.declared? q = some e) (hm : e.measure? = none) (h : m.HasUnit p q) :
    (m.setContent q content).HasUnit p q := by
  obtain ⟨x, hx, hmx⟩ := h
  have hne : p ≠ q := by
    rintro rfl
    cases hx.symm.trans he
    cases hm.symm.trans hmx
  exact ⟨x, by rw [declared?_setContent, if_neg hne, hx], hmx⟩

theorem declare_grows (d : MeasureDecl) :
    d.declare.Ensures m fun _ m' => Grows (among [.measure, .unit]) m m' ∧
      ∀ u ∈ d.units, m'.HasUnit (d.unitHeader u).path d.header.path := by
  unfold declare
  simp only [ensures_bind]
  refine (register_grows (K := among [.measure, .unit]) ?_ ?_).mono ?_
  · rintro ⟨⟩ rfl
    exact ⟨among_head, by rintro _ ⟨⟩⟩
  · rintro ⟨⟩ rfl s hs
    rw [mem_singleton.1 hs]
  rintro _ m₁ ⟨h₁, hn, e, he, hc⟩
  refine Ensures.mono (Q := fun _ m' => Grows (among [.measure, .unit]) m₁ m' ∧
    ∀ u ∈ d.canonical.toList, m'.HasUnit (d.unitHeader u).path d.header.path) ?_ ?_
  · refine ensures_optionMapM (fun h => ⟨.refl m₁, by simp [h]⟩) fun u h => ?_
    exact (d.declareUnit_grows u).mono fun _ m₂ h₂ => ⟨h₂.1, by simpa [h] using h₂.2⟩
  rintro canonical m₂ ⟨h₂, hu₂⟩
  refine (d.declareUnits_grows d.nonCanonical).mono ?_
  rintro nonCanonical m₃ ⟨h₃, hu₃⟩
  rw [ensures_modify]
  obtain ⟨y, hy, hyg, -⟩ := (h₂.trans h₃).kept he
  have hmeasure : y.measure? = none := by
    rw [hyg.measure]
    simp [measure?, hc]
  refine ⟨(h₁.trans (h₂.trans h₃)).update_fresh hn (fun _ => rfl) (fun e _ => ⟨among_head, by rintro _ ⟨⟩⟩)
    (fun e _ s hs => by rw [mem_singleton.1 hs]) fun x hx => ?_, ?_⟩
  · cases hy.symm.trans hx
    rw [hyg.typeRef?]
    simp [typeRef?, typeKind?, hc, hyg.path, hyg.name]
  · refine forall_mem_append.2 ⟨fun u hu => ?_, fun u hu => ?_⟩
    · exact hasUnit_setMeasure hy hmeasure (h₃.hasUnit (hu₂ u hu))
    · exact hasUnit_setMeasure hy hmeasure (hu₃ u hu)

end MeasureDecl

/-! ### Extensions, mappings, connections and runtimes -/

theorem grows_setOther (hp : m.Has p c) (hc : ∀ e : Element, e.content = content → e.category? = some c)
    (ht : c ∈ [.store, .connection, .runtime, .mapping]) : Grows (among [c]) m (m.setContent p content) := by
  obtain ⟨e, he, hec⟩ := hp
  have plain : ∀ y : Element, y.category? = some c → y.measure? = none ∧ y.parameters? = none ∧
      y.superEdges = [] ∧ y.rank = 0 ∧ y.Bare := by
    intro y hy
    obtain ⟨_, _, _, _, content⟩ := y
    cases content <;> cases hy <;>
      simp_all [measure?, parameters?, superEdges, rank, Bare]
  obtain ⟨a₁, a₂, a₃, a₄, -⟩ := plain e hec
  refine grows_setStill he ⟨c, mem_cons_self, hec⟩ fun y hy => ?_
  obtain ⟨b₁, b₂, b₃, b₄, b₅⟩ := plain y (hc y hy)
  exact ⟨(hc y hy).trans hec.symm, b₁.trans a₁.symm, b₂.trans a₂.symm, b₃.trans a₃.symm,
    Int.le_of_eq (a₄.trans b₄.symm), b₅⟩

theorem grows_updateMapping {f : Mapping → Mapping} : Grows (among [.mapping]) m (m.updateMapping p f) := by
  refine grows_update (fun e => ?_) (fun e _ => ?_) fun e _ => ?_
  · split <;> rfl
  · split
    · rename_i x hx
      refine ⟨⟨rfl, rfl, rfl, ?_, ?_, ?_, ?_, ?_, fun _ => by rintro _ ⟨⟩⟩, .inr ?_⟩
      · simp [category?, hx]
      · simp [measure?, hx]
      · simp [parameters?, hx]
      · simp [superEdges, hx]
      · simp [rank, hx]
      · exact ⟨_, mem_cons_self, by simp [category?, hx]⟩
    · exact ⟨.refl e, .inl rfl⟩
  · split
    · rename_i x hx
      simp [superEdges]
    · exact .inl rfl

theorem declares {header : Header}
    (hc : ∀ e : Element, e.content = content → e.category? = some c ∧ e.Bare ∧ e.superEdges = []) :
    (Build.register header content).Ensures m fun _ m' => Grows (among [c]) m m' ∧ m'.Has header.path c := by
  refine (register_grows (K := among [c]) (fun e he => ?_) fun e he s hs => ?_).mono ?_
  · rw [(hc e he).1]
    exact ⟨among_head, (hc e he).2.1⟩
  · rw [(hc e he).2.2] at hs
    cases hs
  · rintro _ m₁ ⟨h, _, e, he, hcon⟩
    exact ⟨h, e, he, (hc e hcon).1⟩

namespace ExtensionDecl

theorem ensures_isKnown (d : ExtensionDecl) {Q : Bool → Model → Prop} :
    d.isKnown.Ensures m Q ↔
      Q (d.tag = Relational.elementTag && m.options.extensions.contains .relational) m := by
  constructor
  · exact fun h => h _ _ rfl
  · rintro h _ _ ⟨⟩; exact h

theorem declare_grows (d : ExtensionDecl) :
    d.declare.Ensures m fun _ m' => Grows (among [.store]) m m' ∧ m'.Has d.header.path .store := by
  unfold declare
  rw [ensures_bind, ensures_isKnown, ensures_ite]
  refine ⟨fun _ => declares fun e he => ?_, fun _ => ensures_throw.2 trivial⟩
  exact ⟨by simp [category?, he], fun c hc => by simp [he] at hc, by simp [superEdges, he]⟩

theorem buildStep_grows (d : ExtensionDecl) (hd : m.Has d.header.path .store) :
    d.buildStep.Ensures m fun _ m' => Grows (among [.store]) m m' := by
  unfold buildStep
  rw [ensures_bind, ensures_isKnown, ensures_ite]
  refine ⟨fun _ => ?_, fun _ => ensures_throw.2 trivial⟩
  unfold Relational.build
  simp only [ensures_bind, ensures_context]
  split
  · exact ensures_fail.2 trivial
  · simp only [ensures_bind, ensures_liftM, ensures_modify]
    intro includes _ schemas _
    exact grows_setOther hd (fun e he => by simp [category?, he]) (by simp)

end ExtensionDecl

namespace MappingDecl

theorem declare_grows (d : MappingDecl) :
    d.declare.Ensures m fun _ m' => Grows (among [.mapping]) m m' ∧ m'.Has d.header.path .mapping :=
  declares fun e he => by simp [category?, Bare, superEdges, he]

theorem structureStep_grows (d : MappingDecl) :
    d.structureStep.Ensures m fun _ m' => Grows (among [.mapping]) m m' := by
  unfold structureStep
  simp only [ensures_bind, ensures_context, ensures_liftM, ensures_modify]
  exact fun _ _ _ _ => grows_updateMapping

theorem setsStep_grows (d : MappingDecl) :
    d.setsStep.Ensures m fun _ m' => Grows (among [.mapping]) m m' := by
  unfold setsStep
  simp only [ensures_bind, ensures_modify]
  exact ((made_mapM fun s _ => s.build_made _ _).notes m).mono fun _ _ h => h.grows.trans grows_updateMapping

theorem linkStep_grows (d : MappingDecl) :
    d.linkStep.Ensures m fun _ m' => Grows (among [.mapping]) m m' := by
  unfold linkStep
  simp only [ensures_bind, ensures_get, ensures_liftM, ensures_modify]
  intro sets _
  refine Ensures.mono ((made_mapM fun a _ => a.build_made _).notes _) fun assocMappings m₁ h₁ => ?_
  refine Ensures.mono ((made_mapM fun t _ => t.build_made _).notes _) fun tests m₂ h₂ => ?_
  intro _ _
  exact grows_updateMapping.trans (h₁.grows.trans (grows_updateMapping.trans (h₂.grows.trans
    grows_updateMapping)))

end MappingDecl

namespace ConnectionElementDecl

theorem declare_grows (d : ConnectionElementDecl) :
    d.declare.Ensures m fun _ m' => Grows (among [.connection]) m m' ∧ m'.Has d.header.path .connection :=
  declares fun e he => by simp [category?, Bare, superEdges, he]

theorem buildStep_grows (d : ConnectionElementDecl) (hd : m.Has d.header.path .connection) :
    d.buildStep.Ensures m fun _ m' => Grows (among [.connection]) m m' := by
  unfold buildStep
  simp only [ensures_bind, ensures_context, ensures_liftM, ensures_modify]
  exact fun value _ => grows_setOther hd (fun e he => by simp [category?, he]) (by simp)

end ConnectionElementDecl

namespace RuntimeElementDecl

theorem declare_grows (d : RuntimeElementDecl) :
    d.declare.Ensures m fun _ m' => Grows (among [.runtime]) m m' ∧ m'.Has d.header.path .runtime :=
  declares fun e he => by simp [category?, Bare, superEdges, he]

theorem buildStep_grows (d : RuntimeElementDecl) (hd : m.Has d.header.path .runtime) :
    d.buildStep.Ensures m fun _ m' => Grows (among [.runtime]) m m' := by
  unfold buildStep
  simp only [ensures_bind, ensures_context, ensures_liftM, ensures_modify]
  exact fun value _ => grows_setOther hd (fun e he => by simp [category?, he]) (by simp)

end RuntimeElementDecl

end ModelGraph
