/-
# The course of a build over the domain

The passes over the domain go over classes and associations several times. Each step is for one
declaration, and finds its element as the pass before has left it. So the contents of a class can
be followed from pass to pass: as it was built, with what associations gave it, milestoned, and
with its bodies.

Key definitions: `Document.Course`, `Document.LinkedAt`.
Key theorems: `Document.Course.exists_links`, `Document.Course.class_milestoned`,
`Document.Course.class_settles`.
-/
import ModelGraph.Proofs.Build.Pairing
import ModelGraph.Proofs.Domain.Members

namespace ModelGraph

open Model Build Document List Function

variable {x : ClassDecl} {c : ClassContent}

variable {d : Document} {o : Options} {m m' n : Model} {K : Option Category → Prop} {i : Nat} {p : String}

/-- Where a build that ends with `m` stands between the passes over the domain. -/
structure Document.Course (d : Document) (o : Options) (m : Model) where
  {typed structured measured linked milestoned joined bodied tied : Model}
  built : (d.build o).result = .ok m
  typedAt : d.At o "classes.structure" 0 typed
  structuredAt : d.At o "classes.structure" (d.steps "classes.structure").length structured
  measuredAt : d.At o "associations.declare" 0 measured
  linkedAt : d.At o "classes.milestoning" 0 linked
  milestonedAt : d.At o "associations.milestoning" 0 milestoned
  joinedAt : d.At o "classes.bodies" 0 joined
  bodiedAt : d.At o "associations.bodies" 0 bodied
  tiedAt : d.At o "functions.bodies" 0 tied

theorem Document.exists_course (h : (d.build o).result = .ok m) : Nonempty (d.Course o m) := by
  obtain ⟨_, typed⟩ := at_of_build h "classes.structure" (by decide) 0
  obtain ⟨_, structured⟩ := at_of_build h "classes.structure" (by decide) (d.steps "classes.structure").length
  obtain ⟨_, measured⟩ := at_of_build h "associations.declare" (by decide) 0
  obtain ⟨_, linked⟩ := at_of_build h "classes.milestoning" (by decide) 0
  obtain ⟨_, milestoned⟩ := at_of_build h "associations.milestoning" (by decide) 0
  obtain ⟨_, joined⟩ := at_of_build h "classes.bodies" (by decide) 0
  obtain ⟨_, bodied⟩ := at_of_build h "associations.bodies" (by decide) 0
  obtain ⟨_, tied⟩ := at_of_build h "functions.bodies" (by decide) 0
  exact ⟨⟨h, typed, structured, measured, linked, milestoned, joined, bodied, tied⟩⟩

/-! ### Associations and classes so far -/

/-- Association `j` as the pass that declares associations has built it. -/
def Document.LinkedAt (d : Document) (o : Options) (j : Nat) (x : AssociationDecl) (a : AssociationContent) : Prop :=
  ∃ n n', d.At o "associations.declare" j n ∧
    n.register x.header.package x.header.name x.header.span (.association {}) = .ok n' ∧ x.Members n' a

/-- From `m` on, the associations `done` were declared, as `as`, and the classes have their members. -/
structure Document.Links (d : Document) (o : Options) (m : Model) (done : List AssociationDecl)
    (as : List AssociationContent) (n : Model) : Prop where
  length : as.length = done.length
  linked : ∀ {j x a}, done[j]? = some x → as[j]? = some a →
    d.LinkedAt o j x a ∧ a.stage = .structured ∧ n.staged? x.header.path = some (.association a)
  named : ∀ a ∈ as, ∀ q ∈ a.properties, n.NamesRaw q.type.raw
  classes : ∀ {p c}, m.staged? p = some (.classType c) → n.staged? p =
    some (.classType (c.receive (as.flatMap (·.propertiesAt p)) (as.flatMap (·.qualifiedAt p))))

theorem Document.Links.start (d : Document) (o : Options) (m : Model) : d.Links o m [] [] m where
  length := rfl
  linked h := by cases h
  named := forall_mem_nil _
  classes {_ c} hc := by rw [hc, flatMap_nil, flatMap_nil, c.receive_nil]

theorem Document.Links.next {done : List AssociationDecl} {as : List AssociationContent} {x : AssociationDecl}
    {a : AssociationContent} (h : d.Links o m done as n) (hnew : n.staged? x.header.path = none)
    (hx : d.LinkedAt o done.length x a) (hstage : a.stage = .structured) (hgrows : Grows K n m')
    (hnamed : ∀ q ∈ a.properties, n.NamesRaw q.type.raw)
    (hm' : m'.staged? = update (n.remap fun p => ClassContent.receive (a.propertiesAt p) (a.qualifiedAt p))
      x.header.path (some (.association a))) : d.Links o m (done ++ [x]) (as ++ [a]) m' := by
  have hother {q : String} {y : ElementContent} (hq : n.staged? q = some y) : q ≠ x.header.path := by
    rintro rfl
    cases hnew.symm.trans hq
  refine ⟨by simp [h.length], fun {j y b} hy hb => ?_, forall_mem_append.2
    ⟨fun b hb q hq => hgrows.namesRaw (h.named b hb q hq), forall_mem_singleton.2 fun q hq =>
      hgrows.namesRaw (hnamed q hq)⟩, fun {q c} hc => ?_⟩
  · rw [getElem?_append] at hy hb
    rw [h.length] at hb
    split at hy
    · rename_i hj
      rw [if_pos hj] at hb
      obtain ⟨hlinked, hb', hstaged⟩ := h.linked hy hb
      refine ⟨hlinked, hb', ?_⟩
      rw [hm', update_of_ne (hother hstaged), remap, hstaged]
      rfl
    · rename_i hj
      rw [if_neg hj] at hb
      obtain ⟨hj', rfl⟩ := List.getElem?_eq_some_iff.1 hy
      have hlast : j = done.length := by
        rw [length_singleton] at hj'
        omega
      subst hlast
      rw [Nat.sub_self] at hb
      cases hb
      rw [hm', getElem_singleton, update_self]
      exact ⟨hx, hstage, rfl⟩
  · have hc' := h.classes hc
    rw [hm', update_of_ne (hother hc'), remap, hc', Option.map_some, ElementContent.mapClass,
      ClassContent.receive_receive, flatMap_append, flatMap_append, flatMap_singleton,
      flatMap_singleton]

/-- No class has contents yet. -/
def Model.Blank (m : Model) : Prop := ∀ p c, m.staged? p = some (.classType c) → c = {}

theorem Model.Blank.grows {cs : List Category} (h : m.Blank) (hg : Grows (within cs) m m')
    (hcs : Category.classType ∉ cs) : m'.Blank := by
  intro p c hp
  obtain ⟨e, he, hc, hs⟩ := staged?_eq_some.1 hp
  have hold := hg.unchanged he fun hk => hcs (hk _ (by simp [Element.category?, hc]))
  exact h p c (staged?_eq_some.2 ⟨e, hold, hc, hs⟩)

theorem Model.Blank.set {x : ElementContent} (h : m.Blank) (hx : ∀ c, x = .classType c → c = {})
    (hm : m'.staged? = Function.update m.staged? p (some x)) : m'.Blank := by
  intro q c hc
  rw [hm, update_apply] at hc
  split at hc
  · exact hx c (Option.some.inj hc)
  · exact h q c hc

namespace Document.Course

variable (t : d.Course o m)

include t

/-! ### Up to associations -/

theorem typed_blank : t.typed.Blank := by
  obtain ⟨k, hk⟩ := at_of_build t.built "classes.declare" (by decide) 0
  obtain ⟨k', hk'⟩ := at_of_build t.built "enumerations" (by decide) 0
  have hbefore : Grows (within [.profile]) { options := o } k :=
    (d.at_start o).grows hk (by decide) (fun _ => by decide) (by decide)
  have hafter : Grows (within [.enumeration, .function, .measure, .unit]) k' t.typed :=
    hk'.grows t.typedAt (by decide) (fun _ => by decide) (by decide)
  have hstart : k.Blank := Blank.grows (fun _ _ hc => by cases hc) hbefore (by simp)
  refine (hk.sweep (J := fun _ n => n.Blank) hstart (fun hs _ hn hrun => ?_) (Nat.le_refl _)
    (hk'.last (by decide))).grows hafter (by simp)
  obtain ⟨x, -, rfl⟩ := exists_of_stepsOver hs
  exact hn.set (fun c hc => by cases hc; rfl) (x.declare_effect _ _ hrun).2

/-- **Class `i` as the pass over structures has built it.** It has nothing from associations yet, and
neither the check of supertypes nor the pass over measures touches it. -/
theorem class_structured (hx : d.classes[i]? = some x) :
    ∃ n c, d.At o "classes.structure" i n ∧ x.Members n c ∧ c.assocProperties = [] ∧ c.assocQualified = [] ∧
      t.measured.staged? x.header.path = some (.classType c) := by
  obtain ⟨n, n', hat, hrun, hsame, hafter⟩ := t.typedAt.own_staged t.structuredAt (by decide) rfl rfl hx
  obtain ⟨c₀, hc₀⟩ := Has.staged_class (hat.kinds rfl (mem_map_of_mem (mem_of_getElem? hx)) _ (.head _))
  obtain ⟨c, hn', -, hmembers, hproperties, hqualified⟩ := x.structureStep_effect hc₀ _ _ hrun
  have hblank : c₀ = {} := t.typed_blank _ _ (hsame ▸ hc₀)
  have hmeasured : Grows (within [.unit]) t.structured t.measured :=
    t.structuredAt.grows t.measuredAt (by decide) (fun h => absurd h (Nat.lt_irrefl _)) (by decide)
  rw [hblank] at hproperties hqualified
  refine ⟨n, c, hat, hmembers, hproperties, hqualified, ?_⟩
  rw [(hmeasured.of_within (by simp)).staged?, hafter, hn', update_self]

/-! ### Associations -/

/-- **The associations as they were declared.** Each class holds the members that it is navigated
to by, association after association. -/
theorem exists_links : ∃ as, d.Links o t.measured d.associations as t.linked := by
  have hall := t.measuredAt.sweep (J := fun j n => ∃ as, d.Links o t.measured (d.associations.take j) as n)
    ⟨[], .start d o _⟩ ?_ (Nat.le_refl _) (t.linkedAt.last (by decide))
  · have hlength : (d.steps "associations.declare").length = d.associations.length := length_map _
    rwa [hlength, take_length] at hall
  rintro j s n n' hs hat ⟨as, hlinks⟩ hrun
  obtain ⟨x, hx, rfl⟩ := exists_of_stepsOver hs
  obtain ⟨k, a, hregister, hmembers, hstage, hn'⟩ := x.declare_effect _ _ hrun
  obtain ⟨hj, rfl⟩ := List.getElem?_eq_some_iff.1 hx
  have hlength : (d.associations.take j).length = j := length_take_of_le hj.le
  rw [take_succ_eq_append_getElem hj]
  refine ⟨as ++ [a], hlinks.next (staged?_register_new hregister) ⟨n, k, hlength.symm ▸ hat, hregister, hmembers⟩
    hstage (AssociationDecl.declare_grows _ _ _ hrun).1 (fun q hq => ?_) hn'⟩
  obtain ⟨u, hraw, hu⟩ := hmembers.properties.named (hat.tidy.register_association hregister) q hq
  exact ⟨u, hraw, names_of_register hregister hu⟩

/-! ### Milestoning -/

/-- **Class `i` as milestoning has made it.** -/
theorem class_milestoned (hx : d.classes[i]? = some x) (hc : t.linked.staged? x.header.path = some (.classType c)) :
    ∃ n qs rs, d.At o "classes.milestoning" i n ∧
      MemberLists.own.Derives n x.ref c qs ∧ MemberLists.associated.Derives n x.ref c rs ∧
      t.milestoned.staged? x.header.path = some (.classType
        { MemberLists.associated.replace n x.ref rs (MemberLists.own.replace n x.ref qs c) with
          stage := .milestoned }) := by
  obtain ⟨n, n', hat, hrun, hsame, hafter⟩ :=
    t.linkedAt.own_staged (t.milestonedAt.last (by decide)) (by decide) rfl rfl hx
  have hn : n.staged? x.ref.path = some (.classType c) := hsame.trans hc
  obtain ⟨qs, rs, hqs, hrs, hn'⟩ := milestoneClass_effect hn _ _ hrun
  refine ⟨n, qs, rs, hat, hqs, hrs, ?_⟩
  rw [hafter, hn']
  exact update_self ..

/-! ### Bodies -/

/-- Milestoning associations leaves classes as they are, so each is compiled as milestoning has made it. -/
theorem class_compiled (hx : d.classes[i]? = some x) (hc : t.milestoned.staged? x.header.path = some (.classType c)) :
    ∃ n n', n.staged? x.header.path = some (.classType c) ∧ x.compileStep n = .ok ((), n') ∧
      t.bodied.staged? x.header.path = n'.staged? x.header.path := by
  have hgrows : Grows (within [.association]) t.milestoned t.joined :=
    t.milestonedAt.grows t.joinedAt (by decide) (fun _ => by decide) (by decide)
  have hjoined := hgrows.staged_of hc fun e he => by simp [Element.category?, he, within]
  obtain ⟨n, n', -, hrun, hsame, hafter⟩ := t.joinedAt.own_staged (t.bodiedAt.last (by decide)) (by decide) rfl rfl hx
  exact ⟨n, n', hsame.trans hjoined, hrun, hafter⟩

theorem class_bodied (hx : d.classes[i]? = some x) (hc : t.milestoned.staged? x.header.path = some (.classType c)) :
    ∃ c', c.Settles c' ∧ c'.assocQualified = c.assocQualified ∧
      t.bodied.staged? x.header.path = some (.classType c') := by
  obtain ⟨n, n', hn, hrun, hafter⟩ := t.class_compiled hx hc
  obtain ⟨c', hn', hframe, hqs, -⟩ := ClassDecl.compileStep_effect hn _ _ hrun
  exact ⟨c', .of_frame hframe hqs, show c'.frame.assocQualified = _ from hframe ▸ rfl,
    by rw [hafter, hn', update_self]⟩

theorem class_refilled (hc : t.bodied.staged? p = some (.classType c)) :
    ∃ c', c.Settles c' ∧ c'.properties = c.properties ∧ t.tied.staged? p = some (.classType c') := by
  refine t.bodiedAt.sweep (J := fun _ n => ∃ c', c.Settles c' ∧ c'.properties = c.properties ∧
    n.staged? p = some (.classType c')) ⟨c, .refl c, rfl, hc⟩ ?_ (Nat.le_refl _) (t.tiedAt.last (by decide))
  rintro j s n n' hs hat ⟨c', hsettles, hproperties, hc'⟩ hrun
  obtain ⟨x, hx, rfl⟩ := exists_of_stepsOver hs
  obtain ⟨a, ha⟩ := Has.staged_association (hat.kinds rfl (mem_of_getElem? hs) _ (.head _))
  obtain ⟨bs, -, hn'⟩ := AssociationDecl.compileStep_effect ha _ _ hrun
  have hp : p ≠ x.header.path := by
    rintro rfl
    cases ha.symm.trans hc'
  refine ⟨c'.refill x.header.path (bodiesAt bs p), hsettles.trans (.of_refill _ _ _), hproperties, ?_⟩
  rw [hn', update_of_ne hp, remap, hc']
  rfl

theorem class_tied (hc : t.bodied.staged? p = some (.classType c)) :
    ∃ c', c.Settles c' ∧ t.tied.staged? p = some (.classType c') := by
  obtain ⟨c', hsettles, -, hc'⟩ := t.class_refilled hc
  exact ⟨c', hsettles, hc'⟩

theorem staged_of_tied {y : ElementContent} (hy : t.tied.staged? p = some y)
    (hkind : ∀ e : Element, e.content = y → ¬ within [.function, .store, .mapping, .connection, .runtime] e.category?) :
    m.staged? p = some y :=
  (t.tiedAt.grows_build t.built (fun _ => by decide) (by decide)).staged_of hy hkind

/-- **What becomes of a class once it is milestoned.** -/
theorem class_settles (hx : d.classes[i]? = some x) (hc : t.milestoned.staged? x.header.path = some (.classType c)) :
    ∃ c', c.Settles c' ∧ m.staged? x.header.path = some (.classType c') := by
  obtain ⟨c₁, h₁, -, hc₁⟩ := t.class_bodied hx hc
  obtain ⟨c₂, h₂, hc₂⟩ := t.class_tied hc₁
  exact ⟨c₂, h₁.trans h₂, t.staged_of_tied hc₂ fun e he => by simp [Element.category?, he, within]⟩

end Document.Course

end ModelGraph
