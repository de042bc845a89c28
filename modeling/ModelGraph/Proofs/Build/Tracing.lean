/-
# Where derived properties come from

Until their bodies are compiled, the derived properties of classes and associations are those
that were built from the document, with generated ones after them, and each one of an
association is held by the class that it is navigated from.

Key definitions: `Document.ClassSigned`, `Document.AssociationSigned`.
Key theorems: `Traced.next`, `Document.traced_of_play`.
-/
import ModelGraph.Proofs.Build.Ledger
import ModelGraph.Proofs.Domain.Numbering

namespace ModelGraph

open Model Build Document List Function

/-- The derived properties of class `i` as the pass over structures has built them. -/
def Document.ClassSigned (d : Document) (o : Options) (i : Nat) (x : ClassDecl) (qs : List QualifiedProperty) : Prop :=
  d.classes[i]? = some x ∧ ∃ n, d.At o "classes.structure" i n ∧ x.Signed n qs

/-- The derived properties of association `i` as the pass that declares associations has built
them, and the classes that they are navigated from. -/
def Document.AssociationSigned (d : Document) (o : Options) (i : Nat) (x : AssociationDecl)
    (receivers : List TypeRef) (qs : List QualifiedProperty) : Prop :=
  d.associations[i]? = some x ∧ ∃ n n', d.At o "associations.declare" i n ∧
    n.register x.header.package x.header.name x.header.span (.association {}) = .ok n' ∧ x.Signed n' receivers qs

/-- What is known of the derived properties in a model until their bodies are compiled: where
they come from, and who holds them. -/
structure Traced (d : Document) (o : Options) (m : Model) : Prop where
  classes : ∀ {p c}, m.staged? p = some (.classType c) → c.stage = .structured ∨ c.stage = .milestoned →
    ∃ i x qs, x.header.path = p ∧ d.ClassSigned o i x qs ∧ Generates qs c.qualified
  associations : ∀ {p a}, m.staged? p = some (.association a) → a.stage ≠ .compiled →
    (∃ i x, x.header.path = p ∧ d.AssociationSigned o i x a.receivers a.signatures) ∧
    ∀ q ∈ a.qualified, ∀ k, q.Is p k = true → q ∈ a.signatures
  shared : ∀ {p c r a}, m.staged? p = some (.classType c) → m.staged? r = some (.association a) →
    a.stage ≠ .compiled → ∀ k, c.assocQualified.filter (·.Is r k) =
      (handed (a.receivers.zip a.signatures) p).filter (·.Is r k)
  foreign : ∀ {p c r}, m.staged? p = some (.classType c) → (∀ a, m.staged? r ≠ some (.association a)) →
    ∀ k, c.assocQualified.filter (·.Is r k) = []

variable {d : Document} {o : Options} {done after : List (String × Step)} {pass p q : String} {s : Step}
  {m m' : Model} {x y : ElementContent} {i : Nat}

theorem exists_of_set (hm' : m'.staged? = update m.staged? p (some y)) (hx : m'.staged? q = some x) :
    q = p ∧ x = y ∨ q ≠ p ∧ m.staged? q = some x := by
  rw [hm', update_apply] at hx
  split at hx
  · rename_i hq
    cases hx
    exact .inl ⟨hq, rfl⟩
  · rename_i hq
    exact .inr ⟨hq, hx⟩

theorem Traced.congr (h : Traced d o m) (hm' : m'.staged? = m.staged?) : Traced d o m' := by
  constructor
  all_goals rw [hm']
  · exact h.classes
  · exact h.associations
  · exact h.shared
  · exact h.foreign

/-- An element other than an association that is new or has other contents. -/
theorem Traced.set (h : Traced d o m) (hp : ∀ a, m.staged? p ≠ some (.association a))
    (hm' : m'.staged? = update m.staged? p (some y)) (hy : ∀ a, y ≠ .association a)
    (htrace : ∀ c, y = .classType c → c.stage = .structured ∨ c.stage = .milestoned →
      ∃ i x qs, x.header.path = p ∧ d.ClassSigned o i x qs ∧ Generates qs c.qualified)
    (hshared : ∀ c, y = .classType c → ∀ {r a}, m.staged? r = some (.association a) → a.stage ≠ .compiled →
      ∀ k, c.assocQualified.filter (·.Is r k) = (handed (a.receivers.zip a.signatures) p).filter (·.Is r k))
    (hforeign : ∀ c, y = .classType c → ∀ {r}, (∀ a, m.staged? r ≠ some (.association a)) →
      ∀ k, c.assocQualified.filter (·.Is r k) = []) : Traced d o m' := by
  have hassociation {r : String} {a : AssociationContent} :
      m'.staged? r = some (.association a) ↔ m.staged? r = some (.association a) := by
    rw [hm', update_apply]
    split
    · rename_i hr
      rw [hr]
      exact iff_of_false (fun ha => hy a (Option.some.inj ha)) (hp a)
    · rfl
  refine ⟨fun hx hstage => ?_, fun ha => h.associations (hassociation.1 ha),
    fun hx ha hstage k => ?_, fun hx hr k => ?_⟩
  all_goals rcases exists_of_set hm' hx with ⟨rfl, hx⟩ | ⟨-, hx⟩
  · exact htrace _ hx.symm hstage
  · exact h.classes hx hstage
  · exact hshared _ hx.symm (hassociation.1 ha) hstage k
  · exact h.shared hx (hassociation.1 ha) hstage k
  · exact hforeign _ hx.symm (fun a ha => hr a (hassociation.2 ha)) k
  · exact h.foreign hx (fun a ha => hr a (hassociation.2 ha)) k

/-- A class with other contents, in which it holds the same declared derived properties of
associations. -/
theorem Traced.setClass {c c' : ClassContent} (h : Traced d o m) (hc : m.staged? p = some (.classType c))
    (hm' : m'.staged? = update m.staged? p (some (.classType c')))
    (hassoc : ∀ r k, c'.assocQualified.filter (·.Is r k) = c.assocQualified.filter (·.Is r k))
    (htrace : c'.stage = .structured ∨ c'.stage = .milestoned →
      ∃ i x qs, x.header.path = p ∧ d.ClassSigned o i x qs ∧ Generates qs c'.qualified) : Traced d o m' := by
  refine h.set (fun a ha => nomatch hc.symm.trans ha) hm' nofun ?_ ?_ ?_
  all_goals rintro _ ⟨⟩
  · exact htrace
  · exact fun ha hstage k => (hassoc _ k).trans (h.shared hc ha hstage k)
  · exact fun hr k => (hassoc _ k).trans (h.foreign hc hr k)

/-! ### Associations -/

section Associations

variable {f : String → ClassContent → ClassContent} {a a' : AssociationContent} {c : ClassContent} {r : String}

section

variable (hm' : m'.staged? = update (m.remap f) p (some (.association a')))
include hm'

theorem exists_class_of_update (hc : m'.staged? q = some (.classType c)) : ∃ c₀, m.staged? q = some (.classType c₀) ∧ c = f q c₀ := by
  rcases exists_of_update hm' hc with ⟨-, h⟩ | ⟨-, z, hz, h⟩
  · cases h
  · cases z with
    | classType c₀ => exact ⟨c₀, hz, by cases h; rfl⟩
    | _ => cases h

theorem exists_association_of_update (ha : m'.staged? r = some (.association a)) :
    r = p ∧ a = a' ∨ r ≠ p ∧ m.staged? r = some (.association a) := by
  rcases exists_of_update hm' ha with ⟨rfl, h⟩ | ⟨hr, z, hz, h⟩
  · cases h
    exact .inl ⟨rfl, rfl⟩
  · exact .inr ⟨hr, ElementContent.mapClass_eq_association h.symm ▸ hz⟩

end

theorem mem_of_mem_handed {ys : List (TypeRef × QualifiedProperty)} {q : QualifiedProperty} (h : q ∈ handed ys p) :
    ∃ t, (t, q) ∈ ys := by
  obtain ⟨y, hy, rfl⟩ := mem_map.1 h
  exact ⟨y.1, mem_of_mem_filter hy⟩

/-- An association that is new or has other contents, where classes change in what they hold of it. -/
theorem Traced.setAssociation (h : Traced d o m) (hm' : m'.staged? = update (m.remap f) p (some (.association a')))
    (hstage : ∀ q c, (f q c).stage = c.stage) (hqualified : ∀ q c, (f q c).qualified = c.qualified)
    (hother : ∀ q c {r}, r ≠ p → ∀ k, (f q c).assocQualified.filter (·.Is r k) = c.assocQualified.filter (·.Is r k))
    (hown : a'.stage ≠ .compiled → (∃ i x, x.header.path = p ∧ d.AssociationSigned o i x a'.receivers a'.signatures) ∧
      ∀ q ∈ a'.qualified, ∀ k, q.Is p k = true → q ∈ a'.signatures)
    (hheld : a'.stage ≠ .compiled → ∀ {q c}, m.staged? q = some (.classType c) → ∀ k,
      (f q c).assocQualified.filter (·.Is p k) = (handed (a'.receivers.zip a'.signatures) q).filter (·.Is p k)) :
    Traced d o m' := by
  refine ⟨fun hc hstaged => ?_, fun ha hstaged => ?_, fun hc ha hstaged k => ?_, fun {q c r} hc hr k => ?_⟩
  · obtain ⟨c₀, hc₀, rfl⟩ := exists_class_of_update hm' hc
    rw [hstage] at hstaged
    rw [hqualified]
    exact h.classes hc₀ hstaged
  · rcases exists_association_of_update hm' ha with ⟨rfl, rfl⟩ | ⟨-, ha⟩
    · exact hown hstaged
    · exact h.associations ha hstaged
  · obtain ⟨c₀, hc₀, rfl⟩ := exists_class_of_update hm' hc
    rcases exists_association_of_update hm' ha with ⟨rfl, rfl⟩ | ⟨hr, ha⟩
    · exact hheld hstaged hc₀ k
    · rw [hother _ _ hr]
      exact h.shared hc₀ ha hstaged k
  · obtain ⟨c₀, hc₀, rfl⟩ := exists_class_of_update hm' hc
    have hr' : r ≠ p := by
      rintro rfl
      exact hr a' (by rw [hm', update_self])
    rw [hother _ _ hr']
    refine h.foreign hc₀ (fun b hb => hr b ?_) k
    rw [hm', update_of_ne hr', remap, hb]
    rfl

theorem Traced.addAssociation {x : AssociationDecl} (h : Traced d o m)
    (hnew : m.staged? x.header.path = none) (hsigned : d.AssociationSigned o i x a.receivers a.signatures)
    (hqualified : a.qualified = a.signatures)
    (hm' : m'.staged? = update (m.remap f) x.header.path (some (.association a)))
    (hf : ∀ p, Receives (handed (a.receivers.zip a.signatures) p) (f p)) : Traced d o m' := by
  refine h.setAssociation hm' (fun q => (hf q).stage) (fun q => (hf q).qualified) (fun p c r hr k => ?_)
    (fun _ => ⟨⟨i, x, rfl, hsigned⟩, fun q hq k _ => hqualified ▸ hq⟩) fun _ p c hc k => ?_
  · -- Its derived properties are its own.
    have hnone : (handed (a.receivers.zip a.signatures) p).filter (·.Is r k) = [] := by
      refine filter_eq_nil_iff.2 fun q hq his => ?_
      obtain ⟨t, ht⟩ := mem_of_mem_handed hq
      obtain ⟨-, n, n', -, -, hsigned⟩ := hsigned
      obtain ⟨j, hj⟩ := getElem?_of_mem (of_mem_zip ht).2
      exact hr ((QualifiedProperty.is_iff.1 his).1.symm.trans (QualifiedProperty.is_iff.1 (hsigned.is hj)).1)
    rw [(hf p).assocQualified, filter_append, hnone, append_nil]
  · have hmine := h.foreign hc (fun b hb => nomatch hnew.symm.trans hb) k
    rw [(hf p).assocQualified, filter_append, hmine, nil_append]

theorem Traced.milestoneAssociation (h : Traced d o m) (ha : m.staged? p = some (.association a))
    (hstage : a.stage ≠ .compiled)
    (hm' : m'.staged? = update m.staged? p (some (.association a')))
    (hreceivers : a'.receivers = a.receivers) (hsignatures : a'.signatures = a.signatures)
    (hqualified : ∀ q ∈ a'.qualified, q ∈ a.qualified ∨
      ∃ r c, m.staged? r = some (.classType c) ∧ q ∈ c.assocQualified ∧ q.owner = p) : Traced d o m' := by
  rw [← m.remap_id] at hm'
  refine h.setAssociation hm' (fun _ _ => rfl) (fun _ _ => rfl) (fun _ _ _ _ _ => rfl) (fun _ => ?_) fun _ q c hc k => ?_
  all_goals rw [hreceivers, hsignatures]
  · obtain ⟨hsigned, hold⟩ := h.associations ha hstage
    refine ⟨hsigned, fun q hq k his => ?_⟩
    rcases hqualified q hq with hq | ⟨p', c, hc, hq, -⟩
    · exact hold q hq k his
    · -- What a class holds of the association, it was handed.
      have hmem : q ∈ c.assocQualified.filter (·.Is p k) := mem_filter.2 ⟨hq, his⟩
      rw [h.shared hc ha hstage] at hmem
      obtain ⟨t, ht⟩ := mem_of_mem_handed (mem_of_mem_filter hmem)
      exact (of_mem_zip ht).2
  · exact h.shared hc ha hstage k

theorem Traced.compileAssociation (h : Traced d o m)
    (hm' : m'.staged? = update (m.remap f) p (some (.association a'))) (hstage : a'.stage = .compiled)
    (hf : ∀ q, Refilling p (fun _ => False) (f q)) : Traced d o m' :=
  h.setAssociation hm' (fun q => (hf q).stage) (fun q => (hf q).qualified)
    (fun q c _ hr _ => ((hf q).assocQualified c).filter_is fun hrp => absurd hrp hr) (absurd hstage) (absurd hstage)

end Associations

/-- **Where derived properties come from and who holds them stays known after each step.** -/
theorem Traced.next (h : Traced d o m) (hscript : d.script (d.passes o) = done ++ (pass, s) :: after)
    (hplay : play done { options := o } = .ok ((), m)) (hat : d.At o pass i m) (hmoves : Moves d i m m' pass s) :
    Traced d o m' := by
  have hl := ledger_of_play hscript hplay
  cases hmoves with
  | same _ hm' => exact h.congr hm'
  | classDeclared hx hnew hm' =>
    have hnone (r : String) (a : AssociationContent) : m.staged? r ≠ some (.association a) := by
      intro ha
      have hmade : made done "associations.declare" r = true := hl.declared ha
      rw [not_made_later hscript (by decide)] at hmade
      cases hmade
    refine h.set (hnone _) hm' nofun ?_ ?_ ?_
    all_goals rintro _ ⟨⟩
    · exact fun hstage => absurd hstage (by decide)
    · exact fun ha => absurd ha (hnone _ _)
    · exact fun _ _ => rfl
  | classStructured hx hc hm' hstage hsigned hassoc =>
    refine h.setClass hc hm' (fun r k => by rw [hassoc]) fun _ => ?_
    exact ⟨i, _, _, rfl, ⟨hx, m, hat, hsigned⟩, .refl _⟩
  | classMilestoned hx hc hm' hstage hover =>
    refine h.setClass hc hm' hover.assocQualified.filter_is fun _ => ?_
    have hstructured := hl.class_structured hplay (.head _) hscript hc
    obtain ⟨j, x, qs, hpath, hsigned, hgenerates⟩ := h.classes hc (.inl hstructured)
    exact ⟨j, x, qs, hpath, hsigned, hgenerates.trans hover.qualified⟩
  | classCompiled hx hc hm' hstage hassoc =>
    refine h.setClass hc hm' (fun r k => by rw [hassoc]) fun hstage' => ?_
    rw [hstage] at hstage'
    exact absurd hstage' (by decide)
  | associationDeclared hx hnew hn hsigned hstage hqualified hends hm' hf =>
    exact h.addAssociation hnew ⟨hx, m, _, hat, hn, hsigned⟩ hqualified hm' hf
  | associationMilestoned hx ha hm' hstage hreceivers hsignatures hqualified =>
    refine h.milestoneAssociation ha (fun hstage => ?_) hm' hreceivers hsignatures hqualified
    exact absurd (hl.ahead hscript hplay (.head _) rfl ha (.tail _ (.head _))
      (congrArg some hstage)) (by decide)
  | associationCompiled hx ha hm' hstage hf => exact h.compileAssociation hm' hstage hf
  | functionDeclared hx hnew hm' => exact h.set (fun a ha => nomatch hnew.symm.trans ha) hm' nofun nofun nofun nofun
  | functionCompiled hx hf hm' => exact h.set (fun a ha => nomatch hf.symm.trans ha) hm' nofun nofun nofun nofun

theorem Document.traced_of_play (hscript : d.script (d.passes o) = done ++ after)
    (hplay : play done { options := o } = .ok ((), m)) : Traced d o m := by
  refine play_induct (J := fun _ m => Traced d o m) ⟨nofun, nofun, nofun, nofun⟩ ?_ hscript hplay
  exact fun hsplit hn hat h hmoves => h.next hsplit hn hat hmoves

end ModelGraph
