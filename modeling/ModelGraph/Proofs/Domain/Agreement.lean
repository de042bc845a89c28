/-
# Associations agree with their ends

Once all is built, an association lists the stored properties that the classes at its ends have from
it, as long as each end has taken part in milestoning with an original of its own or still holds what
it was given. With its derived properties it is the same, but for those that give neither end's type:
an association lists these once more if its first end was milestoned.

Key definitions: `Model.KeepsOf`, `Model.InStep`.
Key theorems: `Document.Course.association_joined`, `Document.Course.association_tied`,
`Document.associations_agree`.
-/
import ModelGraph.Proofs.Domain.Ends

namespace ModelGraph

open Model Build Document List Function ClassContent QualifiedProperty

variable {p : String} {q : QualifiedProperty} {c : ClassContent} {as : List AssociationContent} {k : Nat}

variable {d : Document} {o : Options} {m n : Model} {r : String} {x : AssociationDecl} {a b : AssociationContent}
  {j : Nat} {first second : TypeRef}

/-! ### Bodies by number -/

namespace QualifiedProperty

variable {q : QualifiedProperty} {bs : List (Nat × List Expr)}

theorem fill_eq (owner : String) (q : QualifiedProperty) (b : Nat × List Expr) :
    ∃ body, q.fill owner b = { q with body } := by
  unfold fill
  split
  · exact ⟨b.2, rfl⟩
  · exact ⟨q.body, rfl⟩

theorem fillAll_eq (owner : String) : ∀ (bs : List (Nat × List Expr)) (q : QualifiedProperty),
    ∃ body, q.fillAll owner bs = { q with body }
  | [], q => ⟨q.body, rfl⟩
  | b :: bs, q => by
    obtain ⟨body, hbody⟩ := fill_eq owner q b
    obtain ⟨body', hbody'⟩ := fillAll_eq owner bs (q.fill owner b)
    exact ⟨body', hbody'.trans (by rw [hbody])⟩

theorem fillAll_eq_self {owner : String} : ∀ {bs : List (Nat × List Expr)} {q : QualifiedProperty},
    (∀ b ∈ bs, q.Is owner b.1 = false) → q.fillAll owner bs = q
  | [], _, _ => rfl
  | b :: bs, q, h => by
    have hb : q.fill owner b = q := if_neg (by rw [← Is, h b mem_cons_self]; exact Bool.false_ne_true)
    rw [fillAll, foldl_cons, hb]
    exact fillAll_eq_self fun b' hb' => h b' (.tail _ hb')

theorem fillAll_filter (owner : String) : ∀ (bs : List (Nat × List Expr)) (q : QualifiedProperty),
    q.fillAll owner bs = q.fillAll owner (bs.filter fun b => q.Is owner b.1)
  | [], _ => rfl
  | b :: bs, q => by
    obtain ⟨body, hbody⟩ := fill_eq owner q b
    have hrest := fillAll_filter owner bs (q.fill owner b)
    rw [filter_cons]
    split
    · rw [fillAll, fillAll, foldl_cons, foldl_cons]
      refine hrest.trans ?_
      rw [hbody]
      rfl
    · rename_i hb
      have hsame : q.fill owner b = q := if_neg hb
      rw [hsame] at hrest
      rw [fillAll, foldl_cons, hsame]
      exact hrest

theorem fillAll_bodiesAt {ts : List TypeRef} {bs : List (TypeRef × Nat × List Expr)}
    (hbs : ∀ b ∈ bs, ts[b.2.1]? = some b.1) (hq : ∀ k t, q.Is r k = true → ts[k]? = some t → t.path = p) :
    q.fillAll r (bodiesAt bs p) = q.fillAll r (bs.map (·.2)) := by
  rw [fillAll_filter, fillAll_filter r (bs.map _), bodiesAt, filter_map, filter_map, filter_filter]
  refine congrArg (fillAll r · q) (congrArg (List.map _) (filter_congr fun b hb => ?_))
  show (q.Is r b.2.1 && decide (b.1.path = p)) = q.Is r b.2.1
  rcases his : q.Is r b.2.1 with _ | _
  · rfl
  · rw [hq _ _ his (hbs b hb)]
    exact decide_eq_true rfl

end QualifiedProperty

/-! ### What one association leaves of another -/

def Model.association? (m : Model) (p : String) : Option AssociationContent :=
  (m.staged? p).bind fun
    | .association a => some a
    | _ => none

theorem Model.association?_of_staged? (h : m.staged? p = some (.association a)) : m.association? p = some a := by
  rw [association?, h]
  rfl

def Model.classAt (m : Model) (p : String) : ClassContent := (m.class? p).getD {}

theorem Model.classAt_of_staged? (h : m.staged? p = some (.classType c)) : m.classAt p = c := by
  rw [classAt, class?_of_staged? h, Option.getD_some]

/-- From `m` to `n`, the association `r` is as it was, and so are its members in classes. -/
structure Model.KeepsOf (r : String) (m n : Model) : Prop where
  association : ∀ {a}, m.staged? r = some (.association a) → n.staged? r = some (.association a)
  classes : ∀ {p c}, m.staged? p = some (.classType c) →
    ∃ c', n.staged? p = some (.classType c') ∧ c'.qualifiedOf r = c.qualifiedOf r

theorem Model.KeepsOf.refl (r : String) (m : Model) : m.KeepsOf r m := ⟨id, fun {_ c} hc => ⟨c, hc, rfl⟩⟩

theorem Model.KeepsOf.trans {k : Model} (h : m.KeepsOf r n) (h' : n.KeepsOf r k) : m.KeepsOf r k where
  association ha := h'.association (h.association ha)
  classes hc := by
    obtain ⟨c₁, hc₁, h₁⟩ := h.classes hc
    obtain ⟨c₂, hc₂, h₂⟩ := h'.classes hc₁
    exact ⟨c₂, hc₂, h₂.trans h₁⟩

theorem ClassContent.qualifiedOf_refill (owner : String) (bs : List (Nat × List Expr)) (c : ClassContent) (r : String) :
    (c.refill owner bs).qualifiedOf r = (c.qualifiedOf r).map (.fillAll owner bs) := by
  rw [qualifiedOf, refill, filter_map]
  refine congrArg _ (filter_congr fun q _ => ?_)
  obtain ⟨body, hbody⟩ := q.fillAll_eq owner bs
  rw [comp_apply, hbody]

theorem Model.ne_of_staged (ha : m.staged? r = some (.association a))
    (hc : m.staged? p = some (.classType c)) : p ≠ r := by
  rintro rfl
  cases ha.symm.trans hc

theorem AssociationDecl.compileStep_keepsOf (hx : m.Has x.header.path .association) (hr : r ≠ x.header.path) :
    x.compileStep.Ensures m fun _ m' => m.KeepsOf r m' := by
  obtain ⟨a, ha⟩ := hx.staged_association
  refine (compileStep_effect ha).mono ?_
  rintro _ m' ⟨bs, -, hm'⟩
  refine ⟨fun {a'} ha' => ?_, fun {p c} hc => ⟨c.refill x.header.path (bodiesAt bs p), ?_, ?_⟩⟩
  · rw [hm', update_of_ne hr, remap, ha']
    rfl
  · rw [hm', update_of_ne (ne_of_staged ha hc), remap, hc]
    rfl
  · rw [qualifiedOf_refill]
    refine (map_congr_left fun q hq => ?_).trans (map_id _)
    refine fillAll_eq_self fun b _ => Bool.eq_false_iff.2 fun his => hr ?_
    exact (of_decide_eq_true (mem_filter.1 hq).2).symm.trans (is_iff.1 his).1

/-! ### The course of an association -/

namespace Document.Course

variable (t : d.Course o m)

include t

/-- **An association once it has taken over what its ends have.** -/
theorem association_joined (hx : d.associations[j]? = some x)
    (hb : t.linked.staged? x.header.path = some (.association b)) (hends : b.ends = some (first, second)) :
    ∃ n, Grows (within [.association]) t.milestoned n ∧ t.joined.staged? x.header.path = some (.association
      { (b.fromEnd x.header.path second (n.classAt first.path)).fromEnd x.header.path first (n.classAt second.path) with
        stage := .milestoned }) := by
  have hgrows : Grows (within [.classType]) t.linked t.milestoned :=
    t.linkedAt.grows t.milestonedAt (by decide) (fun _ => by decide) (by decide)
  have hb := hgrows.staged_of hb fun e he => by simp [Element.category?, he, within]
  obtain ⟨n, n', hat, hrun, hsame, hafter⟩ :=
    t.milestonedAt.own_staged (t.joinedAt.last (by decide)) (by decide) rfl rfl hx
  have hs : (d.steps "associations.milestoning")[j]? = some _ := getElem?_stepsOver hx
  refine ⟨n, t.milestonedAt.grows_steps (List.getElem?_eq_some_iff.1 hs).1.le hat, ?_⟩
  rw [hafter, x.milestoneStep_effect (hsame.trans hb) hends _ _ hrun, update_self]
  rfl

/-- **An association with its bodies.** They are stored with the association and with the classes that
hold its members, and no other association touches them. -/
theorem association_tied (hx : d.associations[j]? = some x)
    (ha : t.bodied.staged? x.header.path = some (.association a)) :
    ∃ bs : List (TypeRef × Nat × List Expr), (∀ b ∈ bs, a.receivers[b.2.1]? = some b.1) ∧
      t.tied.staged? x.header.path =
        some (.association { a.refill x.header.path (bs.map (·.2)) with stage := .compiled }) ∧
      ∀ {p c}, t.bodied.staged? p = some (.classType c) → ∃ c', t.tied.staged? p = some (.classType c') ∧
        c'.qualifiedOf x.header.path = (c.qualifiedOf x.header.path).map (.fillAll x.header.path (bodiesAt bs p)) := by
  obtain ⟨n, n', -, hrun, hkeeps, hkeeps'⟩ := At.around_own (.refl _) .trans
    t.bodiedAt (t.tiedAt.last (by decide)) rfl rfl hx fun hy hne hn hrun => AssociationDecl.compileStep_keepsOf
      (hn.kinds rfl (mem_map_of_mem (mem_of_getElem? hy)) _ (.head _)) hne.symm _ _ hrun
  obtain ⟨bs, hbs, hn'⟩ := AssociationDecl.compileStep_effect (hkeeps.association ha) _ _ hrun
  refine ⟨bs, hbs, hkeeps'.association (by rw [hn', update_self]), fun {p c} hc => ?_⟩
  obtain ⟨c₁, hc₁, hq₁⟩ := hkeeps.classes hc
  have hc₂ : n'.staged? p = some (.classType (c₁.refill x.header.path (bodiesAt bs p))) := by
    rw [hn', update_of_ne (ne_of_staged (hkeeps.association ha) hc₁), remap, hc₁]
    rfl
  obtain ⟨c₃, hc₃, hq₃⟩ := hkeeps'.classes hc₂
  exact ⟨c₃, hc₃, by rw [hq₃, qualifiedOf_refill, hq₁]⟩

end Document.Course

/-! ### The members of one association -/

theorem filter_flatMap_at {α β : Type} {f : α → List β} {g : β → String} : ∀ {ks : List String} {as : List α}, ks.Nodup →
    Forall₂ (fun k a => ∀ y ∈ f a, g y = k) ks as → ∀ {j : Nat} {k : String} {a : α}, ks[j]? = some k →
      as[j]? = some a → (as.flatMap f).filter (fun y => g y = k) = f a
  | _, _, _, .nil, _, _, _, hk, _ => by cases hk
  | k₀ :: ks, a₀ :: as, hnodup, .cons h₀ h, j, k, a, hk, ha => by
    obtain ⟨hnew, hnodup⟩ := nodup_cons.1 hnodup
    rw [flatMap_cons, filter_append]
    cases j with
    | zero =>
      cases hk
      cases ha
      have hrest : (as.flatMap f).filter (fun y => g y = k₀) = [] := filter_eq_nil_iff.2 fun y hy hyk => by
        obtain ⟨a', ha', hy⟩ := mem_flatMap.1 hy
        obtain ⟨k', hk', hkeys⟩ := exists_of_forall₂ h ha'
        rw [← of_decide_eq_true hyk, hkeys y hy] at hnew
        exact hnew hk'
      rw [hrest, append_nil]
      exact filter_eq_self.2 fun y hy => decide_eq_true (h₀ y hy)
    | succ j =>
      have hfirst : (f a₀).filter (fun y => g y = k) = [] := filter_eq_nil_iff.2 fun y hy hyk => by
        rw [← h₀ y hy, of_decide_eq_true hyk] at hnew
        exact hnew (mem_of_getElem? hk)
      rw [hfirst]
      exact filter_flatMap_at hnodup h hk ha

theorem Document.LinkedAt.owner (h : d.LinkedAt o j x b) :
    (∀ q ∈ b.properties, q.owner = x.header.path) ∧ ∀ q ∈ b.signatures, q.owner = x.header.path := by
  obtain ⟨n, n', -, -, hmembers⟩ := h
  refine ⟨fun q hq => ?_, fun q hq => ?_⟩
  · obtain ⟨y, -, hy⟩ := exists_of_forall₂ hmembers.properties hq
    exact (PropertyDecl.build_ok hy).1
  · obtain ⟨k, hk⟩ := getElem?_of_mem hq
    exact (is_iff.1 (hmembers.signed.is hk)).1

theorem Document.Links.filter_owner (h : d.Links o m d.associations as n)
    (hnodup : (d.associations.map (·.header.path)).Nodup) (hx : d.associations[j]? = some x) (hb : as[j]? = some b) (p : String) :
    (as.flatMap (·.propertiesAt p)).filter (·.owner = x.header.path) = b.propertiesAt p ∧
      (as.flatMap (·.qualifiedAt p)).filter (·.owner = x.header.path) = b.qualifiedAt p := by
  have howners : Forall₂ (fun (y : AssociationDecl) (a : AssociationContent) =>
      (∀ q ∈ a.properties, q.owner = y.header.path) ∧ ∀ q ∈ a.signatures, q.owner = y.header.path) d.associations as := by
    refine forall₂_iff_get.2 ⟨h.length.symm, fun k hk hk' => ?_⟩
    exact (h.linked (getElem?_eq_getElem hk) (getElem?_eq_getElem hk')).1.owner
  have hpath : (d.associations.map (·.header.path))[j]? = some x.header.path := by rw [getElem?_map, hx]; rfl
  refine ⟨filter_flatMap_at hnodup (forall₂_map_left_iff.2 (howners.imp fun y a ha q hq => ?_)) hpath hb,
    filter_flatMap_at hnodup (forall₂_map_left_iff.2 (howners.imp fun y a ha q hq => ?_)) hpath hb⟩
  · exact ha.1 q (a.mem_propertiesAt hq)
  · obtain ⟨t, ht⟩ := mem_of_mem_handed hq
    exact ha.2 q (of_mem_zip ht).2

theorem Document.LinkedAt.shaped (h : d.LinkedAt o j x b) (hx : d.associations[j]? = some x) :
    ∃ first second, b.Shaped x.header.path first second := by
  obtain ⟨n, n', hat, hregister, hmembers⟩ := h
  have hs : (d.steps "associations.declare")[j]? = some ⟨[(x.header, some .association)], x.declare⟩ := by
    show (d.associations.map _)[j]? = _
    rw [getElem?_map, hx]
    rfl
  obtain ⟨done, after, hscript, hplay⟩ := hat.reached hs
  have hpackaged : n.Packaged :=
    (enrolls_of_play (fun _ hy => mem_steps (hscript ▸ mem_append_left _ hy)) hplay).packaged rfl
  exact hmembers.shaped ((enrolled_of_play hscript hplay).tidy.register_association hregister)
    (hpackaged.register hregister)

/-- The classes at the ends hold what milestoning has made of the members that the association gave them. -/
theorem Document.Course.class_holds (u : d.Course o m)
    (hlinks : d.Links o u.measured d.associations as u.linked) (hx : d.associations[j]? = some x)
    (hb : as[j]? = some b) (hp : p ∈ d.classPaths) :
    ∃ c c', u.milestoned.staged? p = some (.classType c) ∧ c.Holds x.header.path (b.propertiesAt p) (b.qualifiedAt p) ∧
      u.bodied.staged? p = some (.classType c') ∧ c.Settles c' ∧ c'.assocQualified = c.assocQualified := by
  obtain ⟨y, hy, rfl⟩ := mem_map.1 hp
  obtain ⟨i, hi⟩ := getElem?_of_mem hy
  obtain ⟨k, e, new, rs, -, -, -, hrs, hstaged⟩ := u.class_lists hlinks hi
  obtain ⟨hproperties, hqualified⟩ := hlinks.filter_owner (u.milestonedAt.paths_nodup rfl rfl) hx hb y.header.path
  obtain ⟨c', hsettles, hsame, hc'⟩ := u.class_bodied hi hstaged
  exact ⟨_, c', hstaged, holds_milestonedLists hproperties hqualified hrs rfl, hc', hsettles, hsame⟩

/-! ### Agreement -/

/-- Each end of an association keeps an original of it, or still holds what the association gave it. -/
def Model.InStep (m : Model) (r : String) (b : AssociationContent) : Prop :=
  ∀ p ∈ b.endPaths, (m.classAt p).replacesOf r = true ∨ ∀ q ∈ b.propertiesAt p, q ∈ (m.classAt p).assocProperties

/-- How the lists of an association `a` go with those of the classes at its ends, where `b` is the
association as it was built. -/
structure Model.Agrees (m : Model) (r : String) (ends : TypeRef × TypeRef) (b a : AssociationContent) : Prop where
  /-- An end that keeps an original of the association brings what it holds, another what it was given. -/
  properties : a.properties.Perm (b.endPaths.flatMap fun p =>
    if (m.classAt p).replacesOf r then (m.classAt p).propertiesOf r else b.propertiesAt p)
  qualified : a.qualified.Perm ((b.endPaths.flatMap fun p =>
    if (m.classAt p).replacesOf r then (m.classAt p).qualifiedOf r else (m.classAt p).declaredOf r) ++
      (m.classAt ends.1.path).copies r ends.1 ends.2)
  /-- The stored properties are those of the ends exactly if the ends are in step. -/
  same_iff : a.properties.Perm (b.endPaths.flatMap fun p => (m.classAt p).propertiesOf r) ↔ m.InStep r b
  /-- The derived properties then are those of the ends, and copies. -/
  same : m.InStep r b → a.qualified.Perm ((b.endPaths.flatMap fun p => (m.classAt p).qualifiedOf r) ++
    (m.classAt ends.1.path).copies r ends.1 ends.2)
  /-- Of each declared derived property there is one, and its copies. -/
  listed : ∀ k < b.signatures.length, (a.qualified.filter (·.Is r k)).length =
    1 + (((m.classAt ends.1.path).copies r ends.1 ends.2).filter (·.Is r k)).length

section Agreement

variable {c c' : ClassContent} {bs : List (Nat × List Expr)} {κ : String → ClassContent}

/-- Bodies do not tell which derived properties are looked for. -/
theorem filter_map_fillAll {f : QualifiedProperty → Bool} (hf : ∀ q body, f { q with body } = f q)
    (qs : List QualifiedProperty) : (qs.map (.fillAll r bs)).filter f = (qs.filter f).map (.fillAll r bs) := by
  rw [filter_map]
  refine congrArg _ (filter_congr fun q _ => ?_)
  obtain ⟨body, hbody⟩ := q.fillAll_eq r bs
  rw [comp_apply, hbody, hf]

theorem ClassContent.Holds.refill {ps : List Property} {qs : List QualifiedProperty} (h : c.Holds r ps qs)
    (hproperties : c'.assocProperties = c.assocProperties)
    (hqualified : c'.qualifiedOf r = (c.qualifiedOf r).map (.fillAll r bs)) : c'.Holds r ps (qs.map (.fillAll r bs)) := by
  obtain ⟨new, hnew, htypes⟩ := h.derived
  have hP : c'.propertiesOf r = c.propertiesOf r := by rw [propertiesOf, propertiesOf, hproperties]
  refine ⟨hP ▸ h.stored, ⟨new.map (.fillAll r bs), by rw [hqualified, hnew, map_append], fun q hq => ?_⟩, fun hps => ?_⟩
  · obtain ⟨q₀, hq₀, rfl⟩ := mem_map.1 hq
    obtain ⟨body, hbody⟩ := q₀.fillAll_eq r bs
    rw [hbody]
    exact htypes q₀ hq₀
  · obtain ⟨hP', hQ⟩ := h.intact (hproperties ▸ hps)
    exact ⟨hP.trans hP', by rw [hqualified, hQ]⟩

theorem ClassContent.copies_refill (horiginals : c'.originals = c.originals)
    (hqualified : c'.qualifiedOf r = (c.qualifiedOf r).map (.fillAll r bs)) (first second : TypeRef) :
    c'.declaredOf r = (c.declaredOf r).map (.fillAll r bs) ∧ c'.replacesOf r = c.replacesOf r ∧
      c'.copies r first second = (c.copies r first second).map (.fillAll r bs) := by
  have hdeclared : c'.declaredOf r = (c.declaredOf r).map (.fillAll r bs) := by
    rw [declaredOf, declaredOf, hqualified, filter_map_fillAll fun _ _ => rfl]
  have hreplaces : c'.replacesOf r = c.replacesOf r := by rw [replacesOf, replacesOf, horiginals]
  have hstray : c'.strayOf r first second = (c.strayOf r first second).map (.fillAll r bs) := by
    rw [strayOf, strayOf, hdeclared, filter_map_fillAll fun _ _ => rfl]
  refine ⟨hdeclared, hreplaces, ?_⟩
  rw [copies, copies, hreplaces, hstray]
  split
  · split
    · rw [map_append]
    · rfl
  · rfl

theorem AssociationContent.Shaped.length_listed (hb : b.Shaped r first second) (hk : k < b.signatures.length) :
    (b.endPaths.flatMap fun p => (b.qualifiedAt p).filter (·.Is r k)).length = 1 := by
  have hk' : k < b.receivers.length := hb.length ▸ hk
  have hone (p : String) := handed_filter (p := p) (fun i q hi => (hb.signatures
    (getElem?_eq_getElem (hb.length ▸ (List.getElem?_eq_some_iff.1 hi).1)) hi).1) (getElem?_eq_getElem hk')
    (getElem?_eq_getElem hk)
  have hreceiver := (hb.signatures (getElem?_eq_getElem hk') (getElem?_eq_getElem hk)).2
  simp only [qualifiedAt, hone]
  by_cases hself : first.path = second.path
  · have hpath : b.receivers[k].path = first.path := by
      rw [hreceiver]
      split
      · exact hself.symm
      · rfl
    rw [hb.endPaths_self hself, flatMap_singleton, if_pos hpath]
    rfl
  · rw [hb.endPaths_apart hself, flatMap_cons, flatMap_singleton, hreceiver]
    split
    · rw [if_neg (Ne.symm hself), if_pos rfl]
      rfl
    · rw [if_pos rfl]
      rfl

theorem AssociationContent.Shaped.eq_of_held (hb : b.Shaped r first second)
    (hκ : ∀ p ∈ b.endPaths, (κ p).Holds r (b.propertiesAt p) (b.qualifiedAt p)) {p' : String} {q : Property}
    (hp : p ∈ b.endPaths) (hp' : p' ∈ b.endPaths) (hq : q ∈ b.propertiesAt p) (hq' : q ∈ (κ p').propertiesOf r) :
    p = p' := by
  obtain ⟨hfirst, hsecond⟩ := type_held hb hκ
  by_cases hself : first.path = second.path
  · rw [hb.endPaths_self hself, mem_singleton] at hp hp'
    rw [hp, hp']
  · rw [hb.endPaths_apart hself, mem_cons, mem_singleton] at hp hp'
    rcases hp with rfl | rfl <;> rcases hp' with rfl | rfl
    · rfl
    · cases (hsecond q hq').symm.trans (isRef_apart (Ne.symm hself) (hb.type_propertiesAt.1 hq))
    · cases (hfirst q hq').symm.trans (isRef_apart hself (hb.type_propertiesAt.2 hq))
    · rfl

theorem ClassContent.filter_is_declaredOf (c : ClassContent) (k : Nat) :
    (c.declaredOf r).filter (·.Is r k) = (c.qualifiedOf r).filter (·.Is r k) := by
  rw [declaredOf, filter_filter]
  refine filter_congr fun q _ => ?_
  rcases his : q.Is r k with _ | _
  · rfl
  · rw [(is_iff.1 his).2]
    rfl

/-- **An association agrees with its ends** once bodies are stored with them alike. -/
theorem AssociationContent.Shaped.agrees (hb : b.Shaped r first second)
    (hκ : ∀ p ∈ b.endPaths, (κ p).Holds r (b.propertiesAt p) (b.qualifiedAt p))
    (hm : ∀ p ∈ b.endPaths, (m.classAt p).assocProperties = (κ p).assocProperties ∧
      (m.classAt p).originals = (κ p).originals ∧
      (m.classAt p).qualifiedOf r = ((κ p).qualifiedOf r).map (.fillAll r bs))
    (hproperties : a.properties =
      ((b.fromEnd r second (κ first.path)).fromEnd r first (κ second.path)).properties)
    (hqualified : a.qualified =
      ((b.fromEnd r second (κ first.path)).fromEnd r first (κ second.path)).qualified.map (.fillAll r bs)) :
    m.Agrees r (first, second) b a := by
  have hholds {p : String} (hp : p ∈ b.endPaths) := (hκ p hp).refill (hm p hp).1 (hm p hp).2.2
  have hcopies {p : String} (hp : p ∈ b.endPaths) :=
    copies_refill (hm p hp).2.1 (hm p hp).2.2 first second
  have hP : a.properties.Perm (b.endPaths.flatMap fun p =>
      if (m.classAt p).replacesOf r then (m.classAt p).propertiesOf r else b.propertiesAt p) := by
    rw [hproperties]
    refine (perm_properties_joined hb hκ).trans (.of_eq (flatMap_congr fun p hp => ?_))
    rw [(hcopies hp).2.1, propertiesOf, propertiesOf, (hm p hp).1]
  have hQ : a.qualified.Perm ((b.endPaths.flatMap fun p =>
      if (m.classAt p).replacesOf r then (m.classAt p).qualifiedOf r else (m.classAt p).declaredOf r) ++
        (m.classAt first.path).copies r first second) := by
    rw [hqualified, (hcopies hb.mem_endPaths.1).2.2]
    refine ((perm_qualified_joined hb hκ).map _).trans (.of_eq ?_)
    rw [map_append, map_flatMap]
    refine congrArg (· ++ _) (flatMap_congr fun p hp => ?_)
    rw [(hcopies hp).2.1, (hcopies hp).1, (hm p hp).2.2]
    split <;> rfl
  have hdeclared {p : String} (hp : p ∈ b.endPaths) :
      (m.classAt p).declaredOf r = (b.qualifiedAt p).map (.fillAll r bs) := by
    rw [(hcopies hp).1, (hκ p hp).declaredOf_eq hb.ordinal_qualifiedAt]
  refine ⟨hP, hQ, ⟨fun hsame p hp => or_iff_not_imp_left.2 fun hkept q hq => ?_, fun hstep => ?_⟩, fun hstep => ?_,
    fun k hk => ?_⟩
  · have hmem : q ∈ b.endPaths.flatMap fun p => (m.classAt p).propertiesOf r := by
      refine hsame.subset (hP.symm.subset (mem_flatMap.2 ⟨p, hp, ?_⟩))
      rwa [if_neg hkept]
    obtain ⟨p', hp', hq'⟩ := mem_flatMap.1 hmem
    have hheld : q ∈ (κ p').propertiesOf r := by
      rwa [propertiesOf, (hm p' hp').1] at hq'
    rw [hb.eq_of_held hκ hp hp' hq hheld]
    exact mem_of_mem_filter hq'
  · refine hP.trans (.of_eq (flatMap_congr fun p hp => ?_))
    split
    · rfl
    · rename_i hkept
      exact (((hholds hp).intact ((hstep p hp).resolve_left hkept)).1).symm
  · refine hQ.trans (.append_right _ (.of_eq (flatMap_congr fun p hp => ?_)))
    split
    · rfl
    · rename_i hkept
      rw [hdeclared hp, ((hholds hp).intact ((hstep p hp).resolve_left hkept)).2]
  · have hends : (b.endPaths.flatMap fun p => if (m.classAt p).replacesOf r then (m.classAt p).qualifiedOf r
        else (m.classAt p).declaredOf r).filter (·.Is r k) =
        (b.endPaths.flatMap fun p => (b.qualifiedAt p).filter (·.Is r k)).map (.fillAll r bs) := by
      rw [filter_flatMap, map_flatMap]
      refine flatMap_congr fun p hp => ?_
      rw [← filter_map_fillAll fun _ _ => rfl, ← hdeclared hp]
      split
      · exact (filter_is_declaredOf _ k).symm
      · rfl
    rw [(hQ.filter _).length_eq, filter_append, length_append, hends, length_map, hb.length_listed hk]

end Agreement

theorem AssociationContent.Shaped.receiver_path (hb : b.Shaped r first second)
    (hc : c.Holds r (b.propertiesAt p) (b.qualifiedAt p)) (hq : q ∈ c.qualifiedOf r) {t : TypeRef} (hk : q.Is r k = true) (ht : b.receivers[k]? = some t) : t.path = p := by
  obtain ⟨new, hQ, hnew⟩ := hc.derived
  have hordinal := (is_iff.1 hk).2
  rcases mem_append.1 (hQ ▸ hq) with hq | hq
  · obtain ⟨y, hy, rfl⟩ := mem_map.1 hq
    obtain ⟨hy, hpath⟩ := mem_filter.1 hy
    obtain ⟨i, hi⟩ := getElem?_of_mem hy
    obtain ⟨hi, hi'⟩ := getElem?_zip_eq_some.1 hi
    cases (is_iff.1 (hb.signatures hi hi').1).2.symm.trans hordinal
    cases hi.symm.trans ht
    exact of_decide_eq_true hpath
  · cases (hnew q hq).1.symm.trans hordinal

/-- **Associations and their ends agree, but for copies.** In a model that was built, an association
between classes of the document lists what its ends have from it: all of it if they are in step, and
else of an end what it was given. Each derived property that the association declares is listed once,
and once more for each copy. -/
theorem Document.associations_agree (h : (d.build o).result = .ok m) (hx : d.associations[j]? = some x) :
    ∃ b a ends, d.LinkedAt o j x b ∧ b.signatures.length = x.qualified.length ∧ b.ends = some ends ∧
      m.association? x.header.path = some a ∧ a.ends = some ends ∧
      (ends.1.path ∈ d.classPaths → ends.2.path ∈ d.classPaths → m.Agrees x.header.path ends b a) := by
  obtain ⟨u⟩ := exists_course h
  obtain ⟨as, hlinks⟩ := u.exists_links
  have hlt : j < as.length := hlinks.length ▸ (List.getElem?_eq_some_iff.1 hx).1
  have hb := getElem?_eq_getElem hlt
  generalize as[j] = b at hb
  obtain ⟨hlinked, -, hstaged⟩ := hlinks.linked hx hb
  obtain ⟨first, second, hshaped⟩ := hlinked.shaped hx
  obtain ⟨n, hgrows, hjoined⟩ := u.association_joined hx hstaged hshaped.ends
  have hclasses : Grows (within [.classType]) u.joined u.bodied :=
    u.joinedAt.grows u.bodiedAt (by decide) (fun _ => by decide) (by decide)
  have hbodied := hclasses.staged_of hjoined fun e he => by simp [Element.category?, he, within]
  obtain ⟨bs, hbs, htied, hclasses⟩ := u.association_tied hx hbodied
  have hkept := AssociationDecl.fromEnd_kept b x.header.path second (n.classAt first.path)
  have hkept' := AssociationDecl.fromEnd_kept (b.fromEnd x.header.path second (n.classAt first.path)) x.header.path first
    (n.classAt second.path)
  refine ⟨b, _, (first, second), hlinked, ?_, hshaped.ends,
    association?_of_staged? (u.staged_of_tied htied fun e he => by simp [Element.category?, he, within]),
    hkept'.1.trans (hkept.1.trans hshaped.ends), fun hfirst hsecond => ?_⟩
  · obtain ⟨_, _, -, -, hmembers⟩ := hlinked
    obtain ⟨ends, -, -, hreceivers⟩ := hmembers.ends
    rw [← hshaped.length, hreceivers, length_map]
  · have hends : ∀ p ∈ b.endPaths, p ∈ d.classPaths := hshaped.forall_endPaths hfirst hsecond
    have hsame {p : String} (hp : p ∈ d.classPaths) : n.classAt p = u.milestoned.classAt p := by
      obtain ⟨c, -, hc, -⟩ := u.class_holds hlinks hx hb hp
      rw [classAt_of_staged? hc,
        classAt_of_staged? (hgrows.staged_of hc fun e he => by simp [Element.category?, he, within])]
    have hholds : ∀ p ∈ b.endPaths,
        (u.milestoned.classAt p).Holds x.header.path (b.propertiesAt p) (b.qualifiedAt p) := by
      intro p hp
      obtain ⟨c, -, hc, hholds, -⟩ := u.class_holds hlinks hx hb (hends p hp)
      rw [classAt_of_staged? hc]
      exact hholds
    -- Classes and the association have got the same bodies.
    have hfilled : ∀ p ∈ b.endPaths, (m.classAt p).assocProperties = (u.milestoned.classAt p).assocProperties ∧
        (m.classAt p).originals = (u.milestoned.classAt p).originals ∧
        (m.classAt p).qualifiedOf x.header.path =
          ((u.milestoned.classAt p).qualifiedOf x.header.path).map (.fillAll x.header.path (bs.map (·.2))) := by
      intro p hp
      obtain ⟨c, c', hc, hholds, hc', hsettles, hassoc⟩ := u.class_holds hlinks hx hb (hends p hp)
      obtain ⟨c₁, hsettles₁, hc₁⟩ := u.class_tied hc'
      obtain ⟨c₂, hc₂, hqualified⟩ := hclasses hc'
      cases hc₁.symm.trans hc₂
      rw [classAt_of_staged? hc,
        classAt_of_staged? (u.staged_of_tied hc₁ fun e he => by simp [Element.category?, he, within])]
      refine ⟨hsettles₁.assocProperties.trans hsettles.assocProperties, hsettles₁.originals.trans hsettles.originals, ?_⟩
      have hheld : c'.qualifiedOf x.header.path = c.qualifiedOf x.header.path := by
        rw [ClassContent.qualifiedOf, ClassContent.qualifiedOf, hassoc]
      rw [hqualified, hheld]
      have hreceivers : ∀ y ∈ bs, b.receivers[y.2.1]? = some y.1 := by
        rw [← hkept.2.1, ← hkept'.2.1]
        exact hbs
      exact map_congr_left fun q hq =>
        QualifiedProperty.fillAll_bodiesAt hreceivers fun k t hk ht => hshaped.receiver_path hholds hq hk ht
    refine hshaped.agrees hholds hfilled ?_ ?_
    · rw [← hsame hfirst, ← hsame hsecond]
      rfl
    · rw [← hsame hfirst, ← hsame hsecond]
      rfl

/-- A class, a class with business dates, and an association with a derived property. -/
def Document.related (derived : QualifiedDecl) : Document :=
  { classes :=
      [{ header := { package := "m", name := "A" } },
       { header := { package := "m", name := "B" }
         annotations := { stereotypes := [{ profile := Temporal.profile, value := "businesstemporal" }] } }]
    associations :=
      [{ header := { package := "m", name := "R" }
         properties := [{ name := "a", typeName := "m::A", bounds := { lower := 1, upper := some 1 } },
           { name := "b", typeName := "m::B", bounds := { lower := 0, upper := none } }]
         qualified := [derived] }] }

/-- The derived property gives the first end. -/
def Document.relatedOwner : Document :=
  related { name := "owner", returnName := "m::A", bounds := { lower := 1, upper := some 1 }
            body := [Node.select (Node.reference "this") "a"] }

/-- The derived property gives neither end. -/
def Document.relatedLabel : Document :=
  related { name := "label", returnName := "String", bounds := { lower := 1, upper := some 1 }
            body := [.mk { tag := Node.stringTag, value := some (.string "\"x\"" "x") } [] [] [] []] }

def AssociationContent.outline (a : AssociationContent) : List String × List String :=
  (a.properties.map (·.name), a.qualified.map (·.name))

/-- The ends are in step and there are no copies, so the association lists what its ends have. -/
theorem Document.relatedOwner_agrees : ∃ m b a ends, (relatedOwner.build {}).result = .ok m ∧
    m.association? "m::R" = some a ∧ b.ends = some ends ∧ m.Agrees "m::R" ends b a ∧
    a.outline = (["a", "bAllVersions"], ["owner", "b", "bAllVersionsInRange"]) := by
  obtain ⟨m, h, a', ha', houtline, hpaths⟩ : ∃ m, (relatedOwner.build {}).result = .ok m ∧
      ∃ a, m.association? "m::R" = some a ∧
        a.outline = (["a", "bAllVersions"], ["owner", "b", "bAllVersionsInRange"]) ∧
        a.ends.map (fun e => (e.1.path, e.2.path)) = some ("m::A", "m::B") := by
    decide +kernel
  obtain ⟨b, a, ends, -, -, hb, ha, hends, hagrees⟩ := associations_agree (j := 0) h rfl
  obtain rfl := Option.some.inj (ha.symm.trans ha')
  rw [hends, Option.map_some, Option.some.injEq, Prod.mk.injEq] at hpaths
  refine ⟨m, b, a, ends, h, ha, hb, hagrees ?_ ?_, houtline⟩
  · rw [hpaths.1]
    decide
  · rw [hpaths.2]
    decide

/-- The derived property is listed twice, while the ends have it once. -/
theorem Document.relatedLabel_listed_twice : ∃ m a, (relatedLabel.build {}).result = .ok m ∧
    m.association? "m::R" = some a ∧ (a.qualified.filter (·.Is "m::R" 0)).length = 2 ∧
    (a.endPaths.flatMap fun p => ((m.classAt p).qualifiedOf "m::R").filter (·.Is "m::R" 0)).length = 1 := by
  simp only [exists_and_left]
  decide +kernel

end ModelGraph
