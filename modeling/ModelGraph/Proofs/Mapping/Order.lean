/-
# Passes over mappings in any order

The steps of a pass over mappings keep to their own mappings: each reads its own mapping
and a part of the others that no step of the pass changes. Two such steps come to the same
either way round, and so do all in any order. Linking is such a step up to its checks,
which see the references of the mappings that were linked before.

Key definitions: `MappingDecl.Local`, `MappingDecl.Apart`.
Key theorems: `MappingDecl.Local.simulates_perm`, `MappingDecl.declare_simulates_perm`,
`MappingDecl.linkPass_perm`.
-/
import ModelGraph.Proofs.Mapping.Links

namespace ModelGraph

open Option Pass

open List hiding get

open Model Build Relation

variable {γ : Type} {m m' k : Model} {name : String} {as bs : List MappingDecl} {a b d : MappingDecl}

/-! ### Steps that keep to their own mapping -/

/-- A step that reads its own mapping and a part of the others, and changes its own mapping
but for that part. -/
structure MappingDecl.Local (step : MappingDecl → Build Unit) (part : Mapping → γ) : Prop where
  simulates : ∀ a, Simulates (LikeIn (own a.header.path part)) (step a) (step a)
  keeps : ∀ a m, (step a).Ensures m fun _ m' => m.LikeIn (fun _ => part) m' ∧
    ∀ q, q ≠ a.header.path → m'.mapping? q = m.mapping? q

namespace MappingDecl.Local

variable {step : MappingDecl → Build Unit} {part : Mapping → γ}

section

variable (h : Local step part)
include h

/-- Such a step goes through from a model with the same mappings. -/
theorem same (a : MappingDecl) : Simulates Same (step a) (step a) := by
  intro m k hm _ n hn
  have hown : m.LikeIn (own a.header.path part) k :=
    (hm.likeIn part).own (hm.mapping? _)
  obtain ⟨n', hn', hlike⟩ := h.simulates a hown _ _ hn
  refine ⟨n', hn', hlike.toLike.same hlike.options fun q => ?_⟩
  by_cases hq : q = a.header.path
  · rw [hq, hlike.mapping?_own]
  · rw [(h.keeps a k _ _ hn').2 q hq, (h.keeps a m _ _ hn).2 q hq, hm.mapping?]

theorem swap (hab : a.header.path ≠ b.header.path) :
    Simulates Same (step a >>= fun _ => step b) (step b >>= fun _ => step a) := by
  intro m k hm
  rw [ensures_bind]
  rintro _ n₁ ha _ n₂ hb
  have keepa := h.keeps a m _ _ ha
  have keepb := h.keeps b n₁ _ _ hb
  have hpart := hm.likeIn part
  -- The second step does not see that the first one was not taken.
  obtain ⟨k₁, hb', hlikeb⟩ := h.simulates b ((keepa.1.symm.trans hpart).own
    (by rw [hm.mapping?, keepa.2 _ hab.symm])) _ _ hb
  have keepb' := h.keeps b k _ _ hb'
  obtain ⟨k₂, ha', hlikea⟩ := h.simulates a ((hpart.trans keepb'.1).own
    (by rw [keepb'.2 _ hab, hm.mapping?])) _ _ ha
  have keepa' := h.keeps a k₁ _ _ ha'
  refine ⟨k₂, by rw [bind_run, hb']; exact ha', ?_⟩
  have hlike : n₂.Like k₂ := keepb.1.toLike.symm.trans hlikea.toLike
  refine hlike.same (hlikea.options.trans keepb.1.options.symm) fun q => ?_
  by_cases hqa : q = a.header.path
  · rw [hqa, hlikea.mapping?_own, keepb.2 _ hab]
  · rw [keepa'.2 q hqa]
    by_cases hqb : q = b.header.path
    · rw [hqb, hlikeb.mapping?_own]
    · rw [keepb'.2 q hqb, keepb.2 q hqb, keepa.2 q hqa, hm.mapping?]

/-- **A pass of such steps over mappings may take them in any order.** -/
theorem simulates_perm (hperm : as.Perm bs) (hnodup : (as.map (·.header.path)).Nodup) :
    Simulates Same (each name as (·.header) step).run (each name bs (·.header) step).run :=
  simulates_each_perm .refl .trans hperm hnodup.of_map (fun a _ => h.same a) fun _ ha _ hb hne =>
    h.swap fun hpath => hne (inj_on_of_nodup_map hnodup ha hb hpath)

theorem each_keeps : (each name as (·.header) step).run.Ensures m fun _ m' =>
    m.LikeIn (fun _ => part) m' ∧ ∀ q, q ∉ as.map (·.header.path) → m'.mapping? q = m.mapping? q := by
  refine ensures_each (J := fun (done : List MappingDecl) n => m.LikeIn (fun _ => part) n ∧
    ∀ q, q ∉ done.map (·.header.path) → n.mapping? q = m.mapping? q) ⟨.refl m, fun _ _ => rfl⟩ ?_
  rintro done a rest - n ⟨hlike, hothers⟩
  refine (h.keeps a n).mono fun _ n' hn' => ⟨hlike.trans hn'.1, fun q hq => ?_⟩
  rw [map_append, mem_append, not_or] at hq
  rw [hn'.2 q fun hqa => hq.2 (by simp [hqa]), hothers q hq.1]

end

end MappingDecl.Local

/-! ### Declarations -/

/-- No mapping stands on the way to another one in the package tree. -/
def MappingDecl.Apart (as : List MappingDecl) : Prop :=
  ∀ a ∈ as, ∀ b ∈ as, a.header.route <+: b.header.route → a.header.path = b.header.path

theorem MappingDecl.declare_simulates_perm (hperm : as.Perm bs) (hnodup : (as.map (·.header.path)).Nodup)
    (hapart : Apart as) :
    Simulates Same (each name as (·.header) declare).run (each name bs (·.header) declare).run := by
  refine simulates_each_perm .refl .trans hperm hnodup.of_map
    (fun a _ => (Made.register a.header (.mapping {}) {}).simulates) fun a ha b hb hne => ?_
  have hpath : a.header.path ≠ b.header.path := fun hpath =>
    hne (inj_on_of_nodup_map hnodup ha hb hpath)
  intro m k hm
  rw [ensures_bind, declare, declare, ensures_register]
  intro n hn
  rw [ensures_register]
  intro n' hn'
  obtain ⟨l, l', hl, hl', hlike⟩ := register_comm (fun h => hpath (hapart a ha b hb h))
    (fun h => hpath (hapart b hb a ha h).symm) hn hn'
  obtain ⟨k₁, hk₁, hlike₁⟩ := hm.register hl
  obtain ⟨k₂, hk₂, hlike₂⟩ := hlike₁.register hl'
  refine ⟨k₂, ?_, hlike.trans hlike₂⟩
  rw [bind_run, Build.register, hk₁]
  simp only [Except.map, Build.register, hk₂]

/-! ### Links and checks -/

namespace MappingDecl

theorem structureStep_local : Local structureStep fun _ => () :=
  ⟨fun a => a.structureStep_made.simulates, fun a _ => a.structureStep_keeps⟩

theorem setsStep_local : Local setsStep Mapping.frame :=
  ⟨fun a => a.setsStep_made.simulates, fun a _ => a.setsStep_keeps⟩

def link (d : MappingDecl) : Build Unit := d.linkSets >>= fun _ => pure ()

theorem link_ok : d.link m = .ok ((), m') ↔ ∃ sets, d.linkSets m = .ok (sets, m') := by
  rw [link, bind_run]
  rcases d.linkSets m with f | ⟨sets, n⟩
  · simp
  · change Except.ok ((), n) = Except.ok ((), m') ↔ _
    simp

theorem link_local : Local link Mapping.gist where
  simulates a := a.linkSets_made.simulates.bind fun _ => simulates_pure _
  keeps a m _ m' h := by
    obtain ⟨sets, hsets⟩ := link_ok.1 h
    obtain ⟨_, _, _, hlike, htable⟩ := a.linkSets_table _ _ hsets
    exact ⟨hlike, fun q hq => by rw [htable, if_neg hq]⟩

/-- The class mappings of a mapping pass their checks. -/
def Fits (d : MappingDecl) (n : Model) : Prop :=
  ∀ x, n.mapping? d.header.path = some x → ∀ s ∈ x.sets, n.checkSet d.header.path s = .ok ()

theorem fits_iff {sets : List SetImplementation} (h : d.linkSets m = .ok (sets, m')) :
    d.Fits m' ↔ sets.forM (m'.checkSet d.header.path) = .ok () := by
  obtain ⟨assocMappings, tests, hsets, -, htable⟩ := d.linkSets_table _ _ h
  rw [Result.forM_eq_ok, Fits, htable]
  rcases hx : m.mapping? d.header.path with _ | x
  · rw [setsOf, hx] at hsets
    cases hsets
    simp
  · simp

theorem linkStep_ok : d.linkStep m = .ok ((), m') ↔ d.link m = .ok ((), m') ∧ d.Fits m' := by
  constructor
  · intro h
    rw [linkStep_eq, bind_run] at h
    rcases hlink : d.linkSets m with f | ⟨sets, n⟩ <;> rw [hlink] at h
    · cases h
    have hcheck : (get >>= fun n => liftM (sets.forM (n.checkSet d.header.path) : Result Unit) : Build Unit).Ensures n
        fun _ n' => n' = n ∧ sets.forM (n.checkSet d.header.path) = .ok () := by
      rw [ensures_bind, ensures_get, ensures_liftM]
      exact fun _ h => ⟨rfl, h⟩
    obtain ⟨rfl, hforM⟩ := hcheck _ _ h
    exact ⟨link_ok.2 ⟨sets, hlink⟩, (fits_iff hlink).2 hforM⟩
  · rintro ⟨hlink, hfits⟩
    obtain ⟨sets, hlink⟩ := link_ok.1 hlink
    rw [linkStep_eq, bind_run, hlink]
    change (liftM (sets.forM (m'.checkSet d.header.path)) : Build Unit) m' = _
    rw [(fits_iff hlink).1 hfits]
    rfl

/-- Mappings are linked and checked one by one just if they are linked, and each one fits
once it is linked. -/
theorem linkPass_ok : ∀ {as : List MappingDecl} {m : Model},
    (each name as (·.header) linkStep).run m = .ok ((), m') ↔
      (each name as (·.header) link).run m = .ok ((), m') ∧
      ∀ before a after, as = before ++ a :: after → ∀ n,
        (each name (before ++ [a]) (·.header) link).run m = .ok ((), n) → a.Fits n
  | [], m => by
    refine (and_iff_left_of_imp fun _ before a after h => ?_).symm
    cases before <;> cases h
  | b :: as, m => by
    rw [each_cons, each_cons]
    constructor
    · rintro ⟨n₁, hb, hrest⟩
      rw [linkStep_ok] at hb
      rw [linkPass_ok] at hrest
      refine ⟨⟨n₁, hb.1, hrest.1⟩, fun before a after h n hn => ?_⟩
      cases before with
      | nil =>
        cases h
        obtain ⟨n', hn', hnil⟩ := each_cons.1 hn
        cases hb.1.symm.trans hn'
        cases hnil
        exact hb.2
      | cons c before =>
        cases h
        obtain ⟨n', hn', hn⟩ := each_cons.1 hn
        cases hb.1.symm.trans hn'
        exact hrest.2 before a after rfl n hn
    · rintro ⟨⟨n₁, hb, hrest⟩, hfits⟩
      have hone : (each name ([] ++ [b]) (·.header) link).run m = .ok ((), n₁) :=
        each_cons.2 ⟨n₁, hb, rfl⟩
      refine ⟨n₁, linkStep_ok.2 ⟨hb, hfits [] b as rfl n₁ hone⟩, linkPass_ok.2 ⟨hrest, ?_⟩⟩
      intro before a after h n hn
      exact hfits (b :: before) a after (by rw [h]; rfl) n (each_cons.2 ⟨n₁, hb, hn⟩)

def IncludedFirst (as : List MappingDecl) (m : Model) : Prop :=
  ∀ before a after, as = before ++ a :: after → ∀ q, m.Includes a.header.path q →
    q ∈ before.map (·.header.path)

theorem IncludedFirst.mem_of_reaches (h : IncludedFirst as m) {before after : List MappingDecl}
    (has : as = before ++ a :: after) {q : String} (hq : ReflTransGen m.Includes a.header.path q) :
    q ∈ (before ++ [a]).map (·.header.path) := by
  induction hq with
  | refl => simp
  | tail _ hedge ih =>
    obtain ⟨b, hb, rfl⟩ := mem_map.1 ih
    obtain ⟨early, late, hsplit⟩ := append_of_mem hb
    have has' : as = early ++ b :: (late ++ after) := by
      rw [has, append_cons, hsplit, append_assoc, cons_append]
    have hmem := h early b _ has' _ hedge
    rw [hsplit, map_append]
    exact mem_append_left _ hmem

theorem linkPass_refers (h : m.Unlinked) : (each name as (·.header) link).run.Ensures m fun _ m' =>
    m'.RefersWithin (· ∈ as.map (·.header.path)) := by
  refine ensures_each (J := fun (done : List MappingDecl) n =>
    n.RefersWithin (· ∈ done.map (·.header.path))) (h.refersWithin _) fun done a rest _ n hn _ n' hn' => ?_
  obtain ⟨sets, hsets⟩ := link_ok.1 hn'
  intro q x hx s hs r hr
  obtain ⟨hq, hreach⟩ := a.linkSets_refers hn _ _ hsets q x hx s hs r hr
  exact ⟨by simpa [or_comm] using hq, hreach⟩

/-- A mapping that fits in one model does so in another, if that one has references from
linked mappings only and these mappings are as in the first one. -/
theorem Fits.of_refers {n : Model} {linked : String → Prop} (h : b.Fits n)
    (hlike : n.LikeIn (fun _ => Mapping.gist) k) (hown : k.mapping? b.header.path = n.mapping? b.header.path)
    (hrefers : k.RefersWithin linked)
    (hlinked : ∀ q, ReflTransGen n.Includes b.header.path q → linked q → k.mapping? q = n.mapping? q) : b.Fits k := by
  have hleads : ∀ x y, ReflTransGen n.Includes b.header.path x.mapping → k.Leads x y →
      n.Leads x y ∧ ReflTransGen n.Includes b.header.path y.mapping := by
    intro x y hx hxy
    obtain ⟨s, hs, hy, hsome⟩ := hxy.exists_mem
    obtain ⟨z, hz, hget⟩ := bind_eq_some_iff.1 hs
    obtain ⟨hl, hreach⟩ := hrefers _ z hz s (mem_of_getElem? hget) y hy
    rw [Sees.includes hlike] at hreach
    have hs' : n.setAt? x = some s := by rw [setAt?, ← hlinked _ hx hl, ← setAt?, hs]
    have hsome' : (n.setAt? y).isSome := by
      rw [← isSome_map, ← Sees.setAt? hlike, isSome_map, hsome]
    exact ⟨leads_of_mem hs' hy hsome', hx.trans hreach⟩
  intro x hx s hs
  exact checkSet_of_subset hlike.isSubType (fun p u hu => Sees.expectedTypes_subset hlike hleads hu)
    (h x (hown ▸ hx) s hs)

/-- **Mappings can be linked in any order, if they can in one where includes come first.**
The later a mapping is linked, the more references there are that its checks follow; in such
an order they follow all that there will be. -/
theorem linkPass_perm (hperm : as.Perm bs) (hnodup : (as.map (·.header.path)).Nodup)
    (hfirst : IncludedFirst as m) (hunlinked : m.Unlinked) (hm : m.Same k)
    (hrun : (each name as (·.header) linkStep).run m = .ok ((), m')) :
    ∃ k', (each name bs (·.header) linkStep).run k = .ok ((), k') ∧ m'.Same k' := by
  obtain ⟨hlink, hfits⟩ := linkPass_ok.1 hrun
  obtain ⟨k', hlink', hsame⟩ := link_local.simulates_perm hperm hnodup hm _ _ hlink
  refine ⟨k', linkPass_ok.2 ⟨hlink', fun before' b after' hbs k₁ hk₁ => ?_⟩, hsame⟩
  obtain ⟨before, after, has⟩ := append_of_mem
    (hperm.mem_iff.2 (hbs ▸ mem_append_right _ (.head _)) : b ∈ as)
  -- What is linked by then stays as it is, on either side.
  have kept {l r : List MappingDecl} {m₀ m₁ m₂ : Model} (hl : ((l ++ r).map (·.header.path)).Nodup)
      (h₁ : (each name l (·.header) link).run m₀ = .ok ((), m₁))
      (h₂ : (each name (l ++ r) (·.header) link).run m₀ = .ok ((), m₂)) :
      ∀ q ∈ l.map (·.header.path), m₂.mapping? q = m₁.mapping? q := by
    intro q hq
    obtain ⟨m₁', h₁', hr⟩ := each_append.1 h₂
    cases h₁.symm.trans h₁'
    rw [map_append] at hl
    exact (link_local.each_keeps _ _ hr).2 q fun hq' => (nodup_append.1 hl).2.2 q hq q hq' rfl
  have hbs' : bs = (before' ++ [b]) ++ after' := by rw [hbs, append_cons]
  have has' : as = (before ++ [b]) ++ after := by rw [has, append_cons]
  have hnodup' : (bs.map (·.header.path)).Nodup := (hperm.map _).nodup_iff.1 hnodup
  rw [hbs'] at hlink' hnodup'
  rw [has'] at hlink hnodup
  obtain ⟨n, hn, -⟩ := each_append.1 hlink
  have keptn := kept hnodup hn hlink
  have keptk := kept hnodup' hk₁ hlink'
  have hlike : n.LikeIn (fun _ => Mapping.gist) k₁ :=
    (link_local.each_keeps _ _ hn).1.symm.trans ((hm.likeIn _).trans
      (link_local.each_keeps _ _ hk₁).1)
  have hunlinked' : k.Unlinked := fun q x hx => hunlinked q x (hm.mapping? q ▸ hx)
  have hagree : ∀ q ∈ (before ++ [b]).map (·.header.path), q ∈ (before' ++ [b]).map (·.header.path) →
      k₁.mapping? q = n.mapping? q := fun q hq hq' => by rw [← keptk q hq', hsame.mapping?, keptn q hq]
  refine (hfits before b after has n hn).of_refers hlike (hagree _ (by simp) (by simp))
    (linkPass_refers hunlinked' _ _ hk₁) fun q hq hl => hagree q (hfirst.mem_of_reaches has ?_) hl
  rwa [← Sees.includes (link_local.each_keeps _ _ hn).1]

end MappingDecl
end ModelGraph
