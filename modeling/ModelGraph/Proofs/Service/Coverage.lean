/-
# The stores that a runtime covers

A runtime is accepted if it has a connection for every store that the search through the
includes of its mappings comes upon. The search visits each mapping once, by the first
chain of includes that leads to it, and takes one substitution for a store, that of the
include nearest to the mapping. So a runtime covers the stores of every mapping that is
included, as they are along that chain; where every chain agrees on a store, it covers
what the substitutions of any chain, one after another, make of it.

Key definitions: `Model.IncludeChain`, `outward`.
Key theorems: `Model.visitStores_seen`, `Model.visitStores_reads`, `Document.runtime_covers_stores`.
-/
import ModelGraph.Proofs.Mapping.Closure

namespace ModelGraph

open Model Build Relation Search List Option Result Context

variable {r : Runtime} {e : Element} {w : List MappingInclude} {seen stores : List String}
  {a b : List String × List String} {n : Model} {p : String}

/-! ### Chains of includes -/

def Model.includeList (m : Model) (path : String) : List MappingInclude :=
  match m.mapping? path with
  | some x => x.includes
  | none => []

/-- The stores that the class mappings of a mapping read from. -/
def Model.reads (m : Model) (path : String) : List String := (m.setsOf path).flatMap fun s => s.2.stores

/-- A chain of includes from one mapping to another, the outermost first. -/
inductive Model.IncludeChain (m : Model) : String → List MappingInclude → String → Prop
  | nil (p : String) : IncludeChain m p [] p
  | cons {p k : String} {i : MappingInclude} {w : List MappingInclude} :
      i ∈ m.includeList p → IncludeChain m i.included w k → IncludeChain m p (i :: w) k

/-- What the substitutions of a chain make of a store, one after another from the
innermost include outwards. -/
def outward (w : List MappingInclude) (store : String) : String :=
  w.foldr (fun i x => substituted i.substitutions x) store

/-- The substitutions of a chain, those of the innermost include first. -/
def inwardSubstitutions (w : List MappingInclude) : List (String × String) :=
  w.reverse.flatMap (·.substitutions)

/-- What the innermost substitution for a store makes of it. -/
def nearest (w : List MappingInclude) (store : String) : String := substituted (inwardSubstitutions w) store

namespace Model

variable {m m' : Model} {p q k : String} {s : List (String × String)}

theorem includesOf_eq (m : Model) (p : String) : m.includesOf p = (m.includeList p).map (·.included) := by
  unfold includesOf includeList
  cases m.mapping? p <;> rfl

theorem IncludeChain.reach (h : m.IncludeChain p w k) : ReflTransGen (Edge m.includesOf) p k := by
  induction h with
  | nil => exact .refl
  | cons hi _ ih => exact .head (by rw [Edge, includesOf_eq]; exact mem_map_of_mem hi) ih

/-! ### The search for stores -/

def visitIncludes (m : Model) (n : Nat) (s : List (String × String)) (done : List String × List String)
    (is : List MappingInclude) : List String × List String :=
  is.foldl (fun done i => m.visitStores n (i.substitutions ++ s) done i.included) done

theorem visitStores_of_mem (n : Nat) (s : List (String × String)) (h : p ∈ seen) :
    m.visitStores n s (seen, stores) p = (seen, stores) := by
  cases n with
  | zero => rfl
  | succ n => simp [visitStores, h]

theorem visitStores_of_not_mem (n : Nat) (s : List (String × String))
    (h : p ∉ seen) : m.visitStores (n + 1) s (seen, stores) p =
      m.visitIncludes n s (p :: seen, distinct (stores ++ (m.reads p).map (substituted s)))
        (m.includeList p) := by
  simp only [visitStores, contains_eq_mem, h]
  rfl

/-- The mappings that are visited are those of a plain visit. -/
theorem visitStores_seen (m : Model) : ∀ (n : Nat) (s : List (String × String))
    (done : List String × List String) (p : String),
    (m.visitStores n s done p).1 = visit m.includesOf n done.1 p
  | 0, _, _, _ => rfl
  | n + 1, s, (seen, stores), p => by
    by_cases h : p ∈ seen
    · rw [visitStores_of_mem _ _ h, visit_of_mem _ _ h]
    · rw [visitStores_of_not_mem n s h, visit_of_not_mem _ _ h, includesOf_eq, foldl_map,
        visitIncludes]
      generalize m.includeList p = is
      generalize p :: seen = seen'
      generalize distinct (stores ++ (m.reads p).map (substituted s)) = stores'
      induction is generalizing seen' stores' with
      | nil => rfl
      | cons i is ih =>
        rw [foldl_cons, foldl_cons, ← visitStores_seen m n (i.substitutions ++ s) (seen', stores')]
        exact ih _ _

/-- What a visit adds: stores, and mappings whose stores it has read along a chain. -/
structure Reads (m : Model) (p : String) (s : List (String × String))
    (done done' : List String × List String) : Prop where
  stores : done.2 ⊆ done'.2
  visited : ∀ k ∈ done'.1, k ∈ done.1 ∨ ∃ v, m.IncludeChain p v k ∧
    ∀ x ∈ m.reads k, substituted (inwardSubstitutions v ++ s) x ∈ done'.2

theorem Reads.refl (done : List String × List String) : Reads m p s done done :=
  ⟨fun _ h => h, fun _ h => .inl h⟩

theorem Reads.trans {c : List String × List String} (h : Reads m p s a b) (h' : Reads m p s b c) :
    Reads m p s a c where
  stores := fun _ hx => h'.stores (h.stores hx)
  visited k hk := by
    rcases h'.visited k hk with hk | hv
    · rcases h.visited k hk with hk | ⟨v, hv, hx⟩
      · exact .inl hk
      · exact .inr ⟨v, hv, fun x hmem => h'.stores (hx x hmem)⟩
    · exact .inr hv

theorem Reads.through {i : MappingInclude} (hi : i ∈ m.includeList p)
    (h : Reads m i.included (i.substitutions ++ s) a b) : Reads m p s a b where
  stores := h.stores
  visited k hk := by
    refine (h.visited k hk).imp_right ?_
    rintro ⟨v, hv, hx⟩
    refine ⟨i :: v, .cons hi hv, fun x hmem => ?_⟩
    simpa [inwardSubstitutions] using hx x hmem

theorem visitIncludes_reads {n : Nat} (ih : ∀ s done p, Reads m p s done (m.visitStores n s done p)) :
    ∀ (is : List MappingInclude) (done : List String × List String), is ⊆ m.includeList p →
      Reads m p s done (m.visitIncludes n s done is)
  | [], done, _ => .refl done
  | i :: is, done, hs => by
    have hi : i ∈ m.includeList p := hs (.head _)
    exact ((ih (i.substitutions ++ s) done i.included).through hi).trans
      (visitIncludes_reads ih is _ fun x hx => hs (.tail _ hx))

theorem visitStores_reads (m : Model) : ∀ (n : Nat) (s : List (String × String))
    (done : List String × List String) (p : String), Reads m p s done (m.visitStores n s done p)
  | 0, _, done, _ => .refl done
  | n + 1, s, (seen, stores), p => by
    by_cases h : p ∈ seen
    · rw [visitStores_of_mem _ _ h]
      exact .refl _
    rw [visitStores_of_not_mem n s h]
    refine Reads.trans ⟨fun x hx => mem_distinct.2 (mem_append_left _ hx), fun k hk => ?_⟩
      (visitIncludes_reads (visitStores_reads m n) _ _ fun _ hx => hx)
    rcases mem_cons.1 hk with rfl | hk
    · exact .inr ⟨[], .nil k, fun x hx =>
        mem_distinct.2 (mem_append_right _ (mem_map_of_mem hx))⟩
    · exact .inl hk

theorem Linked.storesOf_reads (hm : m.Linked) (hk : ReflTransGen m.Includes p k) :
    ∃ v, m.IncludeChain p v k ∧ ∀ x ∈ m.reads k, nearest v x ∈ m.storesOf p := by
  have hseen : k ∈ (m.visitStores (m.elements.length + 1) [] ([], []) p).1 := by
    have := hm.mem_seen.2 hk
    rwa [visitStores_seen, ← mem_reverse, ← preorder, ← cons_includedMappings]
  rcases (m.visitStores_reads _ [] ([], []) p).visited k hseen with h | ⟨v, hv, hx⟩
  · cases h
  · refine ⟨v, hv, fun x hmem => ?_⟩
    have := hx x hmem
    rwa [append_nil] at this

end Model

/-! ### What the build checks -/

theorem Model.reaches_of_checkCoverage (h : n.checkCoverage r = .ok ()) :
    ∀ path ∈ r.mappings, ∀ x ∈ n.storesOf path, r.reaches x = true := by
  unfold checkCoverage at h
  simp only at h
  split at h
  · rename_i hempty
    intro path hpath x hx
    by_contra hr
    refine ne_nil_of_mem (a := (x, path)) (mem_flatMap.2 ⟨path, hpath, ?_⟩)
      (List.isEmpty_iff.1 hempty)
    exact mem_map.2 ⟨x, mem_filter.2 ⟨hx, by simpa using hr⟩, rfl⟩
  · cases h

theorem RuntimeDecl.build_ok {x : RuntimeDecl} {owner : String} (h : x.build (Context.of n owner) = .ok r) :
    (∀ path ∈ r.mappings, n.Has path .mapping) ∧ n.checkCoverage r = .ok () := by
  unfold build at h
  split at h
  · cases h
  obtain ⟨mappings, hm, h⟩ := bind_eq_ok.1 h
  obtain ⟨connections, -, h⟩ := bind_eq_ok.1 h
  obtain ⟨⟨⟩, hc, h⟩ := bind_eq_ok.1 h
  cases h
  refine ⟨fun path hpath => ?_, hc⟩
  obtain ⟨e, he, rfl⟩ := mem_map.1 hpath
  obtain ⟨p, -, hp⟩ := exists_of_mapM hm he
  exact (resolve_mapping hp).1

theorem RuntimeElementDecl.buildStep_effect (x : RuntimeElementDecl) :
    x.buildStep.Ensures n fun _ n' => ∃ r, x.value.build (Context.of n x.header.path) = .ok r ∧
      n' = n.setContent x.header.path (.runtime (some r)) := by
  unfold buildStep
  simp only [ensures_bind, ensures_context, ensures_liftM, ensures_modify]
  exact fun r hr => ⟨r, hr, rfl⟩

namespace Document.Trace

variable {d : Document} {o : Options} {m : Model}

theorem connected_no_runtime (t : d.Trace o m) (p : String) : ¬ t.connected.Has p .runtime := by
  rintro ⟨e, he, hc⟩
  have hgrows : Grows (within [.profile, .classType, .enumeration, .function, .measure, .unit, .association, .store,
      .mapping, .connection]) { options := o } t.connected :=
    (d.at_start o).grows t.connectedAt (by decide) (fun _ => by decide) (by decide)
  cases hgrows.unchanged he (by rw [hc]; simp [within])

theorem named_no_contents (t : d.Trace o m) (he : t.named.declared? p = some e) (r : Runtime) : e.content ≠ .runtime (some r) := by
  suffices h : ∀ p e, t.named.declared? p = some e → ∀ r, e.content ≠ .runtime (some r) from h p e he r
  refine Pass.ensures_each_keeps
    (I := fun n => ∀ p e, n.declared? p = some e → ∀ r, e.content ≠ .runtime (some r)) ?_ ?_ _ _
    t.declareRuntimes
  · intro p e he r hr
    exact t.connected_no_runtime p ⟨e, he, by simp [Element.category?, hr]⟩
  · intro x _ n hn
    unfold RuntimeElementDecl.declare
    rw [ensures_register]
    intro n' h p e he r hr
    rw [declared?_append (register_ok h).2.1] at he
    rcases hp : n.declared? p with _ | y <;> rw [hp] at he
    · split at he <;> cases he
      cases hr
    · cases he
      exact hn p e hp r hr

/-- Each runtime is what its declaration stands for in the model that it was built in, from which on
only runtimes have changed. -/
theorem runtime_built (t : d.Trace o m) (he : m.declared? p = some e) (hr : e.content = .runtime (some r)) :
    ∃ x n, x ∈ d.runtimes ∧ x.header.path = p ∧ x.value.build (Context.of n p) = .ok r ∧
      Grows (among [.runtime]) t.named n ∧ Grows (among [.runtime]) n m ∧ m.imports = n.imports := by
  rw [t.noted.declared?] at he
  have hall : Grows (among [.runtime]) t.named t.served ∧ ∀ p e r, t.served.declared? p = some e →
      e.content = .runtime (some r) → ∃ x n, x ∈ d.runtimes ∧ x.header.path = p ∧
        x.value.build (Context.of n p) = .ok r ∧ Grows (among [.runtime]) t.named n ∧
        Grows (among [.runtime]) n t.served ∧ t.served.imports = n.imports := by
    refine Pass.ensures_each_keeps (I := fun n' => Grows (among [.runtime]) t.named n' ∧
      ∀ p e r, n'.declared? p = some e → e.content = .runtime (some r) → ∃ x n, x ∈ d.runtimes ∧ x.header.path = p ∧
        x.value.build (Context.of n p) = .ok r ∧ Grows (among [.runtime]) t.named n ∧
        Grows (among [.runtime]) n n' ∧ n'.imports = n.imports)
      ⟨.refl _, fun p e r he hr => absurd hr (t.named_no_contents he r)⟩ ?_ _ _ t.buildRuntimes
    rintro x hx n' ⟨hg, hn'⟩ _ n'' hrun
    have hstep := x.buildStep_grows (hg.has (t.namedAt.kinds rfl (mem_map_of_mem hx) _ (.head _))) _ _ hrun
    obtain ⟨r', hbuild, rfl⟩ := x.buildStep_effect _ _ hrun
    refine ⟨hg.trans hstep, fun p e r he hr => ?_⟩
    rw [declared?_setContent] at he
    split at he
    · rename_i hp
      obtain ⟨y, -, rfl⟩ := map_eq_some_iff.1 he
      cases hr
      exact ⟨x, n', hx, hp.symm, hp ▸ hbuild, hg, hstep, rfl⟩
    · obtain ⟨y, n, hy, hpath, hbuilt, hnamed, hgrows, himports⟩ := hn' p e r he hr
      exact ⟨y, n, hy, hpath, hbuilt, hnamed, hgrows.trans hstep, himports⟩
  obtain ⟨x, n, hx, hpath, hbuild, hnamed, hgrows, himports⟩ := hall.2 p e r he hr
  exact ⟨x, n, hx, hpath, hbuild, hnamed, hgrows.trans t.noted.grows, t.noted.imports.trans himports⟩

theorem runtime_checked (t : d.Trace o m) (he : m.declared? p = some e) (hr : e.content = .runtime (some r)) :
    ∃ n, Grows (among [.runtime]) t.named n ∧ (∀ path ∈ r.mappings, n.Has path .mapping) ∧
      n.checkCoverage r = .ok () := by
  obtain ⟨x, n, -, -, hbuild, hgrows, -, -⟩ := t.runtime_built he hr
  exact ⟨n, hgrows, RuntimeDecl.build_ok hbuild⟩

end Document.Trace

/-! ### Coverage -/

section Congr

variable {m n : Model} (h : ∀ q, n.mapping? q = m.mapping? q)
include h

theorem Model.includeList_congr (q : String) : n.includeList q = m.includeList q := by
  rw [includeList, includeList, h]

theorem Model.reads_congr (q : String) : n.reads q = m.reads q := by
  rw [reads, reads, setsOf, setsOf, h]

theorem Model.IncludeChain.congr {k : String} (hw : n.IncludeChain p w k) : m.IncludeChain p w k := by
  induction hw with
  | nil p => exact .nil p
  | cons hi _ ih => exact .cons (includeList_congr h _ ▸ hi) ih

end Congr

/-- Whether an element is a runtime that serves a mapping. -/
def Element.serves (e : Element) (path : String) : Bool :=
  match e.content with
  | .runtime (some r) => r.mappings.contains path
  | _ => false

namespace Document

variable {d : Document} {o : Options} {m : Model}

/-- **A runtime of an accepted document covers its mappings.** Each mapping that a mapping
of the runtime includes is reached by a chain of includes along which the runtime has a
connection for every store that it reads from, put in place by the innermost
substitution. Where all chains to the mapping agree on a store with what the
substitutions of a chain make of it, one after another outwards, the runtime has a
connection for that. -/
theorem runtime_covers_stores (h : (d.build o).result = .ok m) {p : String} {e : Element} {r : Runtime}
    (he : m.declared? p = some e) (hr : e.content = .runtime (some r)) {path k : String}
    {w : List MappingInclude} (hp : path ∈ r.mappings) (hw : m.IncludeChain path w k) :
    (∃ v, m.IncludeChain path v k ∧
      ∀ s ∈ m.setsOf k, ∀ x ∈ s.2.stores, r.reaches (nearest v x) = true) ∧
    ∀ s ∈ m.setsOf k, ∀ x ∈ s.2.stores,
      (∀ v, m.IncludeChain path v k → nearest v x = outward w x) → r.reaches (outward w x) = true := by
  obtain ⟨t⟩ := exists_trace h
  obtain ⟨n, hgrows, hhas, hcheck⟩ := t.runtime_checked he hr
  have htable : ∀ q, n.mapping? q = m.mapping? q := fun q => by
    have hlate : Grows (within [.runtime]) t.named m := t.grows t.namedAt (by decide) (fun _ => by decide) (by decide)
    rw [hgrows.mapping? (by simp [among]), hlate.mapping? (by simp [within])]
  have hlinked : n.Linked := fun x y hxy => by
    unfold Includes at hxy
    rw [includesOf_eq, includeList_congr htable, ← includesOf_eq] at hxy
    rw [has_mapping, htable, ← has_mapping]
    exact t.linked_final x y hxy
  obtain ⟨v, hv, hreads⟩ := hlinked.storesOf_reads
    (IncludeChain.congr (fun q => (htable q).symm) hw).reach
  have hcover : ∀ s ∈ m.setsOf k, ∀ x ∈ s.2.stores, r.reaches (nearest v x) = true := fun s hs x hx =>
    reaches_of_checkCoverage hcheck path hp _ (hreads x (by
      rw [reads_congr htable]
      exact mem_flatMap.2 ⟨s, hs, hx⟩))
  refine ⟨⟨v, hv.congr htable, hcover⟩, fun s hs x hx hagree => ?_⟩
  rw [← hagree v (hv.congr htable)]
  exact hcover s hs x hx

/-- A class read from a database, in a mapping that another includes with a second
database in place of the first, and a runtime that connects to the second. -/
def substitutedStore : Document :=
  { classes := [{ header := { package := "m", name := "P" } }]
    extensions := [database "D", database "E"]
    mappings :=
      [{ header := { package := "m", name := "K" }
         classMappings := [.mk { tag := "relational", className := "m::P", id := "p", raw := set } none []] },
       { header := { package := "m", name := "M" }
         includes := [{ mapping := "m::K", sourceStore := "m::D", targetStore := "m::E" }] }]
    runtimes :=
      [{ header := { package := "m", name := "R" }
         value :=
           { mappings := [{ path := "m::M" }]
             connections :=
               [{ store := { path := "m::E" }
                  connections :=
                    [{ connection := { tag := "RelationalDatabaseConnection", element := "m::E",
                                       raw := connection } }] }] } }] }
where
  text (s : String) : Json := .string s s
  database (name : String) : ExtensionDecl :=
    { tag := "relational"
      header := { package := "m", name }
      raw := .object "" [("schemas", .array "" [.object "" [("name", text "default"),
        ("tables", .array "" [.object "" [("name", text "T")]])]])] }
  set : Json := .object "" [("mainTable", .object "" [("database", text "m::D"),
    ("schema", text "default"), ("table", text "T")])]
  connection : Json := .object "" [("type", text "H2"),
    ("datasourceSpecification", .object "" [("_type", text "static")])]
  step : MappingInclude := { included := "m::K", owner := "m::M", substitutions := [("m::D", "m::E")] }

theorem checkExtensions_of_acyclic {m : Model} (he : m.options.extensions = [.relational])
    (hw : ∀ e ∈ m.elements, walkBack? m.databaseIncludes (m.elements.length + 1) e.path = none) :
    checkExtensions m = .ok ((), m) := by
  have h : Relational.checkIncludes m = .ok ((), m) := by
    unfold Relational.checkIncludes
    simp only
    rw [findSome?_eq_none_iff.2]
    intro e hmem
    rw [hw e (mem_filter.1 (mem_mergeSort.1 hmem)).1]
    rfl
  unfold checkExtensions
  show (m.options.extensions.forM _ : Build Unit) m = _
  rw [he]
  show (Relational.checkIncludes >>= fun _ => pure () : Build Unit) m = _
  rw [bind_run, h]
  rfl

/-- What the last pass finds is what the passes before it leave: a document is built if they run and no
database includes another. -/
theorem exists_build_of_acyclic {P : Model → Prop} (h : ∃ m,
    (runPasses (d.passes { extensions := [.relational] }).dropLast { options := { extensions := [.relational] } }).result =
      .ok m ∧ P m ∧ m.options.extensions = [.relational] ∧
      ∀ e ∈ m.elements, walkBack? m.databaseIncludes (m.elements.length + 1) e.path = none) :
    ∃ m, (d.build { extensions := [.relational] }).result = .ok m ∧ P m := by
  have hpasses : d.passes { extensions := [.relational] } = (d.passes { extensions := [.relational] }).dropLast ++
      [.whole "validators.extensions" 1 checkExtensions] := rfl
  obtain ⟨m, hm, hP, hextensions, hwalk⟩ := h
  refine ⟨m, ?_, hP⟩
  rw [build, runPasses_result, hpasses, runs_append]
  exact ⟨m, (runPasses_result _ _).1 hm, m, checkExtensions_of_acyclic hextensions hwalk, rfl⟩

theorem substitutedStore_covered : ∃ m e r w,
    (substitutedStore.build { extensions := [.relational] }).result = .ok m ∧
    m.declared? "m::R" = some e ∧ e.content = .runtime (some r) ∧ "m::M" ∈ r.mappings ∧
    m.IncludeChain "m::M" w "m::K" ∧ (m.setsOf "m::K").map (·.2.stores) = [["m::D"]] ∧
    outward w "m::D" = "m::E" ∧
    (∃ v, m.IncludeChain "m::M" v "m::K" ∧
      ∀ s ∈ m.setsOf "m::K", ∀ x ∈ s.2.stores, r.reaches (nearest v x) = true) ∧
    ∀ s ∈ m.setsOf "m::K", ∀ x ∈ s.2.stores,
      (∀ v, m.IncludeChain "m::M" v "m::K" → nearest v x = outward w x) → r.reaches (outward w x) = true := by
  obtain ⟨m, hok, hfacts⟩ := exists_build_of_acyclic (d := substitutedStore)
    (P := fun m => m.includeList "m::M" = [substitutedStore.step] ∧
      (m.setsOf "m::K").map (·.2.stores) = [["m::D"]] ∧ ∃ e, m.declared? "m::R" = some e ∧ e.serves "m::M" = true)
    (by decide +kernel)
  obtain ⟨hincludes, hsets, e, he, hmatch⟩ := hfacts
  unfold Element.serves at hmatch
  split at hmatch
  swap
  · cases hmatch
  rename_i r hr
  have hp : "m::M" ∈ r.mappings := by simpa using hmatch
  have hw : m.IncludeChain "m::M" [substitutedStore.step] "m::K" :=
    .cons (by rw [hincludes]; exact .head _) (.nil _)
  exact ⟨m, e, r, _, hok, he, hr, hp, hw, hsets, by decide, runtime_covers_stores hok he hr hp hw⟩

end Document
end ModelGraph
