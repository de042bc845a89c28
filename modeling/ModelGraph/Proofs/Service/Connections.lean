/-
# The stores that connections are for

A runtime lists connections under stores. The ids of its connections are distinct over all stores.
A pointer leads to a connection that is for the store it is listed under. A connection that is
written out in the runtime is for the store that it names itself: a database, or else the store of
model instances. Nothing holds that against the store that it is listed under, so the connections
under a store are all for it just if those that are written out name it.

Key definitions: `ConnectionDecl.namedStore`, `IdentifiedConnectionDecl.Listed`.
Key theorems: `ConnectionDecl.build_ok`, `RuntimeDecl.buildStores_ok`, `Document.connections_by_store`.
-/
import ModelGraph.Proofs.Service.Coverage

namespace ModelGraph

open Model Build List Result

/-- The store that a connection names if it is written out: a database, or else that of model
instances. -/
def ConnectionDecl.namedStore (d : ConnectionDecl) (c : Context) : Result String :=
  if d.tag = Relational.connectionTag then (c.resolve .store d.element (d.elementSpan.orElse d.span)).map (·.path)
  else .ok modelStorePath

def StoreConnectionsDecl.namedStore (g : StoreConnectionsDecl) (c : Context) : Result String :=
  (c.resolve .store g.store.path (g.store.span.orElse g.span)).map (·.path)

structure IdentifiedConnectionDecl.Listed (y : IdentifiedConnectionDecl) (c : Context) (store : String)
    (x : String × Connection) : Prop where
  id : x.1 = y.id
  /-- A pointer leads to the connection of an element, which is for the store. -/
  pointer : y.connection.tag = ConnectionDecl.pointerTag → x.2.store = store ∧
    ∃ e, c.resolve .connection y.connection.connection y.connection.span = .ok e ∧ e.content = .connection (some x.2)
  /-- A connection that is written out is for the store that it names. -/
  written : y.connection.tag ≠ ConnectionDecl.pointerTag → y.connection.namedStore c = .ok x.2.store

/-- Connections as they are listed under the store of their declaration. -/
structure StoreConnectionsDecl.Lists (g : StoreConnectionsDecl) (c : Context) (s : StoreConnections) : Prop where
  store : g.namedStore c = .ok s.store
  connections : Forall₂ (fun y x => IdentifiedConnectionDecl.Listed y c s.store x) g.connections s.connections

def StoreConnections.ids (ss : List StoreConnections) : List String := ss.flatMap fun s => s.connections.map (·.1)

variable {c c' : Context} {x : Connection} {store : String} {used : List String} {g : StoreConnectionsDecl}
  {s : StoreConnections}

/-! ### Connections -/

theorem Relational.buildConnection_store {d : ConnectionDecl} (h : buildConnection c d = .ok x) :
    (c.resolve .store d.element (d.elementSpan.orElse d.span)).map (·.path) = .ok x.store := by
  unfold buildConnection at h
  split at h
  · cases h
  obtain ⟨store, hstore, h⟩ := bind_eq_ok.1 h
  rw [hstore]
  dsimp only at h
  split at h
  · cases h
  split at h
  · cases h
  split at h
  · cases h
  cases h
  rfl

/-- **What a connection is built from.** -/
theorem ConnectionDecl.build_ok {d : ConnectionDecl} (h : d.build c = .ok x) :
    (d.tag = pointerTag → ∃ e, c.resolve .connection d.connection d.span = .ok e ∧ e.content = .connection (some x)) ∧
      (d.tag ≠ pointerTag → d.namedStore c = .ok x.store) := by
  have hmodel (htag : d.tag ∈ [jsonTag, xmlTag, chainTag]) (hstore : x.store = modelStorePath) :
      (d.tag = pointerTag → ∃ e, c.resolve .connection d.connection d.span = .ok e ∧ e.content = .connection (some x)) ∧
        (d.tag ≠ pointerTag → d.namedStore c = .ok x.store) := by
    have htags : ∀ tag ∈ [jsonTag, xmlTag, chainTag], tag ≠ pointerTag ∧ tag ≠ Relational.connectionTag := by decide
    obtain ⟨hpointer, hrelational⟩ := htags d.tag htag
    refine ⟨fun htag => absurd htag hpointer, fun _ => ?_⟩
    rw [namedStore, if_neg hrelational, hstore]
  unfold build at h
  split at h
  · rename_i htag
    obtain ⟨_, -, h⟩ := bind_eq_ok.1 h
    obtain ⟨t, -, h⟩ := bind_eq_ok.1 h
    cases h
    refine hmodel ?_ rfl
    simp only [Bool.or_eq_true, decide_eq_true_eq] at htag
    rcases htag with htag | htag <;> simp [htag]
  split at h
  · rename_i htag
    obtain ⟨_, -, h⟩ := bind_eq_ok.1 h
    obtain ⟨mappings, -, h⟩ := bind_eq_ok.1 h
    cases h
    exact hmodel (by simp [htag]) rfl
  split at h
  · rename_i htag
    obtain ⟨e, he, h⟩ := bind_eq_ok.1 h
    refine ⟨fun _ => ⟨e, he, ?_⟩, fun hne => absurd htag hne⟩
    split at h
    · rename_i found hcontent
      cases h
      exact hcontent
    · cases h
  split at h
  · rename_i hpointer htag
    simp only [Bool.and_eq_true, decide_eq_true_eq] at htag
    refine ⟨fun hne => absurd hne hpointer, fun _ => ?_⟩
    rw [namedStore, if_pos htag.1]
    exact Relational.buildConnection_store h
  · cases h

theorem IdentifiedConnectionDecl.build_ok {y : IdentifiedConnectionDecl}
    {x : String × Connection} (h : y.build c store used = .ok x) : y.id ∉ used ∧ y.Listed c store x := by
  unfold build at h
  split at h
  · cases h
  rename_i hfresh
  obtain ⟨connection, hconnection, h⟩ := bind_eq_ok.1 h
  obtain ⟨hpointer, hwritten⟩ := ConnectionDecl.build_ok hconnection
  split at h
  · cases h
  rename_i hstore
  cases h
  refine ⟨fun hid => hfresh (contains_iff_mem.2 hid), rfl, fun htag => ⟨?_, hpointer htag⟩, hwritten⟩
  by_contra hne
  exact hstore (by simp [htag, hne])

namespace RuntimeDecl

theorem buildConnections_ok : ∀ {ys : List IdentifiedConnectionDecl}
    {done xs : List (String × Connection)}, buildConnections c store used ys done = .ok xs →
    (used ++ done.map (·.1)).Nodup → ∃ new, xs = done ++ new ∧
      Forall₂ (fun y x => IdentifiedConnectionDecl.Listed y c store x) ys new ∧ (used ++ xs.map (·.1)).Nodup
  | [], done, xs, h, hnodup => by
    cases h
    exact ⟨[], (append_nil _).symm, .nil, hnodup⟩
  | y :: ys, done, xs, h, hnodup => by
    unfold buildConnections at h
    obtain ⟨x, hx, h⟩ := bind_eq_ok.1 h
    obtain ⟨hfresh, hlisted⟩ := IdentifiedConnectionDecl.build_ok hx
    have hnext : (used ++ (done ++ [x]).map (·.1)).Nodup := by
      rw [map_append, ← append_assoc, map_singleton, hlisted.id]
      refine nodup_append.2 ⟨hnodup, nodup_singleton _, fun a ha b hb hab => hfresh ?_⟩
      rwa [← mem_singleton.1 hb, ← hab]
    obtain ⟨new, rfl, hnew, hids⟩ := buildConnections_ok h hnext
    exact ⟨x :: new, append_assoc .., .cons hlisted hnew, hids⟩

/-- **The connections of a runtime.** Each store has those of its declaration, and ids are distinct
over all stores. -/
theorem buildStores_ok : ∀ {gs : List StoreConnectionsDecl} {done ss : List StoreConnections},
    buildStores c gs done = .ok ss → (StoreConnections.ids done).Nodup → ∃ new, ss = done ++ new ∧
      Forall₂ (fun g s => StoreConnectionsDecl.Lists g c s) gs new ∧ (StoreConnections.ids ss).Nodup
  | [], done, ss, h, hnodup => by
    cases h
    exact ⟨[], (append_nil _).symm, .nil, hnodup⟩
  | g :: gs, done, ss, h, hnodup => by
    obtain ⟨store, hstore, h⟩ := bind_eq_ok.1 h
    obtain ⟨connections, hconnections, h⟩ := bind_eq_ok.1 h
    obtain ⟨new, hnew, hlisted, hids⟩ := buildConnections_ok hconnections (by rwa [map_nil, append_nil])
    subst hnew
    have hnext : (StoreConnections.ids (done ++ [{ store := store.path, connections }])).Nodup := by
      rw [StoreConnections.ids, flatMap_append, flatMap_singleton]
      exact hids
    obtain ⟨rest, rfl, hrest, hall⟩ := buildStores_ok h hnext
    refine ⟨_ :: rest, append_assoc .., .cons ⟨?_, hlisted⟩ hrest, hall⟩
    rw [StoreConnectionsDecl.namedStore, hstore]
    rfl

theorem build_lists {x : RuntimeDecl} {r : Runtime} (h : x.build c = .ok r) :
    Forall₂ (fun g s => StoreConnectionsDecl.Lists g c s) x.connections r.connections ∧
      (StoreConnections.ids r.connections).Nodup := by
  unfold build at h
  split at h
  · cases h
  obtain ⟨mappings, -, h⟩ := bind_eq_ok.1 h
  obtain ⟨connections, hconnections, h⟩ := bind_eq_ok.1 h
  obtain ⟨_, -, h⟩ := bind_eq_ok.1 h
  cases h
  obtain ⟨new, hnew, hlists, hids⟩ := buildStores_ok hconnections .nil
  subst hnew
  exact ⟨hlists, hids⟩

end RuntimeDecl

/-! ### Contexts that find the same -/

section Congr

variable (hstore : c'.resolve .store = c.resolve .store) (hconnection : c'.resolve .connection = c.resolve .connection)
include hstore

theorem ConnectionDecl.namedStore_congr (d : ConnectionDecl) : d.namedStore c' = d.namedStore c := by
  rw [namedStore, namedStore, hstore]

include hconnection

theorem StoreConnectionsDecl.Lists.congr (h : g.Lists c s) : g.Lists c' s := by
  refine ⟨?_, h.connections.imp fun y x hy => ⟨hy.id, fun htag => ?_, fun htag => ?_⟩⟩
  · rw [namedStore, hstore]
    exact h.store
  · rw [hconnection]
    exact hy.pointer htag
  · rw [y.connection.namedStore_congr hstore]
    exact hy.written htag

end Congr

/-! ### Stores -/

theorem StoreConnectionsDecl.Lists.serve_iff (h : g.Lists c s) :
    (∀ x ∈ s.connections, x.2.store = s.store) ↔ ∀ y ∈ g.connections,
      y.connection.tag ≠ ConnectionDecl.pointerTag → y.connection.namedStore c = g.namedStore c := by
  refine forall_mem_iff_of_forall₂ h.connections fun y x hy => ?_
  by_cases htag : y.connection.tag = ConnectionDecl.pointerTag
  · exact ⟨fun _ hne => absurd htag hne, fun _ => (hy.pointer htag).1⟩
  · rw [hy.written htag, h.store]
    exact ⟨fun hstore _ => congrArg _ hstore, fun hsame => Except.ok.inj (hsame htag)⟩

variable {d : Document} {o : Options} {m : Model}

/-- **Connections by store.** In a model that was built, the ids of the connections of a runtime are
distinct over all stores, and under each store stand the connections of its declaration, in order: a
pointer leads to a connection for the store, and one that is written out is for the store that it
names. So every connection is for the store that it is listed under if and only if those that are
written out name it. -/
theorem Document.connections_by_store (h : (d.build o).result = .ok m) {p : String} {e : Element} {r : Runtime}
    (he : m.declared? p = some e) (hr : e.content = .runtime (some r)) :
    (StoreConnections.ids r.connections).Nodup ∧ ∃ x ∈ d.runtimes, x.header.path = p ∧
      Forall₂ (fun g s => StoreConnectionsDecl.Lists g (Context.of m p) s) x.value.connections r.connections ∧
      ((∀ s ∈ r.connections, ∀ y ∈ s.connections, y.2.store = s.store) ↔
        ∀ g ∈ x.value.connections, ∀ y ∈ g.connections, y.connection.tag ≠ ConnectionDecl.pointerTag →
          y.connection.namedStore (Context.of m p) = g.namedStore (Context.of m p)) := by
  obtain ⟨t⟩ := exists_trace h
  obtain ⟨x, n, hx, rfl, hbuild, -, hgrows, himports⟩ := t.runtime_built he hr
  obtain ⟨hlists, hids⟩ := RuntimeDecl.build_lists hbuild
  have hfinal : Forall₂ (fun g s => StoreConnectionsDecl.Lists g (Context.of m x.header.path) s)
      x.value.connections r.connections := by
    refine hlists.imp fun g s hg => hg.congr ?_ ?_
    · exact hgrows.resolve himports (by decide) (by simp [among])
    · exact hgrows.resolve himports (by decide) (by simp [among])
  exact ⟨hids, x, hx, rfl, hfinal, forall_mem_iff_of_forall₂ hfinal fun g s hg => hg.serve_iff⟩

/-- Two databases, a connection to the first, and a runtime that lists that connection under the first
database together with one to the second that is written out. -/
def Document.otherStore : Document :=
  { extensions := [substitutedStore.database "D", substitutedStore.database "E"]
    mappings := [{ header := { package := "m", name := "M" } }]
    connections := [{ header := { package := "m", name := "C" }, value := connection "m::D" }]
    runtimes :=
      [{ header := { package := "m", name := "R" }
         value :=
           { mappings := [{ path := "m::M" }]
             connections :=
               [{ store := { path := "m::D" }
                  connections :=
                    [{ id := "a", connection := { tag := ConnectionDecl.pointerTag, connection := "m::C" } },
                     { id := "b", connection := connection "m::E" }] }] } }] }
where
  connection (database : String) : ConnectionDecl :=
    { tag := Relational.connectionTag, element := database, raw := substitutedStore.connection }

/-- The stores of a runtime, each with the ids of its connections and the stores that they are for. -/
def Runtime.outline (r : Runtime) : List (String × List (String × String)) :=
  r.connections.map fun s => (s.store, s.connections.map fun y => (y.1, y.2.store))

def Element.outlines (e : Element) (l : List (String × List (String × String))) : Bool :=
  match e.content with
  | .runtime (some r) => r.outline = l
  | _ => false

theorem Document.otherStore_built : ∃ m e r, (otherStore.build { extensions := [.relational] }).result = .ok m ∧
    m.declared? "m::R" = some e ∧ e.content = .runtime (some r) ∧
    r.outline = [("m::D", [("a", "m::D"), ("b", "m::E")])] := by
  obtain ⟨m, hm, e, he, htest⟩ := exists_build_of_acyclic (d := otherStore)
    (P := fun m => ∃ e, m.declared? "m::R" = some e ∧ e.outlines [("m::D", [("a", "m::D"), ("b", "m::E")])] = true)
    (by decide +kernel)
  unfold Element.outlines at htest
  split at htest
  · rename_i r hr
    exact ⟨m, e, r, hm, he, hr, of_decide_eq_true htest⟩
  · cases htest

/-- Both connections are listed under the first database, each with its own id. -/
theorem Document.otherStore_listed : ∃ m e r x, (otherStore.build { extensions := [.relational] }).result = .ok m ∧
    m.declared? "m::R" = some e ∧ e.content = .runtime (some r) ∧
    r.outline = [("m::D", [("a", "m::D"), ("b", "m::E")])] ∧
    (StoreConnections.ids r.connections).Nodup ∧ x ∈ otherStore.runtimes ∧
    Forall₂ (fun g s => StoreConnectionsDecl.Lists g (Context.of m "m::R") s) x.value.connections r.connections ∧
    ((∀ s ∈ r.connections, ∀ y ∈ s.connections, y.2.store = s.store) ↔
      ∀ g ∈ x.value.connections, ∀ y ∈ g.connections, y.connection.tag ≠ ConnectionDecl.pointerTag →
        y.connection.namedStore (Context.of m "m::R") = g.namedStore (Context.of m "m::R")) := by
  obtain ⟨m, e, r, h, he, hr, houtline⟩ := otherStore_built
  obtain ⟨hids, x, hx, -, hlists, hserve⟩ := connections_by_store h he hr
  exact ⟨m, e, r, x, h, he, hr, houtline, hids, hx, hlists, hserve⟩

/-- The second of them is for another store. -/
theorem Document.otherStore_elsewhere : ∃ m e r, (otherStore.build { extensions := [.relational] }).result = .ok m ∧
    m.declared? "m::R" = some e ∧ e.content = .runtime (some r) ∧
    ∃ s ∈ r.connections, ∃ y ∈ s.connections, y.2.store ≠ s.store := by
  obtain ⟨m, e, r, h, he, hr, houtline⟩ := otherStore_built
  have hgroup : ("m::D", [("a", "m::D"), ("b", "m::E")]) ∈ r.outline := by
    rw [houtline]
    exact .head _
  obtain ⟨s, hs, heq⟩ := mem_map.1 hgroup
  obtain ⟨hstore, hconnections⟩ := Prod.mk.inj heq
  have hlast : ("b", "m::E") ∈ s.connections.map fun y => (y.1, y.2.store) := by
    rw [hconnections]
    exact mem_cons_of_mem _ (.head _)
  obtain ⟨y, hy, heq⟩ := mem_map.1 hlast
  refine ⟨m, e, r, h, he, hr, s, hs, y, hy, ?_⟩
  rw [hstore, (Prod.mk.inj heq).2]
  decide

end ModelGraph
