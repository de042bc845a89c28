/-
# Runtimes

A runtime serves mappings and has a connection to every store that they read from. An
include may put another store in place of one that the included mapping reads from.
-/
import ModelGraph.Mapping.Closure
import ModelGraph.Service.Connection

namespace ModelGraph
namespace SetImplementation

mutual

def stores : SetImplementation → List String
  | instances _ source _ => if source.isSome then [modelStorePath] else []
  | operation .. => []
  | aggregation _ main aggregates => stores main ++ storesOfAggregates aggregates
  | relational _ database _ _ => [database]

def storesOfAggregates : List (AggregateSpec × SetImplementation) → List String
  | [] => []
  | (_, s) :: rest => stores s ++ storesOfAggregates rest

end

end SetImplementation

def substituted (substitutions : List (String × String)) (store : String) : String :=
  match substitutions.find? fun s => s.1 = store with
  | some s => s.2
  | none => store

namespace Model

/-- Visits a mapping and what it includes, each mapping once, under the substitutions of
the way to it, and adds the stores that are read from. `done` are the mappings that
were visited and the stores. -/
def visitStores (m : Model) : Nat → List (String × String) → List String × List String →
    String → List String × List String
  | 0, _, done, _ => done
  | fuel + 1, substitutions, (seen, stores), path =>
    if seen.contains path then (seen, stores)
    else
      let read := ((m.setsOf path).flatMap fun s => s.2.stores).map (substituted substitutions)
      let includes := match m.mapping? path with
        | some x => x.includes
        | none => []
      includes.foldl
        (fun done i => m.visitStores fuel (i.substitutions ++ substitutions) done i.included)
        (path :: seen, distinct (stores ++ read))

def storesOf (m : Model) (path : String) : List String :=
  (m.visitStores (m.elements.length + 1) [] ([], []) path).2

/-- Fails if a store that a mapping of a runtime reads from has no connection. -/
def checkCoverage (m : Model) (r : Runtime) : Result Unit :=
  let missing := r.mappings.flatMap fun path =>
    ((m.storesOf path).filter fun s => !r.reaches s).map fun s => (s, path)
  if missing.isEmpty then .ok ()
  else
    let sorted (xs : List String) := (distinct xs).mergeSort fun a b => a ≤ b
    failAt r.span (.storesNotCovered (sorted (missing.map (·.1))) (sorted (missing.map (·.2))))

end Model

def IdentifiedConnectionDecl.build (d : IdentifiedConnectionDecl) (c : Context) (store : String)
    (used : List String) : Result (String × Connection) := do
  if used.contains d.id then failAt d.span (.duplicateConnectionId d.id)
  let connection ← d.connection.build c
  if d.connection.tag = ConnectionDecl.pointerTag && connection.store != store then
    failAt d.span (.connectionStore d.connection.connection connection.store store)
  return (d.id, connection)

namespace RuntimeDecl

def buildConnections (c : Context) (store : String) (used : List String) :
    List IdentifiedConnectionDecl → List (String × Connection) →
    Result (List (String × Connection))
  | [], done => .ok done
  | d :: ds, done => do
    let next ← d.build c store (used ++ done.map (·.1))
    buildConnections c store used ds (done ++ [next])

/-- Builds the connections of a runtime store by store. Ids are distinct over all. -/
def buildStores (c : Context) : List StoreConnectionsDecl → List StoreConnections →
    Result (List StoreConnections)
  | [], done => .ok done
  | d :: ds, done => do
    let store ← c.resolve .store d.store.path (d.store.span.orElse d.span)
    let used := done.flatMap fun s => s.connections.map (·.1)
    let connections ← buildConnections c store.path used d.connections []
    buildStores c ds (done ++ [{ store := store.path, connections }])

def build (d : RuntimeDecl) (c : Context) : Result Runtime := do
  if d.mappings.isEmpty then failAt d.span .runtimeWithoutMapping
  let mappings ← d.mappings.mapM fun p => c.resolve .mapping p.path (p.span.orElse d.span)
  let connections ← buildStores c d.connections []
  let runtime := { mappings := mappings.map (·.path), connections, span := d.span }
  c.model.checkCoverage runtime
  return runtime

end RuntimeDecl

namespace RuntimeElementDecl

def declare (d : RuntimeElementDecl) : Build Unit := Build.register d.header (.runtime none)

def buildStep (d : RuntimeElementDecl) : Build Unit := do
  let path := d.header.path
  let c ← Build.context path
  let value ← d.value.build c
  modify fun m => m.setContent path (.runtime (some value))

end RuntimeElementDecl
end ModelGraph
