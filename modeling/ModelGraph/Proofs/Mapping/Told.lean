/-
# Failures of mappings, databases and runtimes

What mappings, databases and runtimes are built from has no stages, so it fails with told
failures only.

Key theorems: `RuntimeDecl.build_told`, `Model.linkSet_told`, `Model.checkSet_told`.
-/
import ModelGraph.Proofs.Expression.Told

namespace ModelGraph

/-! ### Source values -/

section

open Result

namespace SourceValue

variable (c : Context) (span : Span)

theorem readInteger_told (j : Option Json) : Told (readInteger span j) := by
  unfold readInteger
  split
  · exact throws_ok _
  · exact told_failAt _ _ rfl
  · exact told_failAt _ _ rfl

theorem readText_told (problem : Decode.Fault → Problem) (j : Option Json)
    (h : ∀ fault, (problem fault).isStage = false) : Told (readText span problem j) := by
  unfold readText
  split
  · exact throws_ok _
  · exact told_failAt _ _ (h _)
  · exact told_failAt _ _ (h _)

theorem readEnum_told (path name : String) : Told (readEnum c span path name) :=
  (c.resolveEnumValue_told _ _ _ _).bind fun _ => throws_ok _

theorem readStructured_told (s : StructuredSource) : Told (readStructured c span s) :=
  throws_ite (readInteger_told _ _) (throws_ite ((readText_told _ _ _ fun _ => rfl).bind fun _ => throws_ok _)
    ((readText_told _ _ _ fun _ => rfl).bind fun _ => readEnum_told _ _ _ _))

theorem readFlagged_told : ∀ (depth : Nat) (s : FlaggedSource), Told (readFlagged c span depth s)
  | 0, _ => told_unsupported _
  | depth + 1, s => by
    unfold readFlagged
    refine throws_ite (throws_mapM fun _ _ => (readText_told _ _ _ fun _ => rfl).bind fun _ => throws_ok _) ?_
    refine throws_ite (throws_mapM fun _ _ => readInteger_told _ _) ?_
    refine throws_ite ((readEnum_told _ _ _ _).bind fun _ => throws_ok _) ?_
    refine throws_ite ((throws_mapM fun j _ => ?_).bind fun _ => throws_ok _) (told_unsupported _)
    split
    · exact told_failAt _ _ rfl
    · exact readFlagged_told depth _

theorem readPlain_told (j : Json) : Told (readPlain span j) := by
  unfold readPlain
  split
  · split
    · exact throws_ok _
    · exact throws_ok _
    · exact told_failAt _ _ rfl
  · exact throws_ok _
  · exact throws_ok _

theorem readAs_told (type : String) (j : Json) : Told (readAs c span type j) := by
  refine (readPlain_told span j).bind fun v => throws_ite (throws_ok _) (throws_ite ?_ ?_)
  · split
    · split
      · exact throws_ok _
      · exact told_failAt _ _ rfl
    · exact throws_ok _
  · split
    · exact readEnum_told _ _ _ _
    · exact told_failAt _ _ rfl

theorem readAll_told (type : String) (values : List Json) : Told (readAll c span type values) := by
  unfold readAll
  dsimp only
  split
  · exact throws_ok _
  · refine throws_ite (throws_mapM fun _ _ => readStructured_told _ _ _) (throws_ite ?_ (throws_ite ?_ ?_))
    · split
      · exact told_failAt _ _ rfl
      · exact readFlagged_told _ _ _ _
    · exact throws_mapM fun _ _ => readPlain_told _ _
    · exact throws_mapM fun _ _ => readAs_told _ _ _ _

end SourceValue

theorem EnumerationMappingDecl.build_told (d : EnumerationMappingDecl) (c : Context) : Told (d.build c) := by
  refine throws_guard (told_failAt _ _ rfl) fun _ => (c.resolve_told _ _ _).bind fun e => ?_
  refine (throws_mapM fun v _ => (Context.enumValue_told _ _ _).bind fun _ => ?_).bind fun _ => throws_ok _
  exact (SourceValue.readAll_told _ _ _ _).bind fun _ => throws_ok _

theorem EnumerationMappingDecl.checkSources_told (d : EnumerationMappingDecl) : Told d.checkSources :=
  throws_ite (told_failAt _ _ rfl) (throws_ok _)

/-! ### Databases -/

namespace Relational

variable (c : Context)

theorem buildColumns_told (table : String) (span : Span) :
    ∀ (cs : List ColumnDecl) (done : List Column), Told (buildColumns table span cs done)
  | [], _ => throws_ok _
  | _ :: cs, _ => throws_ite (told_failAt _ _ rfl) (buildColumns_told table span cs _)

theorem buildTable_told (d : TableDecl) (schema : String) (done : List Table) (outer : Span) :
    Told (buildTable d schema done outer) := by
  refine throws_guard (told_failAt _ _ rfl) fun _ => (buildColumns_told _ _ _ _).bind fun _ => ?_
  split
  · exact told_failAt _ _ rfl
  · exact throws_ok _

theorem buildTables_told (schema : String) (outer : Span) :
    ∀ (ds : List TableDecl) (done : List Table), Told (buildTables schema outer ds done)
  | [], _ => throws_ok _
  | _ :: ds, _ => (buildTable_told _ _ _ _).bind fun _ => buildTables_told schema outer ds _

theorem buildSchemas_told (database : String) (outer : Span) :
    ∀ (ds : List SchemaDecl) (done : List TableSchema), Told (buildSchemas database outer ds done)
  | [], _ => throws_ok _
  | d :: ds, done => by
    unfold buildSchemas
    refine throws_guard (told_failAt _ _ rfl) fun _ => (buildTables_told _ _ _ _).bind fun _ => ?_
    exact buildSchemas_told database outer ds _

theorem resolveInclude_told (database : String) (outer : Span) (p : Pointer) :
    Told (resolveInclude c database outer p) :=
  (c.resolve_told _ _ _).bind fun _ => throws_guard (told_failAt _ _ rfl) fun _ => throws_ok _

theorem resolveTable_told (p : TablePointer) (outer : Span) : Told (resolveTable c p outer) := by
  refine (c.resolve_told _ _ _).bind fun _ => throws_guard (told_failAt _ _ rfl) fun _ => ?_
  split
  · exact throws_ok _
  · exact told_failAt _ _ rfl

theorem buildProperty_told (id database : String) (main : TableRef) (className : TypeRef) (outer : Span)
    (d : PropertyMappingDecl) : Told (buildProperty c id database main className outer d) := by
  unfold buildProperty
  refine throws_guard (told_unsupported _) fun _ => ?_
  split
  · exact told_failAt _ _ rfl
  · refine throws_guard (told_unsupported _) fun _ => (c.resolveClass_told _ _).bind fun t => ?_
    refine (c.model.property_told _ _ _).bind fun property => ?_
    refine throws_choice (throws_ok main) (resolveTable_told c _ _).map fun table => ?_
    dsimp only
    split
    · exact told_failAt _ _ rfl
    · exact throws_ok _

theorem buildSet_told (a : ClassMappingAttrs) (base : SetBase) : Told (buildSet c a base) := by
  unfold buildSet
  split
  · exact told_failAt _ _ rfl
  · split
    · exact told_failAt _ _ rfl
    · exact (resolveTable_told _ _ _).bind fun _ => (throws_mapM fun _ _ => buildProperty_told _ _ _ _ _ _ _).bind
        fun _ => throws_ok _

theorem checkProperty_told (id : String) (main : TableRef) (p : PropertyMapping) :
    Told (checkProperty id main p) := by
  unfold checkProperty
  split
  · exact throws_ok _
  · refine throws_ite (told_failAt _ _ rfl) ?_
    split
    · exact throws_ite (told_failAt _ _ rfl) (throws_ok _)
    · exact throws_ok _

theorem checkSet_told (base : SetBase) (main : TableRef) : Told (checkSet base main) :=
  throws_forM fun _ _ => checkProperty_told _ _ _

theorem buildConnection_told (d : ConnectionDecl) : Told (buildConnection c d) := by
  unfold buildConnection
  split
  · exact told_failAt _ _ rfl
  · refine (c.resolve_told _ _ _).bind fun _ => throws_guard (told_failAt _ _ rfl) fun _ => ?_
    exact throws_guard (told_failAt _ _ rfl) fun _ => throws_guard (told_failAt _ _ rfl) fun _ => throws_ok _

end Relational

/-! ### Connections and runtimes -/

theorem ConnectionDecl.checkModelStore_told (d : ConnectionDecl) : Told d.checkModelStore :=
  throws_ite (throws_ok _) (told_failAt _ _ rfl)

theorem ConnectionDecl.build_told (d : ConnectionDecl) (c : Context) : Told (d.build c) := by
  refine throws_ite ?_ (throws_ite ?_ (throws_ite ?_ (throws_ite (Relational.buildConnection_told _ _)
    (told_unsupported _))))
  · exact d.checkModelStore_told.bind fun _ => (c.resolveClass_told _ _).bind fun _ => throws_ok _
  · exact d.checkModelStore_told.bind fun _ => (throws_mapM fun _ _ => c.resolve_told _ _ _).bind fun _ => throws_ok _
  · refine (c.resolve_told _ _ _).bind fun e => ?_
    split
    · exact throws_ok _
    · exact told_failAt _ _ rfl

theorem IdentifiedConnectionDecl.build_told (d : IdentifiedConnectionDecl) (c : Context) (store : String)
    (used : List String) : Told (d.build c store used) := by
  refine throws_guard (told_failAt _ _ rfl) fun _ => (d.connection.build_told c).bind fun _ => ?_
  exact throws_guard (told_failAt _ _ rfl) fun _ => throws_ok _

namespace RuntimeDecl

theorem buildConnections_told (c : Context) (store : String) (used : List String) :
    ∀ (ds : List IdentifiedConnectionDecl) (done : List (String × Connection)),
      Told (buildConnections c store used ds done)
  | [], _ => throws_ok _
  | d :: ds, _ => (d.build_told c store _).bind fun _ => buildConnections_told c store used ds _

theorem buildStores_told (c : Context) :
    ∀ (ds : List StoreConnectionsDecl) (done : List StoreConnections), Told (buildStores c ds done)
  | [], _ => throws_ok _
  | _ :: ds, _ => (c.resolve_told _ _ _).bind fun _ => (buildConnections_told _ _ _ _ _).bind fun _ =>
      buildStores_told c ds _

theorem checkCoverage_told (m : Model) (r : Runtime) : Told (m.checkCoverage r) :=
  throws_ite (throws_ok _) (told_failAt _ _ rfl)

theorem build_told (d : RuntimeDecl) (c : Context) : Told (d.build c) := by
  unfold build
  refine throws_guard (told_failAt _ _ rfl) fun _ => (throws_mapM fun _ _ => c.resolve_told _ _ _).bind fun _ => ?_
  exact (buildStores_told _ _ _).bind fun _ => (checkCoverage_told _ _).bind fun _ => throws_ok _

end RuntimeDecl

/-! ### Parts of mappings -/

theorem IncludeDecl.build_told (d : IncludeDecl) (c : Context) (done : List MappingInclude) :
    Told (d.build c done) := by
  refine (c.resolve_told _ _ _).bind fun _ => throws_guard (told_failAt _ _ rfl) fun _ => ?_
  refine throws_ite ?_ ?_
  · exact throws_ok _
  · exact (c.resolve_told _ _ _).bind fun _ => (c.resolve_told _ _ _).bind fun _ => throws_ok _

theorem MappingDecl.buildIncludes_told (c : Context) :
    ∀ (ds : List IncludeDecl) (done : List MappingInclude), Told (buildIncludes c ds done)
  | [], _ => throws_ok _
  | d :: ds, _ => (d.build_told c _).bind fun _ => buildIncludes_told c ds _

namespace ClassMappingAttrs

theorem mappedProperty_told (m : Model) (t : TypeRef) (p : PropertyRef) : Told (mappedProperty m t p) := by
  unfold mappedProperty
  split
  · exact throws_ok _
  · rename_i f hf
    split
    · exact throws_ok _
    · exact throws_error (m.property_told _ _ _ f hf)

theorem propertyOf_told (c : Context) (t : TypeRef) (d : PropertyMappingDecl) : Told (propertyOf c t d) := by
  unfold propertyOf
  split
  · exact (mappedProperty_told _ _ _).map
  · exact (c.resolveGeneric_told _ _).bind fun _ => throws_ok _

end ClassMappingAttrs

namespace Model

variable (m : Model) (path : String)

theorem linkParameter_told (span : Span) (id : String) : Told (m.linkParameter path span id) := by
  unfold linkParameter
  split
  · exact throws_ok _
  · exact told_failAt _ _ rfl

mutual

theorem linkSet_told : ∀ s : SetImplementation, Told (m.linkSet path s)
  | .instances .. => throws_ok _
  | .relational .. => throws_ok _
  | .operation .. => by
    exact (throws_mapM fun _ _ => m.linkParameter_told _ _ _).bind fun _ => throws_ok _
  | .aggregation b main aggregates => by
    unfold linkSet
    exact (linkSet_told main).bind fun _ => (linkAggregates_told aggregates).bind fun _ => throws_ok _

theorem linkAggregates_told : ∀ as : List (AggregateSpec × SetImplementation), Told (m.linkAggregates path as)
  | [] => throws_ok _
  | (_, s) :: rest => by
    unfold linkAggregates
    exact (linkSet_told s).bind fun _ => (linkAggregates_told rest).bind fun _ => throws_ok _

end

theorem checkProperty_told (id : String) (p : PropertyMapping) : Told (m.checkProperty path id p) := by
  unfold checkProperty
  split
  · exact throws_ok _
  · dsimp only
    split
    · exact told_failAt _ _ rfl
    · exact throws_ite (throws_ok _) (told_failAt _ _ rfl)

theorem checkSet_told (s : SetImplementation) : Told (m.checkSet path s) := by
  unfold checkSet
  split
  · exact throws_forM fun _ _ => m.checkProperty_told _ _ _
  · exact Relational.checkSet_told _ _
  · exact throws_ok _
  · exact throws_ok _

theorem checkRoots_told (span : Span) : Told (m.checkRoots path span) :=
  throws_forM fun _ _ => throws_ite (throws_ok _) (told_failAt _ _ rfl)

end Model

theorem InputDataDecl.build_told (d : InputDataDecl) (c : Context) : Told (d.build c) := by
  unfold build
  refine throws_ite (throws_ok _) (throws_choice (told_failAt _ _ rfl) (c.resolveClass_told _ _).map fun _ => ?_)
  exact throws_ok _

theorem checkIncludeCycles_told (mappings : List MappingDecl) : Told (checkIncludeCycles mappings) := by
  unfold checkIncludeCycles
  dsimp only
  split
  · split
    · exact told_failAt _ _ rfl
    · exact throws_ok _
  · exact throws_ok _

end

end ModelGraph
