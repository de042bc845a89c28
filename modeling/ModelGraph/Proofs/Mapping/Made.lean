/-
# What the steps of mappings are made of

A class mapping may be of a form that an extension knows, and an element or a connection of a kind
that one knows; by default these are refused. All else that mappings, databases and runtimes are
built from is the same in models that are alike and have in common what the step reads of mappings,
under all options. The check of roots is made by default.

Key theorems: `checkMappings_made`, `ExtensionDecl.buildStep_made`, `RuntimeElementDecl.buildStep_made`.
-/
import ModelGraph.Proofs.Mapping.Likeness
import ModelGraph.Proofs.Mapping.Told

namespace ModelGraph

open Model Build ClassMappingAttrs Relational

variable {moves : Prop} {R S : Model → Model → Prop} [Sight S] {o : Options}

/-! ### Includes and enumeration mappings -/

theorem MappingDecl.structureStep_made (d : MappingDecl) [Writes S d.header.path] :
    Made moves Stays S [] d.structureStep := by
  refine made_context (fun c => ?_) fun m m' hm => ?_
  · refine (made_liftM (buildIncludes_told c _ _)).bind fun _ => ?_
    refine (made_liftM (Result.throws_mapM fun e _ => e.build_told c)).bind fun _ => .edit (edits_updateMapping _ _)
  · have hc := (Sight.context hm d.header.path).toLike
    simp only [buildIncludes_like hc, EnumerationMappingDecl.build_like hc]

/-! ### Class mappings -/

namespace ClassMappingAttrs

theorem buildProperty_made [Sees S Mapping.frame] (path : String) (base : SetBase) (scope : Scope)
    (d : PropertyMappingDecl) : Made moves R S [] (buildProperty path base scope d) := by
  refine made_guard (made_unsupported _) fun _ => made_context (fun c => ?_) fun m m' hm => ?_
  rotate_left
  · have henums : (Context.of m' path).model.allEnumMappings = (Context.of m path).model.allEnumMappings :=
      Sees.allEnumMappings hm
    rw [propertyOf_like (Sight.context hm path).toLike, henums]
  refine (made_liftM (propertyOf_told _ _ _)).bind fun x => ?_
  have htransform : Made moves R S [] (d.transform.mapM fun n => lambda path n scope) :=
    made_optionMapM _ fun n => made_lambda path n scope []
  refine made_ite ((Made.pure _).bind fun _ => htransform.bind fun _ => .pure _) ?_
  split
  · exact (Made.pure _).bind fun _ => htransform.bind fun _ => .pure _
  · exact (made_fail rfl).bind fun _ => htransform.bind fun _ => .pure _

omit [Sight S] in
theorem buildFilter_made (path id : String) (scope : Scope) (n : Node) : Made moves R S [] (buildFilter path id scope n) := by
  refine (made_lambda _ _ _ _).bind fun _ => ?_
  split
  · exact made_ite (.pure _) (made_fail rfl)
  · exact made_fail rfl

theorem buildInstances_made [Sees S Mapping.frame] (path : String) (a : ClassMappingAttrs) (base : SetBase) :
    Made moves R S [] (buildInstances path a base) := by
  refine made_context (fun c => made_choice (.pure _) ?_ fun source => ?_) fun m m' hm => by
    simp only [(Sight.context hm path).resolveType]
  · exact (made_liftM (c.resolveType_told _ _)).bind fun _ => .pure _
  · refine (made_optionMapM _ fun n => buildFilter_made path _ _ n).bind fun _ => ?_
    exact (made_mapM fun p _ => buildProperty_made path base _ p).bind fun _ => .pure _

omit [Sight S] in
theorem buildOperation_made (path : String) (a : ClassMappingAttrs) (base : SetBase) (merges : Bool) :
    Made moves R S [] (buildOperation path a base merges) := by
  unfold buildOperation
  dsimp only
  split
  · exact made_fail rfl
  · refine made_choice (made_optionMapM _ fun n => made_lambda path n [] []) (.pure _) fun _ => ?_
    exact .pure _

end ClassMappingAttrs

theorem AggregateHead.build_made (d : AggregateHead) (path : String) (this : TypeRef) :
    Made moves R S [] (d.build path this) :=
  made_get (fun _ => (made_mapM fun _ _ => made_lambda _ _ _ _).bind fun _ =>
    (made_mapM fun _ _ => (made_lambda _ _ _ _).bind fun _ => (made_lambda _ _ _ _).bind fun _ => .pure _).bind
      fun _ => .pure _) fun _ _ hm => by rw [thisBinding_like (Sight.like hm)]

theorem SetForm.of_extensions {tag : String} {form : SetForm} (h : of [] tag = form) (hform : form ≠ .unknown)
    (extensions : List Extension) : of extensions tag = form ∧ form ≠ .relational := by
  unfold of at h ⊢
  grind

namespace ClassMappingDecl

mutual

theorem build_made [Sees S Mapping.frame] (path : String) : ∀ (d : ClassMappingDecl) (fallback : String),
    Made moves R S [] (build path d fallback)
  | mk a main aggregates, fallback => by
    unfold build
    generalize (if a.id = "" then { a with id := fallback } else a) = a
    refine made_context_gated (fun c => (made_liftM (c.resolveClass_told _ _)).bind fun t => ?_) fun m m' k hm => ?_
    · cases SetForm.of c.model.options.extensions a.tag with
      | instances => exact buildInstances_made _ _ _
      | operation => exact buildOperation_made _ _ _ _
      | merge => exact buildOperation_made _ _ _ _
      | aggregation =>
        cases main with
        | none => exact made_fail rfl
        | some d =>
          exact (build_made path d _).bind fun _ => (buildAggregates_made path _ aggregates).bind fun _ => .pure _
      | relational => exact made_liftM (buildSet_told _ _ _)
      | unknown => exact made_unsupported _
    · have hc := Sight.context hm path
      rw [hc.resolveClass, buildSet_like hc.toLike]
      refine carries_bind (.refl _) fun t k => ?_
      rcases hc.options with hoptions | ⟨-, hdefault⟩
      · rw [hoptions]
        exact .refl _
      · simp only [hdefault]
        cases hform : SetForm.of [] a.tag with
        | unknown => exact Result.carries_error _ _
        | relational => exact absurd rfl (SetForm.of_extensions hform (by decide) []).2
        | _ =>
          rw [(SetForm.of_extensions hform (by decide) _).1]
          exact .refl _

theorem buildAggregates_made [Sees S Mapping.frame] (path id : String) : ∀ (as : List (AggregateHead × ClassMappingDecl)),
    Made moves R S [] (buildAggregates path id as)
  | [] => by
    exact .pure _
  | (head, d) :: rest => by
    unfold buildAggregates
    exact (build_made path d _).bind fun _ => (head.build_made _ _).bind fun _ =>
      (buildAggregates_made path id rest).bind fun _ => .pure _

end

end ClassMappingDecl

theorem MappingDecl.setsStep_made (d : MappingDecl) [Writes S d.header.path] [Sees S Mapping.frame] :
    Made moves Stays S [] d.setsStep :=
  (made_mapM fun s _ => s.build_made _ _).bind fun _ => .edit (edits_updateMapping _ _)

/-! ### Links -/

theorem PropertyMappingDecl.buildCross_made [Sees S Mapping.gist] (d : PropertyMappingDecl) (path : String)
    (association : Element) : Made moves R S [] (d.buildCross path association) := by
  unfold buildCross
  refine made_guard (made_unsupported _) fun _ => ?_
  split
  · exact made_fail rfl
  · split
    · exact made_fail rfl
    · refine made_get (fun m => (made_lambda _ _ _ _).bind fun _ => ?_) fun _ _ hm => by rw [Sees.endType hm]
      exact made_guard (made_fail rfl) fun _ => .pure _

theorem AssociationMappingDecl.build_made [Sees S Mapping.gist] (d : AssociationMappingDecl) (path : String) :
    Made moves R S [] (d.build path) := by
  refine made_guard (made_unsupported _) fun _ => made_context (fun c => ?_) fun m m' hm => by
    simp only [(Sight.context hm path).resolve (by decide : Category.store ≠ .mapping),
      (Sight.context hm path).resolve (by decide : Category.association ≠ .mapping)]
  refine (made_liftM (c.resolve_told _ _ _)).bind fun _ => ?_
  refine (made_liftM (Result.throws_mapM fun _ _ => c.resolve_told _ _ _)).bind fun _ => ?_
  exact (made_mapM fun p _ => p.buildCross_made _ _).bind fun _ => .pure _

theorem MappingTestDecl.build_made (d : MappingTestDecl) (path : String) : Made moves R S [] (d.build path) :=
  (made_lambda _ _ _ _).bind fun _ => made_context (fun c =>
    (made_liftM (Result.throws_mapM fun i _ => i.build_told c)).bind fun _ => .pure _) fun m m' hm => by
      simp only [InputDataDecl.build_like (Sight.context hm path).toLike]

namespace Model

omit [Sight S]

theorem sourceTypesWithin_under (m : Model) : ∀ (depth : Nat) (s : SetImplementation),
    (m.under o).sourceTypesWithin depth s = m.sourceTypesWithin depth s
  | 0, _ => rfl
  | depth + 1, s => by
    have hset : (m.under o).setAt? = m.setAt? := rfl
    unfold sourceTypesWithin
    rw [funext (sourceTypesWithin_under m depth), hset]

theorem checkSet_under (m : Model) (path : String) (s : SetImplementation) :
    (m.under o).checkSet path s = m.checkSet path s := by
  cases s with
  | instances b =>
    have hsources (s : SetImplementation) : (m.under o).sourceTypes s = m.sourceTypes s :=
      sourceTypesWithin_under m _ s
    have hproperty : (m.under o).checkProperty path b.id = m.checkProperty path b.id := by
      unfold checkProperty expectedTypes
      simp only [hsources]
      rfl
    rw [checkSet, checkSet, hproperty]
  | _ => rfl

end Model

namespace MappingDecl

/-- Links the class mappings of a mapping and compiles what refers to them, without the
checks at the end. -/
def linkSets (d : MappingDecl) : Build (List SetImplementation) := do
  let path := d.header.path
  let m ← get
  let sets ← (((m.setsOf path).map (·.2)).mapM (m.linkSet path) : Result _)
  modify fun m => m.updateMapping path fun x => { x with sets }
  let assocMappings ← d.assocMappings.mapM fun a => a.build path
  modify fun m => m.updateMapping path fun x => { x with assocMappings }
  let tests ← d.tests.mapM fun t => t.build path
  modify fun m => m.updateMapping path fun x => { x with tests }
  return sets

theorem linkStep_eq (d : MappingDecl) : d.linkStep = (d.linkSets >>= fun sets =>
    get >>= fun m => liftM (sets.forM (m.checkSet d.header.path) : Result Unit)) := by
  unfold linkStep linkSets
  simp only [bind_assoc, pure_bind]

/-- Links come out the same in models that are alike in the mapping itself, and in what class
mappings are called and are of. -/
theorem linkSets_made (d : MappingDecl) [Writes S d.header.path] [Sees S Mapping.gist] :
    Made moves Stays S [] d.linkSets := by
  refine made_get (fun m => ?_) fun m m' hm => ?_
  · refine (made_liftM (Result.throws_mapM fun s _ => m.linkSet_told _ s)).bind fun sets => ?_
    refine (Made.edit (edits_updateMapping _ _)).bind fun _ => (made_mapM fun a _ => a.build_made _).bind fun _ => ?_
    refine (Made.edit (edits_updateMapping _ _)).bind fun _ => (made_mapM fun t _ => t.build_made _).bind fun _ => ?_
    exact (Made.edit (edits_updateMapping _ _)).bind fun _ => .pure _
  · rw [setsOf, setsOf, Writes.mapping? hm, funext (Sees.linkSet hm d.header.path)]

theorem linkStep_made (d : MappingDecl) : Made moves Stays (Under o) [] d.linkStep := by
  rw [linkStep_eq]
  refine d.linkSets_made.bind fun sets => made_read (fun m => ?_) fun m => ?_
  · exact made_liftM (Result.throws_forM fun s _ => m.checkSet_told _ s)
  · rw [funext (m.checkSet_under d.header.path)]

end MappingDecl

/-! ### Checks -/

namespace Model

theorem edits_warnUnknownIds (path : String) (known : List String) (ps : List PropertyMapping) :
    Edits Noted S (ps.foldl (warnUnknownIds path known) ·) :=
  edits_foldl (fun _ => edits_foldl (fun _ => edits_warn _ _ _ _) _) ps

theorem checkIds_made [Sees S (id : Mapping → Mapping)] (path : String) (span : Span) :
    Made moves R S [] (checkIds path span) := by
  have hget {f : Model → Build Unit} (k : Model) : (get >>= f) k = f k k := rfl
  refine made_noting (f := fun m n => ((m.setsOf path).flatMap fun s => s.2.base.properties).foldl
    (warnUnknownIds path ((m.includeOrder path).flatMap m.setIds)) n) (fun m => edits_warnUnknownIds _ _ _)
    (fun m m' hm => by rw [Sees.setsOf hm, Sees.includeOrder hm, Sees.setIds hm]) (fun m a n h => ?_)
    (throws_get.bind fun m => ?_) fun m m' hm => ?_
  · unfold checkIds at h
    rw [hget] at h
    rcases hset : m.repeatedId? m.setIds path with _ | id <;> simp only [hset] at h
    · rcases henum : m.repeatedId? m.enumMappingIds path with _ | id <;> simp only [henum] at h <;> cases h
      rfl
    · cases h
  · split
    · exact told_fail _ _ rfl
    · refine (throws_set _).bind fun _ => ?_
      split
      · exact told_fail _ _ rfl
      · exact throws_pure _
  · unfold checkIds
    rw [hget, hget, Sees.repeatedId? hm, Sees.setIds hm, Sees.enumMappingIds hm]
    cases m.repeatedId? m.setIds path with
    | some id => rfl
    | none => cases m.repeatedId? m.enumMappingIds path <;> rfl

theorem checkNewInstances_made [Sees S (id : Mapping → Mapping)] (path : String) (span : Span) :
    Made moves R S [] (checkNewInstances path span) := by
  refine made_get (fun m => made_forM fun s _ => ?_) fun m m' hm => by rw [Sees.setsOf hm]
  split
  · exact made_forM fun _ _ => made_forM fun _ _ => made_forM fun _ _ =>
      made_guard (made_fail rfl) fun _ => .note (edits_warn _ _ _ _)
  · exact .pure _

end Model

theorem checkMappings_made [Sees S (id : Mapping → Mapping)] (mappings : List MappingDecl) :
    Made moves R S [] (checkMappings mappings) := by
  refine (made_liftM (checkIncludeCycles_told _)).bind fun _ => ?_
  refine (made_liftM (Result.throws_forM fun d _ => Result.throws_forM fun e _ => e.checkSources_told)).bind fun _ => ?_
  refine (made_forM fun d _ => checkIds_made _ _).bind fun _ => .get (fun m => ?_) fun m m' k hm => ?_
  · refine made_guard ?_ fun _ => made_forM fun d _ => checkNewInstances_made _ _
    exact made_liftM (Result.throws_forM fun d _ => m.checkRoots_told _ _)
  · rw [Sees.checkRoots hm]
    rcases Sight.options hm with hoptions | hdefault
    · rw [hoptions]
      exact .refl _
    · rw [hdefault]
      cases m'.options.roots with
      | true => exact .refl _
      | false => exact carries_check

/-! ### Elements of extensions -/

theorem Relational.build_made (d : ExtensionDecl) : Made moves Stays (Under o) [] (build d) := by
  refine made_place (fun c => ?_) fun _ => rfl
  split
  · exact made_fail rfl
  · refine (made_liftM (Result.throws_mapM fun _ _ => resolveInclude_told c _ _ _)).bind fun _ => ?_
    exact (made_liftM (buildSchemas_told _ _ _ _)).bind fun _ => .edit (edits_setContent _ _)

namespace ExtensionDecl

variable {hs : List Header}

theorem made_known (d : ExtensionDecl) {x : Build Unit} (hx : Made moves R (Under o) hs x) :
    Made moves R (Under o) hs (do if ← d.isKnown then x else throw (.unsupported (.elementTag d.tag))) := by
  refine Made.get (fun _ => made_ite hx (made_unsupported _)) fun m m' k hm => ?_
  have hextensions : m.options.extensions = [] := by rw [hm.1]
  rw [hextensions, List.contains_nil, Bool.and_false]
  exact Result.carries_error _ _

theorem declare_made (d : ExtensionDecl) : Made moves Stays (Under o) [d.header] d.declare := d.made_known (.register _ _ _)

theorem buildStep_made (d : ExtensionDecl) : Made moves Stays (Under o) [] d.buildStep := d.made_known (build_made d)

end ExtensionDecl

theorem Relational.checkIncludes_made : Made moves R (Under o) [] checkIncludes := by
  refine made_reading (fun m a n h => ?_) (fun m => ?_) fun m m' hm => ?_
  · unfold checkIncludes at h
    dsimp only at h
    split at h <;> cases h
    rfl
  · unfold checkIncludes
    dsimp only
    split
    · exact Result.told_failAt _ _ rfl
    · exact Result.throws_ok _
  · have hdatabase : m'.database? = m.database? := hm.2 ▸ rfl
    have hincludes : m'.databaseIncludes = m.databaseIncludes := hm.2 ▸ rfl
    have helements : m'.elements = m.elements := hm.2 ▸ rfl
    unfold checkIncludes
    rw [hdatabase, hincludes, helements]
    dsimp only
    split <;> rfl

theorem exists_checkExtensions (m : Model) : ∃ x : Build Unit, checkExtensions m = x m ∧ Made moves R (Under o) [] x := by
  refine ⟨m.options.extensions.forM _, rfl, made_forM fun x _ => ?_⟩
  exact checkIncludes_made

theorem checkExtensions_notes : checkExtensions.Notes := by
  intro m
  obtain ⟨x, heq, hx⟩ := exists_checkExtensions m
  unfold Ensures
  rw [heq]
  exact hx.notes m

theorem checkExtensions_told : Told checkExtensions := by
  intro m
  obtain ⟨x, heq, hx⟩ := exists_checkExtensions m
  rw [heq]
  exact hx.told m

/-! ### Connections and runtimes -/

section Services

open Result

variable {P : Prop} {c c' : Context} (hc : c.Aligned P c') (hresolve : c'.resolve = c.resolve)
include hc hresolve

theorem ConnectionDecl.build_carries (d : ConnectionDecl) : (d.build c).Carries (d.build c') := by
  unfold build buildConnection
  rw [hc.resolveClass, hresolve]
  rcases hc.options with hoptions | ⟨-, hdefault⟩
  · rw [hoptions]
    exact .refl _
  · refine carries_ite (.refl _) (carries_ite (.refl _) (carries_ite (.refl _) ?_))
    simp only [hdefault, List.contains_nil, Bool.and_false]
    exact carries_error _ _

theorem IdentifiedConnectionDecl.build_carries (d : IdentifiedConnectionDecl) (store : String) (used : List String) :
    (d.build c store used).Carries (d.build c' store used) := by
  refine carries_ite (carries_fail_bind _ _ _ _) ((d.connection.build_carries hc hresolve).bind fun connection => ?_)
  exact carries_ite (carries_fail_bind _ _ _ _) (.refl _)

namespace RuntimeDecl

theorem buildConnections_carries (store : String) (used : List String) :
    ∀ (ds : List IdentifiedConnectionDecl) (done : List (String × Connection)),
      (buildConnections c store used ds done).Carries (buildConnections c' store used ds done)
  | [], _ => .refl _
  | d :: ds, done =>
    (d.build_carries hc hresolve store _).bind fun next => buildConnections_carries store used ds (done ++ [next])

theorem buildStores_carries : ∀ (ds : List StoreConnectionsDecl) (done : List StoreConnections),
    (buildStores c ds done).Carries (buildStores c' ds done)
  | [], _ => .refl _
  | d :: ds, done => by
    rw [buildStores, buildStores, hresolve]
    refine Carries.bind (.refl _) fun store => ?_
    exact (buildConnections_carries hc hresolve _ _ d.connections []).bind fun connections => buildStores_carries ds _

theorem build_carries (d : RuntimeDecl) (hcoverage : c'.model.checkCoverage = c.model.checkCoverage) :
    (d.build c).Carries (d.build c') := by
  unfold build
  rw [hcoverage, hresolve]
  refine carries_ite (carries_fail_bind _ _ _ _) ?_
  exact Carries.bind (.refl _) fun mappings => (buildStores_carries hc hresolve d.connections []).bind fun _ => .refl _

end RuntimeDecl
end Services

variable [Sees S (id : Mapping → Mapping)]

theorem ConnectionElementDecl.buildStep_made (d : ConnectionElementDecl) : Made moves Stays S [] d.buildStep := by
  refine made_context_gated (fun c => (made_liftM (d.value.build_told c)).bind fun _ => made_setContent _ ?_ rfl)
    fun m m' k hm => carries_bind (carries_liftM (d.value.build_carries (Sight.context hm _) (Sees.resolve hm _)) k)
      fun _ _ => .refl _
  exact fun e he => by simp [Element.isListed, Element.category?, he]

theorem RuntimeElementDecl.buildStep_made (d : RuntimeElementDecl) : Made moves Stays S [] d.buildStep := by
  refine made_context_gated (fun c => (made_liftM (d.value.build_told c)).bind fun _ => made_setContent _ ?_ rfl)
    fun m m' k hm => carries_bind (carries_liftM (d.value.build_carries (Sight.context hm _) (Sees.resolve hm _)
      (Sees.checkCoverage hm)) k) fun _ _ => .refl _
  exact fun e he => by simp [Element.isListed, Element.category?, he]

end ModelGraph
