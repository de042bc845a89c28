/-
# What the steps of the domain are made of

Members, constraints and tests are compiled in a model as it is: what changes are the warnings.
Steps over classes, associations, functions and measures read the model alike under all options,
and change elements without renaming or moving them.

Key theorems: `milestoneClass_made`, `AssociationDecl.compileStep_made`, `FunctionDecl.compileStep_made`.
-/
import ModelGraph.Proofs.Build.Made

namespace ModelGraph

open Model Build Result

variable {moves : Prop} {R : Model → Model → Prop} {o : Options}

/-! ### Members and constraints -/

theorem PropertyDecl.build_told (p : PropertyDecl) (c : Context) (owner : String) : (p.build c owner).Told :=
  (c.resolveTyped_told _ _ _).bind fun _ => (c.annotations_told _).bind fun _ => throws_ok _

@[simp] theorem PropertyDecl.build_under (p : PropertyDecl) (c : Context) : p.build (c.under o) = p.build c := by
  funext owner
  rw [build, (c.like_under o).resolveTyped]
  rfl

theorem QualifiedDecl.signature_told (q : QualifiedDecl) (c : Context) (owner : String) (this : TypeRef)
    (ordinal : Nat) : (q.signature c owner this ordinal).Told :=
  (throws_mapM fun _ _ => c.parameter_told _).bind fun _ => (c.resolveTyped_told _ _ _).bind fun _ =>
    (c.annotations_told _).bind fun _ => throws_ok _

@[simp] theorem QualifiedDecl.signature_under (q : QualifiedDecl) (c : Context) :
    q.signature (c.under o) = q.signature c := by
  funext owner this ordinal
  rw [signature, (c.like_under o).resolveTyped, (c.like_under o).parameter]
  rfl

theorem QualifiedDecl.compileBody_made (q : QualifiedDecl) (path : String) (signature : QualifiedProperty)
    (this : TypeRef) (ownerName : String) : Made moves R (Under o) [] (q.compileBody path signature this ownerName) := by
  unfold compileBody
  refine made_guard (made_fail rfl) fun _ => made_read (fun m => (made_body _ _ _).bind fun exprs => ?_) fun _ => rfl
  split
  · exact (Made.fits _ _ _ _).bind fun _ => .pure _
  · exact made_fail rfl

theorem ConstraintDecl.compile_made (d : ConstraintDecl) (path : String) (scope : Scope) :
    Made moves R (Under o) [] (d.compile path scope) := by
  refine Made.bind (.tryLambda fun r hr => ?_) fun _ => Made.bind ?_ fun _ => .pure _
  · cases r with
    | error f =>
      refine .throw (.inl ?_)
      split
      · exact hr f rfl
      · exact f.told_wrap _ _ rfl
    | ok e => exact made_ite (.pure _) (made_fail rfl)
  · unfold compileMessage
    split
    · exact .pure _
    · refine .tryLambda fun r _ => ?_
      cases r with
      | error f => exact (Made.note (edits_warn _ _ _ _)).bind fun _ => .pure _
      | ok e => exact .pure _

/-! ### Tests -/

theorem TestParameterDecl.compile_made (d : TestParameterDecl) (path : String) (p : Param) (span : Span) :
    Made moves R (Under o) [] (d.compile path p span) := by
  unfold compile
  refine made_guard (made_fail rfl) fun _ => ?_
  split
  · exact made_ite (.pure _) (made_fail rfl)
  · exact (made_value _ _ _).bind fun _ => made_ite (.pure _) (made_fail rfl)
  · exact made_unsupported _

theorem AssertionDecl.compile_made (d : AssertionDecl) (path : String) (result : Typed) (span : Span) :
    Made moves R (Under o) [] (d.compile path result span) := by
  refine made_ite ?_ (made_ite ?_ (made_unsupported _))
  · split
    · exact made_fail rfl
    · exact (made_value _ _ _).bind fun _ => made_ite (.pure _) (made_fail rfl)
  · split
    · exact .pure _
    · exact made_fail rfl

theorem FunctionTestDecl.compile_made (d : FunctionTestDecl) (path : String) (parameters : List Param)
    (result : Typed) : Made moves R (Under o) [] (d.compile path parameters result) := by
  refine made_guard (made_fail rfl) fun _ => (made_mapM fun a _ => a.1.compile_made _ _ _).bind fun _ => ?_
  split
  · exact made_fail rfl
  · exact (AssertionDecl.compile_made _ _ _ _).bind fun _ => .pure _

theorem FunctionDecl.compileTests_made (d : FunctionDecl) (f : FunctionContent) : Made moves R (Under o) [] (d.compileTests f) :=
  made_ite (.pure _) (made_guard (made_fail rfl) fun _ => made_guard (made_fail rfl) fun _ =>
    made_mapM fun t _ => t.compile_made _ _ _)

/-! ### Declarations -/

theorem SectionIndexDecl.declare_made (d : SectionIndexDecl) : Made moves Stays (Under o) [d.header] d.declare :=
  (Made.register _ _ _).bind_only fun _ => made_imports fun _ => rfl

theorem EnumerationDecl.declare_made (d : EnumerationDecl) : Made moves Stays (Under o) [d.header] d.declare := by
  refine (Made.register _ _ _).bind_only fun _ => made_place (fun c => ?_) fun _ => rfl
  refine (made_liftM (c.annotations_told _)).bind fun _ => (made_mapM fun v _ => ?_).bind fun _ => ?_
  · exact (made_liftM (c.annotations_told _)).bind fun _ => .pure _
  · exact .edit (edits_update fun _ => stays_update (fun _ => rfl) fun _ => rfl)

theorem ClassDecl.declare_made (d : ClassDecl) : Made moves Stays (Under o) [d.header] d.declare := by
  refine (Made.register _ _ _).bind_only fun _ => made_place (fun c => ?_) fun _ => rfl
  refine (made_liftM (c.annotations_told _)).bind fun _ => ?_
  exact .edit (edits_update fun _ => stays_update (fun _ => rfl) fun _ => rfl)

theorem Stage.advance_eq {s next : Stage} (h : s.rank < next.rank) : s.advance next = .ok next := if_neg (Int.not_le.2 h)

theorem Stage.advance_told {s next : Stage} (h : s.rank < next.rank) : (s.advance next).Told :=
  advance_eq h ▸ throws_ok _

theorem FunctionDecl.declare_made (d : FunctionDecl) : Made moves Stays (Under o) [d.elementHeader] d.declare := by
  refine made_place (fun c => (Made.register _ _ _).bind_only fun _ => ?_) fun c => ?_
  · refine made_guard (made_imports fun _ => rfl) fun _ => ?_
    refine (made_mapM fun _ _ => made_liftM (c.parameter_told _)).bind fun _ => ?_
    refine (made_liftM (c.resolveTyped_told _ _ _)).bind fun _ => (made_liftM (c.annotations_told _)).bind fun _ => ?_
    exact .edit (edits_update fun _ => stays_update (fun _ => rfl) fun _ => rfl)
  · simp only [(c.like_under o).parameter, (c.like_under o).resolveTyped]
    rfl

namespace MeasureDecl

variable (d : MeasureDecl)

theorem declareUnit_made (u : UnitDecl) : Made moves Stays (Under o) [d.unitHeader u] (d.declareUnit u) :=
  (Made.register _ _ _).bind_only fun _ => (made_imports fun _ => rfl).bind fun _ => .pure _

theorem declare_made : Made moves Stays (Under o) (d.header :: (d.canonical.toList ++ d.nonCanonical).map d.unitHeader)
    d.declare := by
  rw [List.map_append, List.map_eq_flatMap, List.map_eq_flatMap]
  refine (Made.register d.header _ _).seq fun _ => Made.seq ?_ fun _ =>
    (made_mapM_flatMap d.declareUnit_made d.nonCanonical).bind_only fun _ => .edit (edits_setContent _ _)
  cases d.canonical with
  | none => exact .pure none
  | some u => exact (d.declareUnit_made u).bind_only fun _ => .pure _

theorem compileUnit_made (u : UnitDecl) : Made moves Stays (Under o) [] (d.compileUnit u) := by
  unfold compileUnit
  split
  · exact .pure _
  · exact (made_runLambda d.header.path _ [] _ []).bind fun _ => .edit (edits_setContent _ _)

theorem compileStep_made : Made moves Stays (Under o) [] d.compileStep := by
  refine Made.bind ?_ fun _ => made_forM fun u _ => d.compileUnit_made u
  cases d.canonical with
  | none => exact .pure _
  | some u => exact d.compileUnit_made u

end MeasureDecl

/-! ### Classes -/

namespace ClassDecl

variable (d : ClassDecl)

theorem resolveSupers_told (c : Context) : ∀ (ps : List Pointer) (seen : List String), (d.resolveSupers c ps seen).Told
  | [], _ => throws_ok _
  | p :: ps, seen => by
    unfold resolveSupers
    refine (c.resolveType_told _ _).bind fun t => throws_ite (told_failAt _ _ rfl)
      (throws_ite (told_failAt _ _ rfl) ?_)
    exact (resolveSupers_told c ps _).bind fun _ => throws_ok _

theorem resolveSupers_under (c : Context) : ∀ (ps : List Pointer) (seen : List String),
    d.resolveSupers (c.under o) ps seen = d.resolveSupers c ps seen
  | [], _ => rfl
  | p :: ps, seen => by
    unfold resolveSupers
    simp only [resolveSupers_under c ps]
    rfl

theorem structureStep_made (hmoves : moves) : Made moves Stays (Under o) [] d.structureStep := by
  refine made_place (fun c => made_read (fun m => ?_) fun _ => rfl) fun c => ?_
  · refine (made_liftM (d.resolveSupers_told c _ _)).bind fun _ => ?_
    refine (made_mapM fun p _ => made_liftM (p.build_told c _)).bind fun _ => ?_
    refine (made_mapM fun q _ => made_liftM (q.1.signature_told c _ _ _)).bind fun _ => ?_
    refine (made_mapM fun p _ => made_liftM (p.build_told c _)).bind fun _ => (made_classOf _).bind fun _ => ?_
    exact (made_advance hmoves _ _).bind fun _ => made_setClass _ _
  · simp only [resolveSupers_under, PropertyDecl.build_under, QualifiedDecl.signature_under]

theorem compileQualified_made (q : QualifiedDecl) (i : Nat) : Made moves Stays (Under o) [] (d.compileQualified q i) := by
  refine (made_classOf _).bind fun content => ?_
  split
  · exact .pure _
  · exact (q.compileBody_made _ _ _ _).bind fun _ => (made_classOf _).bind fun _ => made_setClass _ _

theorem compileDefault_made (p : PropertyDecl) : Made moves Stays (Under o) [] (d.compileDefault p) := by
  refine (made_classOf _).bind fun content => ?_
  split
  · exact .pure _
  · refine made_ite ?_ (.pure _)
    exact (made_value _ _ _).bind fun _ => (made_classOf _).bind fun _ => made_setClass _ _

/-- What is compiled of a class before its stage moves on. -/
def compileMembers : Build (List Constraint) := do
  d.qualified.zipIdx.forM fun y => d.compileQualified y.1 y.2
  d.properties.forM d.compileDefault
  let m ← get
  d.constraints.mapM fun c => c.compile d.header.path [thisBinding m d.ref]

theorem compileStep_eq : d.compileStep = (do
    let constraints ← d.compileMembers
    let content ← classOf d.header.path
    let stage ← content.stage.advance .compiled
    setClass d.header.path { content with constraints, stage }) := by
  unfold compileStep compileMembers
  simp only [bind_assoc]

theorem compileMembers_made : Made moves Stays (Under o) [] d.compileMembers :=
  (made_forM fun y _ => d.compileQualified_made y.1 y.2).bind fun _ =>
    (made_forM fun p _ => d.compileDefault_made p).bind fun _ =>
      made_read (fun _ => made_mapM fun k _ => k.compile_made _ _) fun _ => rfl

theorem compileStep_made (hmoves : moves) : Made moves Stays (Under o) [] d.compileStep := by
  rw [compileStep_eq]
  exact d.compileMembers_made.bind fun _ => (made_classOf _).bind fun _ =>
    (made_advance hmoves _ _).bind fun _ => made_setClass _ _

end ClassDecl

/-! ### Milestoning -/

theorem DatedProperty.compile_made (d : DatedProperty) (owner : TypeRef) (q : QualifiedProperty) :
    Made moves R (Under o) [] (d.compile owner q) := by
  have heq : d.compile owner q = get >>= fun m => (fun k =>
      ((value owner.path (d.bodyNode (m.rawTemporal d.property.type.raw) q)
        (bodyScope (m.rawTemporal d.property.type.raw) q) >>= fun e => pure { q with body := [e] }) k).mapError
        fun f => f.wrap d.property.span (.milestonedMember q.name owner.path f.message) : Build QualifiedProperty) := by
    funext m
    have hget {g : Model → Build QualifiedProperty} : (get >>= g) m = g m m := rfl
    rw [hget, bind_run, compile]
    cases value owner.path (d.bodyNode (m.rawTemporal d.property.type.raw) q)
      (bodyScope (m.rawTemporal d.property.type.raw) q) m <;> rfl
  rw [heq]
  exact made_read (fun m => .wrap ((made_value _ _ _).bind fun _ => .pure _) fun f => f.told_wrap _ _ rfl) fun _ => rfl

/-- The properties among which milestoning looks for dated ones. -/
def countedProperties (ps : List Property) : List Property :=
  ps.filter fun p => !p.annotations.has Library.milestoningProfile Library.generatedMember

def datedProperties (m : Model) (owner : TypeRef) (ps : List Property) : List DatedProperty :=
  ((countedProperties ps).filter fun p => m.rawTemporal p.type.raw != .none).map fun p =>
    DatedProperty.of owner (m.declaredTemporal owner) (m.rawTemporal p.type.raw) p

def storedProperties (m : Model) (owner : TypeRef) (ps : List Property) : List Property :=
  (countedProperties ps).filter (fun p => !(m.rawTemporal p.type.raw != .none)) ++
    (datedProperties m owner ps).map (·.edgePoint)

theorem replaceDated_eq (owner : TypeRef) (lists : MemberLists) : replaceDated owner lists = (do
    let m ← get
    let c ← classOf owner.path
    let found := datedProperties m owner (lists.get c).1
    let stored := storedProperties m owner (lists.get c).1
    if found.isEmpty then pure ()
    else
      setClass owner.path
        { lists.put (stored, (lists.get c).2 ++ found.flatMap (·.derived)) c with
          originals := addOriginals c.originals found }
      let compiled ← found.mapM fun d => d.derived.mapM (d.compile owner)
      let c' ← classOf owner.path
      setClass owner.path (lists.put (stored, (lists.get c).2 ++ compiled.flatten) c')) := rfl

theorem replaceDated_made (owner : TypeRef) (lists : MemberLists) : Made moves Stays (Under o) [] (replaceDated owner lists) := by
  refine made_read (fun m => (made_classOf _).bind fun c => made_ite (.pure _) ?_) fun _ => rfl
  refine (made_setClass _ _).bind fun _ => ?_
  refine (made_mapM fun d _ => made_mapM fun q _ => d.compile_made owner q).bind fun _ => ?_
  exact (made_classOf _).bind fun _ => made_setClass _ _

theorem milestoneClass_made (hmoves : moves) (owner : TypeRef) : Made moves Stays (Under o) [] (milestoneClass owner) :=
  (replaceDated_made _ _).bind fun _ => (replaceDated_made _ _).bind fun _ => (made_classOf _).bind fun _ =>
    (made_advance hmoves _ _).bind fun _ => made_setClass _ _

/-! ### Associations -/

namespace AssociationDecl

variable (d : AssociationDecl)

theorem resolveEnds_told (c : Context) : (d.resolveEnds c).Told := by
  unfold resolveEnds
  split
  · refine (c.resolveClass_told _ _).bind fun first => (c.resolveClass_told _ _).bind fun second => ?_
    exact throws_guard (told_failAt _ _ rfl) fun _ => throws_ok _
  · exact told_failAt _ _ rfl

theorem declare_made : Made moves Stays (Under o) [d.header] d.declare := by
  refine (Made.register _ _ _).bind_only fun _ => made_place (fun c => ?_) fun c => ?_
  · refine (made_liftM (d.resolveEnds_told c)).bind fun ends => ?_
    refine (made_mapM fun p _ => made_liftM (p.build_told c _)).bind fun _ => ?_
    refine (made_mapM fun q _ => made_liftM (q.1.1.signature_told c _ _ _)).bind fun _ => ?_
    refine (made_mapM fun p _ => made_liftM (p.build_told c _)).bind fun _ => ?_
    refine (made_liftM (c.annotations_told _)).bind fun _ => ?_
    refine (made_liftM (Stage.advance_told Int.one_pos)).bind fun _ => ?_
    refine (Made.edit (edits_updateClass _ _)).bind fun _ => (Made.edit (edits_updateClass _ _)).bind fun _ => ?_
    refine (made_forM fun _ _ => .edit (edits_updateClass _ _)).bind fun _ => ?_
    exact .edit (edits_update fun _ => stays_update (fun _ => rfl) fun _ => rfl)
  · simp only [PropertyDecl.build_under, QualifiedDecl.signature_under]
    rfl

theorem contentOf_made (path : String) : Made moves R (Under o) [] (contentOf path) := by
  refine made_reading (fun m a n h => ?_) (fun m => ?_) fun m m' hm => ?_
  · unfold contentOf at h
    split at h <;> cases h <;> rfl
  · unfold contentOf
    split <;> exact throws_ok _
  · have hdeclared : m'.declared? path = m.declared? path := hm.2 ▸ rfl
    unfold contentOf
    rw [hdeclared]
    split <;> rfl

theorem milestoneStep_made (hmoves : moves) : Made moves Stays (Under o) [] d.milestoneStep := by
  refine (contentOf_made _).bind fun a => (made_advance hmoves _ _).bind fun _ => ?_
  split
  · exact .pure _
  · exact (made_classOf _).bind fun _ => (made_classOf _).bind fun _ => .edit (edits_setContent _ _)

theorem compileQualified_made (q : QualifiedDecl) (this : TypeRef) (i : Nat) :
    Made moves Stays (Under o) [] (d.compileQualified q this i) := by
  refine (contentOf_made _).bind fun a => ?_
  split
  · exact .pure _
  · refine (q.compileBody_made _ _ _ _).bind fun _ => (Made.edit (edits_updateClass _ _)).bind fun _ => ?_
    exact (contentOf_made _).bind fun _ => .edit (edits_setContent _ _)

theorem compileStep_made (hmoves : moves) : Made moves Stays (Under o) [] d.compileStep :=
  (contentOf_made _).bind fun _ => (made_forM fun _ _ => d.compileQualified_made _ _ _).bind fun _ =>
    (contentOf_made _).bind fun _ => (made_advance hmoves _ _).bind fun _ => .edit (edits_setContent _ _)

end AssociationDecl

/-! ### Functions -/

namespace FunctionDecl

variable (d : FunctionDecl)

theorem contentOf_made : Made moves R (Under o) [] d.contentOf := by
  refine made_reading (fun m a n h => ?_) (fun m => ?_) fun m m' hm => ?_
  · unfold contentOf at h
    split at h <;> cases h
    rfl
  · unfold contentOf
    split
    · exact throws_ok _
    · exact told_failAt _ _ rfl
  · have hdeclared : m'.declared? d.elementPath = m.declared? d.elementPath := hm.2 ▸ rfl
    unfold contentOf
    rw [hdeclared]
    split <;> rfl

theorem compileStep_made (hmoves : moves) : Made moves Stays (Under o) [] d.compileStep := by
  refine d.contentOf_made.bind fun f => made_guard (made_fail rfl) fun _ => (made_body _ _ _).bind fun body => ?_
  split
  · refine (Made.fits _ _ _ _).bind fun _ => (made_mapM fun c _ => c.compile_made _ _).bind fun _ => ?_
    refine (made_mapM fun c _ => c.compile_made _ _).bind fun _ => (d.compileTests_made f).bind fun _ => ?_
    exact (made_advance hmoves _ _).bind fun _ => .edit (edits_setContent _ _)
  · refine (made_fail rfl).bind fun _ => (made_mapM fun c _ => c.compile_made _ _).bind fun _ => ?_
    refine (made_mapM fun c _ => c.compile_made _ _).bind fun _ => (d.compileTests_made f).bind fun _ => ?_
    exact (made_advance hmoves _ _).bind fun _ => .edit (edits_setContent _ _)

end FunctionDecl

/-! ### Checks -/

theorem checkSupertypeCycles_made (classes : List ClassDecl) : Made moves R (Under o) [] (checkSupertypeCycles classes) := by
  refine made_read (fun m => ?_) fun _ => rfl
  dsimp only
  split
  · exact .pure _
  · exact made_fail rfl

end ModelGraph
