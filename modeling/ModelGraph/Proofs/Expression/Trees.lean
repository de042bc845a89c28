/-
# Graph fetch trees

A graph fetch tree selects members of a class, and under each branch members of the class that the
branch leads to: the subtype that it names, or else the class that its member returns. Each selected
member is one of a class in the order of the class it is selected from, by its name and, if it is
derived, by the number of its arguments, which are compiled with that class as `this`. A subtype is
only looked up as a class. Nothing holds it against what the member returns.

Key definitions: `ClassContent.HasMember`, `Expression.Picks`.
Key theorems: `Model.hasMember_of_member`, `Expression.compileBranch_selects`, `Expression.tree_selects`.
-/
import ModelGraph.Proofs.Expression.Compile

namespace ModelGraph

open Model ExprM List Option

variable {name : String} {arity : Nat} {x : Member} {a : NodeAttrs} {sub : Option TypeRef}

/-- A class has a member of a name. For a derived one, `arity` counts its parameters with the receiver. -/
def ClassContent.HasMember (c : ClassContent) (name : String) (arity : Nat) : Member → Prop
  | .stored p => p ∈ c.properties ++ c.assocProperties ∧ p.name = name
  | .derived q => q ∈ c.qualified ++ c.assocQualified ∧ q.name = name ∧ q.parameters.length = arity

namespace Expression

/-- A branch with attributes `a` picks the member `x` of the class `t`, or of one that `t` extends, and
narrows it to `sub`. -/
structure Picks (c : Context) (t : TypeRef) (a : NodeAttrs) (parameters : List Node) (x : Member) (args : List Expr)
    (sub : Option TypeRef) : Prop where
  form : a.form = .branch
  /-- Arguments see the class as `this`. -/
  arguments : ∃ s s', ExprM.within { param := .ofType "this" t .one } (compileAll c parameters) s = (.ok args, s')
  member : ∃ y ∈ c.model.classOrder t, y.2.HasMember a.property (parameters.length + 1) x
  whole : a.subType = "" → sub = none
  narrowed : a.subType ≠ "" → ∃ u, sub = some u ∧ c.resolveClass a.subType a.span = .ok u

mutual

/-- A branch as it is compiled from a node, for a class. -/
inductive Selects (c : Context) : TypeRef → Node → FetchBranch → Prop
  | leaf {t : TypeRef} {a : NodeAttrs} {parameters body values : List Node} {x : Member} {args : List Expr}
      {sub : Option TypeRef} {i : ExprInfo} (picks : Picks c t a parameters x args sub) :
      Selects c t (.mk a parameters body values []) (.mk x.callee i args a.aliasName (sub.map (·.path)) [])
  | inner {t next : TypeRef} {a : NodeAttrs} {parameters body values subTrees : List Node} {x : Member} {args : List Expr}
      {sub : Option TypeRef} {i : ExprInfo} {branches : List FetchBranch} (picks : Picks c t a parameters x args sub)
      (next_eq : sub.or x.type.raw.class? = some next) (rest : SelectsAll c next subTrees branches) :
      Selects c t (.mk a parameters body values subTrees)
        (.mk x.callee i args a.aliasName (sub.map (·.path)) branches)

/-- Branches as they are compiled from nodes, in order. -/
inductive SelectsAll (c : Context) : TypeRef → List Node → List FetchBranch → Prop
  | nil (t : TypeRef) : SelectsAll c t [] []
  | cons {t : TypeRef} {n : Node} {ns : List Node} {b : FetchBranch} {bs : List FetchBranch}
      (head : Selects c t n b) (tail : SelectsAll c t ns bs) : SelectsAll c t (n :: ns) (b :: bs)

end

end Expression

/-! ### Members -/

theorem ClassContent.hasMember_of_ownMember? {c : ClassContent} (h : ownMember? c name arity = some x) : c.HasMember name arity x := by
  unfold ownMember? at h
  split at h
  · rename_i p hp
    cases h
    exact ⟨mem_of_find?_eq_some hp, by simpa using find?_some hp⟩
  · have hderived {qs : List QualifiedProperty} {q : QualifiedProperty}
        (hq : qs.find? (fun q => q.name = name && q.parameters.length = arity) = some q) :
        q ∈ qs ∧ q.name = name ∧ q.parameters.length = arity :=
      ⟨mem_of_find?_eq_some hq, by simpa using find?_some hq⟩
    rcases or_eq_some_iff.1 h with h | ⟨-, h⟩ <;> obtain ⟨q, hq, rfl⟩ := map_eq_some_iff.1 h
    · exact ⟨mem_append_left _ (hderived hq).1, (hderived hq).2⟩
    · exact ⟨mem_append_right _ (hderived hq).1, (hderived hq).2⟩

theorem Model.hasMember_of_member {m : Model} {t : TypeRef} {span : Span} (h : m.member t name arity span = .ok x) : ∃ y ∈ m.classOrder t, y.2.HasMember name arity x := by
  unfold member at h
  split at h
  · rename_i found hfound
    cases h
    obtain ⟨y, hy, hown⟩ := exists_of_findSome?_eq_some hfound
    exact ⟨y, hy, ClassContent.hasMember_of_ownMember? hown⟩
  · cases h

/-! ### Branches -/

theorem ExprM.ofResult_eq_ok {α : Type} {r : Result α} {s s' : ExprState} {a : α}
    (h : ofResult r s = (.ok a, s')) : r = .ok a := (Prod.mk.inj h).1

namespace Expression

variable {c : Context} {t : TypeRef} {s s' : ExprState}

theorem compileAll_length : ∀ {ns : List Node} {s s' : ExprState} {es : List Expr},
    compileAll c ns s = (.ok es, s') → es.length = ns.length
  | [], s, s', es, h => by
    cases h
    rfl
  | n :: ns, s, s', es, h => by
    obtain ⟨e, s₁, -, h⟩ := bind_eq_ok.1 h
    obtain ⟨rest, s₂, hrest, h⟩ := bind_eq_ok.1 h
    cases h
    rw [length_cons, length_cons, compileAll_length hrest]

theorem length_of_within {b : Binding} {ns : List Node} {es : List Expr}
    (h : within b (compileAll c ns) s = (.ok es, s')) : es.length = ns.length := by
  unfold within at h
  rcases hrun : compileAll c ns { s with scope := b :: s.scope } with ⟨r, u⟩
  rw [hrun] at h
  cases (Prod.mk.inj h).1
  exact compileAll_length hrun

theorem branchClass_ok {raw : RawType} {next : TypeRef} (h : branchClass a raw sub = .ok next) : sub.or raw.class? = some next := by
  unfold branchClass at h
  split at h
  · rename_i hnext
    cases h
    exact hnext
  · cases h

theorem finishBranch_selects {parameters subTrees : List Node} (body values : List Node) {args : List Expr}
    {b : FetchBranch} (hpicks : Picks c t a parameters x args sub)
    (hrest : ∀ (next : TypeRef) {s s' : ExprState} {bs : List FetchBranch},
      compileBranches c subTrees next s = (.ok bs, s') → SelectsAll c next subTrees bs)
    (h : finishBranch c a args x subTrees sub s = (.ok b, s')) : Selects c t (.mk a parameters body values subTrees) b := by
  unfold finishBranch at h
  split at h
  · rename_i hempty
    cases h
    rw [List.isEmpty_iff.1 hempty]
    exact .leaf hpicks
  · obtain ⟨next, s₁, hnext, h⟩ := bind_eq_ok.1 h
    obtain ⟨branches, s₂, hbranches, h⟩ := bind_eq_ok.1 h
    cases h
    exact .inner hpicks (branchClass_ok (ofResult_eq_ok hnext)) (hrest next hbranches)

mutual

/-- **A branch selects a member of the class that it is compiled for, and so do those under it.** -/
theorem compileBranch_selects : ∀ (n : Node) (t : TypeRef) {s s' : ExprState} {b : FetchBranch},
    compileBranch c n t s = (.ok b, s') → Selects c t n b
  | .mk a parameters body values subTrees, t, s, s', b, h => by
    unfold compileBranch at h
    split at h
    · cases h
    rename_i hform
    replace hform : a.form = .branch := by
      revert hform
      cases a.form <;> decide
    obtain ⟨args, s₁, hargs, h⟩ := bind_eq_ok.1 h
    obtain ⟨x, s₂, hx, h⟩ := bind_eq_ok.1 h
    have hmember := hasMember_of_member (ofResult_eq_ok hx)
    rw [length_of_within hargs] at hmember
    have hrest (next : TypeRef) {s s' : ExprState} {bs : List FetchBranch}
        (h : compileBranches c subTrees next s = (.ok bs, s')) : SelectsAll c next subTrees bs :=
      compileBranches_selects subTrees next h
    by_cases hsub : a.subType = ""
    · rw [if_pos hsub] at h
      exact finishBranch_selects body values
        ⟨hform, ⟨_, _, hargs⟩, hmember, fun _ => rfl, fun hne => absurd hsub hne⟩ hrest h
    · rw [if_neg hsub] at h
      obtain ⟨sub, s₃, hname, h⟩ := bind_eq_ok.1 h
      obtain ⟨u, s₄, hu, hname⟩ := bind_eq_ok.1 hname
      cases hname
      exact finishBranch_selects body values
        ⟨hform, ⟨_, _, hargs⟩, hmember, fun heq => absurd heq hsub, fun _ => ⟨u, rfl, ofResult_eq_ok hu⟩⟩ hrest h

theorem compileBranches_selects : ∀ (ns : List Node) (t : TypeRef) {s s' : ExprState} {bs : List FetchBranch},
    compileBranches c ns t s = (.ok bs, s') → SelectsAll c t ns bs
  | [], t, s, s', bs, h => by
    unfold compileBranches at h
    cases h
    exact .nil t
  | n :: ns, t, s, s', bs, h => by
    obtain ⟨b, s₁, hb, h⟩ := bind_eq_ok.1 h
    obtain ⟨rest, s₂, hrest, h⟩ := bind_eq_ok.1 h
    cases h
    exact .cons (compileBranch_selects n t hb) (compileBranches_selects ns t hrest)

end

/-- **Graph fetch trees select members at every depth.** A tree that compiles is a tree of the class that
it names, whose branches select members of that class; under each of them, branches select members of
the class that it names as a subtype, or else of the class that its member returns. -/
theorem tree_selects {n : Node} {e : Expr} (hform : n.attrs.form = .tree) (h : compile c n s = (.ok e, s')) :
    ∃ t branches, c.resolveClass n.attrs.className n.attrs.span = .ok t ∧
      e = .constant (.mk (.named Library.rootTreeClass) [.ofRef t]) n.attrs.span
        (.tree (.mk t.path n.attrs.span branches)) ∧ SelectsAll c t n.subTrees branches := by
  obtain ⟨a, parameters, body, values, subTrees⟩ := n
  replace hform : a.form = .tree := hform
  unfold compile at h
  rw [hform] at h
  obtain ⟨t, s₁, ht, h⟩ := bind_eq_ok.1 h
  obtain ⟨branches, s₂, hbranches, h⟩ := bind_eq_ok.1 h
  cases h
  exact ⟨t, branches, ofResult_eq_ok ht, rfl, compileBranches_selects subTrees t hbranches⟩

/-- A class with a property and a derived property of a second class, and a third class beside them. -/
def unrelated : Document :=
  { classes :=
      [{ header := { package := "m", name := "P" }
         properties := [member "q" "m::Q"]
         qualified :=
           [{ name := "at", parameters := [Node.parameterOf "n" "Integer"], returnName := "m::Q"
              bounds := { lower := 1, upper := some 1 }
              body := [.mk { tag := Node.propertyTag, property := "q" } [Node.reference "this"] [] [] []] }] },
       { header := { package := "m", name := "Q" }, properties := [member "y" "String"] },
       { header := { package := "m", name := "R" }, properties := [member "x" "String"] }] }
where
  member (name type : String) : PropertyDecl := { name, typeName := type, bounds := { lower := 1, upper := some 1 } }
  branch (property subType : String) (args subTrees : List Node) : Node :=
    .mk { tag := Node.propertyTreeTag, property, subType } args [] [] subTrees
  /-- A tree of the first class. It selects the derived property, and the property as one of the third. -/
  tree : Node :=
    .mk { tag := Node.rootTreeTag, className := "m::P" } [] [] []
      [branch "at" "" [.mk { tag := Node.integerTag, value := some (.ofInt 1) } [] [] [] []] [branch "y" "" [] []],
       branch "q" "m::R" [] [branch "x" "" [] []]]

/-- What a branch selects and its subtype, with what the branches under it select. -/
def fetched : FetchBranch → Callee × Option String × List Callee
  | .mk callee _ _ _ subType branches => (callee, subType, callees branches)
where
  callees : List FetchBranch → List Callee
    | [] => []
    | .mk callee _ _ _ _ _ :: rest => callee :: callees rest

def branchesOf : Expr → List FetchBranch
  | .instances _ [.tree (.mk _ _ branches)] => branches
  | _ => []

theorem unrelated_compiled : ∃ m e s', (unrelated.build {}).result = .ok m ∧
    compile (.of m "") unrelated.tree {} = (.ok e, s') ∧
    (branchesOf e).map fetched = [(.qualified "m::P" "at" 1, none, [.property "m::Q" "y"]),
      (.property "m::P" "q", some "m::R", [.property "m::R" "x"])] ∧
    ((m.class? "m::P").any fun k => k.properties.any fun p =>
      p.callee = .property "m::P" "q" && p.type.raw.class? = some (Library.classRef "m" "Q")) = true ∧
    m.isSubType (.named (Library.classRef "m" "R")) (.named (Library.classRef "m" "Q")) = false := by
  obtain ⟨m, hm, ⟨e, he, hfetched⟩, hclass, hsub⟩ : ∃ m, (unrelated.build {}).result = .ok m ∧
      (∃ e, (compile (.of m "") unrelated.tree {}).1 = .ok e ∧
        (branchesOf e).map fetched = [(.qualified "m::P" "at" 1, none, [.property "m::Q" "y"]),
          (.property "m::P" "q", some "m::R", [.property "m::R" "x"])]) ∧
      ((m.class? "m::P").any fun k => k.properties.any fun p =>
        p.callee = .property "m::P" "q" && p.type.raw.class? = some (Library.classRef "m" "Q")) = true ∧
      m.isSubType (.named (Library.classRef "m" "R")) (.named (Library.classRef "m" "Q")) = false := by
    decide +kernel
  exact ⟨m, e, _, hm, Prod.ext he rfl, hfetched, hclass, hsub⟩

/-- The tree selects the derived property with its argument, and under both branches members of the
classes that they lead to. -/
theorem unrelated_selects : ∃ m e s' t branches, (unrelated.build {}).result = .ok m ∧
    unrelated.tree.attrs.form = .tree ∧ compile (.of m "") unrelated.tree {} = (.ok e, s') ∧
    (branchesOf e).map fetched = [(.qualified "m::P" "at" 1, none, [.property "m::Q" "y"]),
      (.property "m::P" "q", some "m::R", [.property "m::R" "x"])] ∧
    (Context.of m "").resolveClass "m::P" {} = .ok t ∧
    e = .constant (.mk (.named Library.rootTreeClass) [.ofRef t]) {} (.tree (.mk t.path {} branches)) ∧
    SelectsAll (.of m "") t unrelated.tree.subTrees branches := by
  obtain ⟨m, e, s', hm, hrun, hfetched, -⟩ := unrelated_compiled
  obtain ⟨t, branches, ht, he, hselects⟩ := tree_selects rfl hrun
  exact ⟨m, e, s', t, branches, hm, rfl, hrun, hfetched, ht, he, hselects⟩

/-- The second branch is narrowed to a class that is not a subtype of what the property returns. -/
theorem unrelated_narrowed : ∃ m e s' b k p, (unrelated.build {}).result = .ok m ∧
    compile (.of m "") unrelated.tree {} = (.ok e, s') ∧ b ∈ branchesOf e ∧ m.class? "m::P" = some k ∧
    p ∈ k.properties ∧ fetched b = (p.callee, some "m::R", [.property "m::R" "x"]) ∧
    p.type.raw.class? = some (Library.classRef "m" "Q") ∧
    m.isSubType (.named (Library.classRef "m" "R")) (.named (Library.classRef "m" "Q")) = false := by
  obtain ⟨m, e, s', hm, hrun, hfetched, hclass, hsub⟩ := unrelated_compiled
  obtain ⟨k, hk, hany⟩ := (Option.any_eq_true _ _).1 hclass
  obtain ⟨p, hp, hfacts⟩ := any_eq_true.1 hany
  simp only [Bool.and_eq_true, decide_eq_true_eq] at hfacts
  have hmem : (.property "m::P" "q", some "m::R", [.property "m::R" "x"]) ∈ (branchesOf e).map fetched := by
    rw [hfetched]
    exact mem_cons_of_mem _ (.head _)
  obtain ⟨b, hb, heq⟩ := mem_map.1 hmem
  refine ⟨m, e, s', b, k, p, hm, hrun, hb, hk, hp, ?_, hfacts.2, hsub⟩
  rw [hfacts.1]
  exact heq

end Expression
end ModelGraph
