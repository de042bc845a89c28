/-
# Operations and what they lead to

An operation names its parameters by id. Linking turns each id into a reference to the
class mapping of that id among those that the mapping of the operation sees, and ids are
unique there: so an operation leads to a class mapping if it names the id of it and its
mapping includes the other one, directly or through others, or is the same.

Nothing keeps an operation from naming itself. To look through operations for the types
that instances are built from comes to an end if no operation on the way leads back to
itself, and only then; and the bound on that search is enough for all that ends.

Key definitions: `Model.Unfolds`.
Key theorems: `Model.Unfolds.sourceTypes_eq`, `Document.Trace.leads_iff`,
`Document.sources_end_without_cycle`.
-/
import ModelGraph.Proofs.Mapping.Links
import ModelGraph.Proofs.Mapping.Validation

namespace ModelGraph

open Model Build Relation List Search

variable {m : Model} {d : Document} {o : Options}

/-! ### Looking through operations without a bound -/

theorem SetImplementation.core_cases (s : SetImplementation) :
    (∃ base source filter, s.core = .instances base source filter) ∨
    (∃ base database table isDistinct, s.core = .relational base database table isDistinct) ∨
    ∃ base operator function parameters validation,
      s.core = .operation base operator function parameters validation := by
  cases s with
  | instances base source filter => exact .inl ⟨base, source, filter, rfl⟩
  | relational base database table isDistinct => exact .inr (.inl ⟨base, database, table, isDistinct, rfl⟩)
  | operation base operator function parameters validation =>
    exact .inr (.inr ⟨base, operator, function, parameters, validation, rfl⟩)
  | aggregation _ main _ => exact core_cases main

namespace Model

variable {r r' x : SetRef} {s : SetImplementation} {ts : List TypeRef}

/-- Looking for the types that instances of a class mapping are built from, through
operations however deep, comes to an end with the given types. -/
inductive Unfolds (m : Model) : SetImplementation → List TypeRef → Prop
  | instances {s : SetImplementation} {base : SetBase} {source : Option TypeRef} {filter : Option Expr} :
      s.core = .instances base source filter → Unfolds m s source.toList
  | rows {s : SetImplementation} {base : SetBase} {database : String} {table : TableRef} {isDistinct : Bool} :
      s.core = .relational base database table isDistinct → Unfolds m s []
  | operation {s : SetImplementation} {base : SetBase} {operator function : String}
      {parameters : List (String × Option SetRef)} {validation : Option Expr} (types : SetRef → List TypeRef) :
      s.core = .operation base operator function parameters validation →
      (∀ r ∈ s.references, ∀ s', m.setAt? r = some s' → Unfolds m s' (types r)) →
      (∀ r ∈ s.references, m.setAt? r = none → types r = []) →
      Unfolds m s (distinct (s.references.flatMap types))

theorem sourceTypesWithin_operation {base : SetBase} {operator function : String}
    {parameters : List (String × Option SetRef)} {validation : Option Expr}
    (hs : s.core = .operation base operator function parameters validation) (depth : Nat) :
    m.sourceTypesWithin (depth + 1) s =
      distinct (s.references.flatMap fun r => ((m.setAt? r).map (m.sourceTypesWithin depth)).getD []) := by
  have hrefs : s.references = parameters.filterMap (·.2) := by
    unfold SetImplementation.references
    rw [hs]
  rw [hrefs, filterMap_eq_flatMap_toList, flatMap_assoc, sourceTypesWithin, hs]
  refine congrArg distinct (flatMap_congr fun p _ => ?_)
  rcases p.2 with _ | r
  · rfl
  · exact (append_nil _).symm

theorem not_transGen_of_acc (h : Acc (fun b a => m.Leads a b) r) :
    ∀ x, ReflTransGen m.Leads r x → ¬ TransGen m.Leads x x := by
  induction h with
  | intro r _ ih =>
    intro x hrx hxx
    rcases ReflTransGen.cases_head hrx with rfl | ⟨y, hry, hyx⟩
    · obtain ⟨y, hry, hyr⟩ := TransGen.head'_iff.1 hxx
      exact ih y hry r hyr hxx
    · exact ih y hry x hyx hxx

theorem Unfolds.acc (h : m.Unfolds s ts) : ∀ r ∈ s.references, Acc (fun b a => m.Leads a b) r := by
  induction h with
  | instances hs =>
    intro r hr
    unfold SetImplementation.references at hr
    rw [hs] at hr
    cases hr
  | rows hs =>
    intro r hr
    unfold SetImplementation.references at hr
    rw [hs] at hr
    cases hr
  | operation types hs _ _ ih =>
    intro r hr
    refine ⟨r, fun b hb => ?_⟩
    obtain ⟨s', hs', hmem, -⟩ := hb.exists_mem
    exact ih r hr s' hs' b hmem

theorem acc_of_acyclic (h : ∀ x, ReflTransGen m.Leads r x → ¬ TransGen m.Leads x x) :
    Acc (fun b a => m.Leads a b) r := by
  -- The relation is cut down to what is reached from `r`, where it has no cycle.
  have hwf : WellFounded fun b a => m.Leads a b ∧ ReflTransGen m.Leads r a := by
    refine wellFounded_of_acyclic m.setRefs (fun hab => ?_) fun x hx => ?_
    · obtain ⟨s, hs, -⟩ := hab.1.exists_mem
      exact mem_setRefs hs
    · have hback : TransGen m.Leads x x := by
        rw [← transGen_swap]
        exact TransGen.mono (fun _ _ hab => hab.1) _ _ hx
      obtain ⟨y, -, -, hreach⟩ := TransGen.tail'_iff.1 hx
      exact h x hreach hback
  have hreached : ∀ a, ReflTransGen m.Leads r a → Acc (fun b a => m.Leads a b) a := by
    intro a
    induction a using hwf.induction with
    | _ a ih => exact fun ha => ⟨a, fun b hab => ih b ⟨hab, ha⟩ (ha.tail hab)⟩
  exact hreached r .refl

theorem exists_unfolds_of_references
    (h : ∀ r ∈ s.references, ∀ s', m.setAt? r = some s' → ∃ ts, m.Unfolds s' ts) : ∃ ts, m.Unfolds s ts := by
  rcases s.core_cases with ⟨base, source, filter, hs⟩ | ⟨base, database, table, isDistinct, hs⟩ |
    ⟨base, operator, function, parameters, validation, hs⟩
  · exact ⟨_, .instances hs⟩
  · exact ⟨_, .rows hs⟩
  · have htypes : ∀ r, ∃ ts, r ∈ s.references →
        (∀ s', m.setAt? r = some s' → m.Unfolds s' ts) ∧ (m.setAt? r = none → ts = []) := by
      intro r
      rcases hr : m.setAt? r with _ | s'
      · exact ⟨[], fun _ => ⟨nofun, fun _ => rfl⟩⟩
      · by_cases hmem : r ∈ s.references
        · obtain ⟨ts, hts⟩ := h r hmem s' hr
          refine ⟨ts, fun _ => ⟨fun s'' hs'' => ?_, nofun⟩⟩
          cases hs''
          exact hts
        · exact ⟨[], fun h => absurd h hmem⟩
    choose types htypes using htypes
    exact ⟨_, .operation types hs (fun r hr => (htypes r hr).1) fun r hr => (htypes r hr).2⟩

theorem exists_unfolds_of_acc (h : Acc (fun b a => m.Leads a b) r) :
    ∀ s, m.setAt? r = some s → ∃ ts, m.Unfolds s ts := by
  induction h with
  | intro r _ ih =>
    intro s hs
    refine exists_unfolds_of_references fun r' hr' s' hs' => ?_
    exact ih r' (leads_of_mem hs hr' (by rw [hs']; rfl)) s' hs'

/-- **Looking through operations ends where none leads back to itself.** -/
theorem exists_unfolds_iff : (∃ ts, m.Unfolds s ts) ↔
    ∀ r ∈ s.references, ∀ x, ReflTransGen m.Leads r x → ¬ TransGen m.Leads x x := by
  constructor
  · rintro ⟨ts, h⟩ r hr
    exact not_transGen_of_acc (h.acc r hr)
  · intro h
    refine exists_unfolds_of_references fun r hr s' hs' => ?_
    exact exists_unfolds_of_acc (acc_of_acyclic (h r hr)) s' hs'

/-- A search that ends does so within the bound. `trail` are the class mappings on the way,
which are all different, so that there are never more of them than the model has. -/
theorem Unfolds.sourceTypesWithin_eq (h : m.Unfolds s ts) : ∀ (trail : List SetRef) (depth : Nat),
    trail.Nodup → trail ⊆ m.setRefs →
    (∀ a ∈ trail, ∀ r ∈ s.references, (m.setAt? r).isSome → TransGen m.Leads a r) →
    m.setCount + 1 ≤ depth + trail.length → m.sourceTypesWithin depth s = ts := by
  have hdepth : ∀ {trail : List SetRef} {depth : Nat}, trail.Nodup → trail ⊆ m.setRefs →
      m.setCount + 1 ≤ depth + trail.length → ∃ k, depth = k + 1 := by
    intro trail depth hnodup hsub hlen
    have hle := (subperm_of_subset hnodup hsub).length_le
    rw [length_setRefs] at hle
    exact ⟨depth - 1, by omega⟩
  induction h with
  | instances hs =>
    intro trail depth hnodup hsub _ hlen
    obtain ⟨k, rfl⟩ := hdepth hnodup hsub hlen
    rw [sourceTypesWithin, hs]
  | rows hs =>
    intro trail depth hnodup hsub _ hlen
    obtain ⟨k, rfl⟩ := hdepth hnodup hsub hlen
    rw [sourceTypesWithin, hs]
  | @operation s base operator function parameters validation types hs hunfolds hnone ih =>
    intro trail depth hnodup hsub htrail hlen
    obtain ⟨k, rfl⟩ := hdepth hnodup hsub hlen
    rw [sourceTypesWithin_operation hs]
    congr 1
    refine flatMap_congr fun r hr => ?_
    rcases hr' : m.setAt? r with _ | s'
    · exact (hnone r hr hr').symm
    have hsome : (m.setAt? r).isSome := by rw [hr']; rfl
    have hacc := (Unfolds.operation types hs hunfolds hnone).acc r hr
    have hfresh : r ∉ trail := fun hmem =>
      not_transGen_of_acc hacc r .refl (htrail r hmem r hr hsome)
    refine ih r hr s' hr' (r :: trail) k (nodup_cons.2 ⟨hfresh, hnodup⟩)
      (cons_subset.2 ⟨mem_setRefs hr', hsub⟩) (fun a ha r' hmem hsome' => ?_) ?_
    · have hlead := leads_of_mem hr' hmem hsome'
      rcases mem_cons.1 ha with rfl | ha
      · exact .single hlead
      · exact (htrail a ha r hr hsome).tail hlead
    · rw [length_cons]
      omega

/-- **The bound on operations within operations is enough for all that ends.** -/
theorem Unfolds.sourceTypes_eq (h : m.Unfolds s ts) : m.sourceTypes s = ts :=
  h.sourceTypesWithin_eq [] (m.setCount + 1) nodup_nil (nil_subset _) (fun _ h => nomatch h)
    (Nat.le_refl _)

end Model

/-! ### What operations lead to -/

theorem firstRepeated?_eq_none {α : Type} [BEq α] [LawfulBEq α] : ∀ {l seen : List α},
    firstRepeated? l seen = none → l.Nodup ∧ ∀ a ∈ l, a ∉ seen
  | [], _, _ => ⟨nodup_nil, fun _ h => nomatch h⟩
  | a :: as, seen, h => by
    unfold firstRepeated? at h
    split at h
    · cases h
    · rename_i hseen
      obtain ⟨hnodup, hnew⟩ := firstRepeated?_eq_none h
      refine ⟨nodup_cons.2 ⟨fun ha => hnew a ha (.head _), hnodup⟩, fun b hb => ?_⟩
      rcases mem_cons.1 hb with rfl | hb
      · simpa using hseen
      · exact fun hs => hnew b hb (.tail _ hs)

theorem Model.checkIds_ensures (path : String) (span : Span) :
    (checkIds path span).Ensures m fun _ _ =>
      m.repeatedId? m.setIds path = none ∧ m.repeatedId? m.enumMappingIds path = none := by
  unfold checkIds
  rw [ensures_bind, ensures_get]
  split
  · exact ensures_fail.2 trivial
  · rename_i hnone
    split
    · exact ensures_fail.2 trivial
    · rename_i hnone'
      exact ensures_pure.2 ⟨hnone, hnone'⟩

namespace Document

variable {r r' : SetRef} {s s' : SetImplementation}

section

variable (t : d.Trace o m)
include t

theorem Trace.repeatedId?_eq_none {path : String} (h : path ∈ d.mappingPaths) :
    m.repeatedId? m.setIds path = none ∧ m.repeatedId? m.enumMappingIds path = none := by
  obtain ⟨a, ha, rfl⟩ := mem_map.1 h
  have hchecked : (checkMappings d.mappings).Ensures t.served fun _ _ =>
      ∀ a ∈ d.mappings, t.served.repeatedId? t.served.setIds a.header.path = none ∧
        t.served.repeatedId? t.served.enumMappingIds a.header.path = none := by
    unfold checkMappings
    simp only [ensures_bind, ensures_liftM]
    intro _ _ _ _
    refine (ensures_forM_done (fun (done : List MappingDecl) n => t.served.Noted n ∧
      ∀ a ∈ done, t.served.repeatedId? t.served.setIds a.header.path = none ∧
        t.served.repeatedId? t.served.enumMappingIds a.header.path = none) d.mappings ⟨.refl _, by simp⟩
      fun pre a post _ n hn => ?_).mono fun _ n hn => ensures_get.2 fun _ _ _ => hn.2
    refine (((checkIds_made _ _).notes n).and (checkIds_ensures _ _)).mono fun _ n' hn' => ⟨hn.1.trans hn'.1, ?_⟩
    have hsame : t.served.Same n := .of_noted hn.1
    rw [Sees.repeatedId? hsame, Sees.setIds hsame, Sees.enumMappingIds hsame] at hn'
    exact forall_mem_append.2 ⟨hn.2, forall_mem_singleton.2 hn'.2⟩
  obtain ⟨n, hn, -⟩ := t.checked
  have hsame : t.served.Same m := .of_noted t.noted
  rw [Sees.repeatedId? hsame, Sees.setIds hsame, Sees.enumMappingIds hsame]
  exact hchecked _ _ hn a ha

theorem Trace.ids_nodup {path : String} (h : path ∈ d.mappingPaths) :
    ((m.allSets path).map fun s => s.2.id).Nodup := by
  have hnodup := (firstRepeated?_eq_none (t.repeatedId?_eq_none h).1).1
  have hperm := (postorder_perm_preorder m.includesOf (m.elements.length + 1) path).flatMap_right m.setIds
  rw [allSets, cons_includedMappings, map_flatMap]
  exact hperm.nodup_iff.1 hnodup

theorem Trace.mapping_mem (hs : m.setAt? r = some s) : r.mapping ∈ d.mappingPaths := by
  obtain ⟨x, hx, -⟩ := Option.bind_eq_some_iff.1 hs
  exact t.mapping?_isSome.1 (has_mapping.2 ⟨x, hx⟩)

theorem Trace.parameter_found (hs : m.setAt? r = some s) {p : String × Option SetRef}
    (hp : p ∈ s.parameters) : ∃ r' s', p.2 = some r' ∧ m.setAt? r' = some s' ∧ s'.id = p.1 ∧
      ReflTransGen m.Includes r.mapping r'.mapping := by
  obtain ⟨a, ha, hpath⟩ := mem_map.1 (t.mapping_mem hs)
  obtain ⟨x, hx, hget⟩ := Option.bind_eq_some_iff.1 hs
  rw [← hpath] at hx
  obtain ⟨n, hsame, hlinked⟩ := t.sets_linked ha hx
  obtain ⟨s₀, -, hlink⟩ := Result.exists_of_mapM hlinked (mem_of_getElem? hget)
  obtain ⟨⟨r', s₁⟩, hfound, heq⟩ := parameters_linkSet hlink p hp
  obtain ⟨s', hs', halike⟩ := hsame.symm.setAt? (setAt?_of_setById? hfound)
  have hid : s₁.id = p.1 := by simpa using find?_some hfound
  refine ⟨r', s', heq, hs', halike.id ▸ hid, ?_⟩
  have hincludes : n.Includes = m.Includes := by
    unfold Includes
    rw [hsame.includesOf]
  rw [← hpath, ← hincludes]
  exact reaches_of_setById? hfound

/-- **What an operation leads to is given by ids and includes.** -/
theorem Trace.leads_iff : m.Leads r r' ↔ ∃ s s', m.setAt? r = some s ∧
    m.setAt? r' = some s' ∧ s'.id ∈ s.parameters.map (·.1) ∧ ReflTransGen m.Includes r.mapping r'.mapping := by
  constructor
  · intro h
    obtain ⟨s, hs, hmem, -⟩ := h.exists_mem
    rw [SetImplementation.references_eq] at hmem
    obtain ⟨p, hp, hpr⟩ := mem_filterMap.1 hmem
    obtain ⟨r₁, s', heq, hs', hid, hreach⟩ := t.parameter_found hs hp
    cases heq.symm.trans hpr
    exact ⟨s, s', hs, hs', hid ▸ mem_map_of_mem hp, hreach⟩
  · rintro ⟨s, s', hs, hs', hid, hreach⟩
    obtain ⟨p, hp, hpid⟩ := mem_map.1 hid
    obtain ⟨r₁, s₁, heq, hs₁, hid₁, hreach₁⟩ := t.parameter_found hs hp
    have hpath := t.mapping_mem hs
    -- Both are seen under one id, so they are the same.
    have hsame := inj_on_of_nodup_map (t.ids_nodup hpath) (t.linked_final.mem_allSets.2 ⟨hreach₁, hs₁⟩)
      (t.linked_final.mem_allSets.2 ⟨hreach, hs'⟩) (hid₁.trans hpid)
    cases hsame
    refine leads_of_mem hs ?_ (by rw [hs']; rfl)
    rw [SetImplementation.references_eq]
    exact mem_filterMap.2 ⟨p, hp, heq⟩

end

/-- **Sources are found without end only through an operation that leads back to itself.** In
an accepted document each parameter of an operation leads to a class mapping, and an
operation leads to just those class mappings whose ids it names, of its mapping or of one
that it includes. Looking for the sources of a class mapping comes to an end if and only if
nothing on the way leads back to itself, and then with the types that the model gives. Class
mappings that lead to each other are of mappings that include each other, or of one mapping. -/
theorem sources_end_without_cycle (h : (d.build o).result = .ok m) :
    (∀ r s, m.setAt? r = some s → ∀ p ∈ s.parameters, ∃ r', p.2 = some r' ∧ m.Leads r r') ∧
    (∀ r r', m.Leads r r' ↔ ∃ s s', m.setAt? r = some s ∧ m.setAt? r' = some s' ∧
      s'.id ∈ s.parameters.map (·.1) ∧ ReflTransGen m.Includes r.mapping r'.mapping) ∧
    (∀ s, (∃ ts, m.Unfolds s ts) ↔
      ∀ r ∈ s.references, ∀ x, ReflTransGen m.Leads r x → ¬ TransGen m.Leads x x) ∧
    (∀ s ts, m.Unfolds s ts → m.sourceTypes s = ts) ∧
    ∀ r x, TransGen m.Leads r x → TransGen m.Leads x r →
      r.mapping = x.mapping ∨ TransGen m.Includes r.mapping x.mapping ∧ TransGen m.Includes x.mapping r.mapping := by
  obtain ⟨t⟩ := exists_trace h
  have hwithin : ∀ {r x}, TransGen m.Leads r x → ReflTransGen m.Includes r.mapping x.mapping := by
    intro r x hrx
    refine ReflTransGen.lift' SetRef.mapping (fun a b hab => ?_) _ _ hrx.to_reflTransGen
    obtain ⟨_, _, _, _, _, hreach⟩ := t.leads_iff.1 hab
    exact hreach
  refine ⟨fun r s hs p hp => ?_, fun r r' => t.leads_iff, fun s => exists_unfolds_iff,
    fun s ts hts => hts.sourceTypes_eq, fun r x hrx hxr => ?_⟩
  · obtain ⟨r', s', heq, hs', hid, hreach⟩ := t.parameter_found hs hp
    exact ⟨r', heq, t.leads_iff.2 ⟨s, s', hs, hs', hid ▸ mem_map_of_mem hp, hreach⟩⟩
  · rcases reflTransGen_iff_eq_or_transGen.1 (hwithin hrx) with heq | hto
    · exact .inl heq.symm
    rcases reflTransGen_iff_eq_or_transGen.1 (hwithin hxr) with heq | hback
    · exact .inl heq
    · exact .inr ⟨hto, hback⟩

/-- A mapping whose operations combine each other and the class mappings of an included
mapping. -/
def nestedUnion : Document :=
  { classes := ["P", "S", "T"].map fun name => { header := { package := "m", name } }
    mappings :=
      [{ header := { package := "m", name := "M" }
         includes := [{ mapping := "m::N" }]
         classMappings := [union "v" ["j", "u"] true, union "u" ["i", "j"] false] },
       { header := { package := "m", name := "N" }
         classMappings := [instances "i" "m::S" true, instances "j" "m::T" false] }] }
where
  union (id : String) (parameters : List String) (root : Bool) : ClassMappingDecl :=
    .mk { tag := "operation", className := "m::P", id, root, operation := "ROUTER_UNION", parameters } none []
  instances (id source : String) (root : Bool) : ClassMappingDecl :=
    .mk { tag := "pureInstance", className := "m::P", id, root, srcClass := source } none []
  /-- The names of the sources of the class mappings of a mapping. -/
  found (m : Model) (path : String) : List (String × List String) :=
    (m.setsOf path).map fun s => (s.2.id, (m.sourceTypes s.2).map (·.path))

theorem nestedUnion_sources : ∃ m, (nestedUnion.build {}).result = .ok m ∧
    nestedUnion.found m "m::M" = [("v", ["m::T", "m::S"]), ("u", ["m::S", "m::T"])] ∧
    (∀ r s, m.setAt? r = some s → ∀ p ∈ s.parameters, ∃ r', p.2 = some r' ∧ m.Leads r r') ∧
    (∀ r r', m.Leads r r' ↔ ∃ s s', m.setAt? r = some s ∧ m.setAt? r' = some s' ∧
      s'.id ∈ s.parameters.map (·.1) ∧ ReflTransGen m.Includes r.mapping r'.mapping) ∧
    (∀ s, (∃ ts, m.Unfolds s ts) ↔
      ∀ r ∈ s.references, ∀ x, ReflTransGen m.Leads r x → ¬ TransGen m.Leads x x) ∧
    (∀ s ts, m.Unfolds s ts → m.sourceTypes s = ts) ∧
    ∀ r x, TransGen m.Leads r x → TransGen m.Leads x r →
      r.mapping = x.mapping ∨
        TransGen m.Includes r.mapping x.mapping ∧ TransGen m.Includes x.mapping r.mapping := by
  obtain ⟨m, hok, hfound⟩ : ∃ m, (nestedUnion.build {}).result = .ok m ∧ nestedUnion.found m "m::M" =
      [("v", ["m::T", "m::S"]), ("u", ["m::S", "m::T"])] := by decide +kernel
  exact ⟨m, hok, hfound, sources_end_without_cycle hok⟩

/-- An operation whose only parameter is the operation itself. -/
def selfUnion : Document :=
  { classes := [{ header := { package := "m", name := "A" } }]
    mappings :=
      [{ header := { package := "m", name := "M" }
         classMappings :=
          [.mk { tag := "operation", className := "m::A", id := "o", root := true,
                 operation := "ROUTER_UNION", parameters := ["o"] } none []] }] }
where
  itself : SetRef := { mapping := "m::M", index := 0 }

/-- An operation that leads back to itself is accepted. -/
theorem selfUnion_leads_back : ∃ m, (selfUnion.build {}).result = .ok m ∧
    m.Leads selfUnion.itself selfUnion.itself := by
  obtain ⟨m, hok, s, hs, hrefs⟩ : ∃ m, (selfUnion.build {}).result = .ok m ∧
      ∃ s, m.setAt? selfUnion.itself = some s ∧ s.references = [selfUnion.itself] := by decide +kernel
  exact ⟨m, hok, leads_of_mem hs (hrefs ▸ mem_singleton_self _) (by rw [hs]; rfl)⟩

end Document
end ModelGraph
