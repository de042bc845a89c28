/-
# Stages along a build

Each step of a build moves one element on to its next stage, adds one, or leaves classes,
associations and functions as they are. So the stage of an element can be read off the steps
that were made for it, and no step is refused.

Key definitions: `made`, `stageAfter`.
Key theorems: `Document.step_moves`, `Document.ledger_of_play`, `Document.step_told`.
-/
import Mathlib.Data.List.Find
import ModelGraph.Proofs.Build.Passes
import ModelGraph.Proofs.Build.Told

namespace ModelGraph

open Model Build Document List Function ElementContent

variable {first later : String} {rest : List (String × Stage)} {target : Stage} {i : Nat} {x : ElementContent}

/-- Whether a pass has made its step for the element of a path. -/
def made (done : List (String × Step)) (pass p : String) : Bool :=
  done.any fun y => y.1 = pass && y.2.keys.any fun k => k.1.path = p

/-- The passes that move an element on, the last one first, with the stages that they lead to. -/
def ElementContent.track : ElementContent → List (String × Stage)
  | .classType _ =>
    [("classes.bodies", .compiled), ("classes.milestoning", .milestoned), ("classes.structure", .structured)]
  | .association _ =>
    [("associations.bodies", .compiled), ("associations.milestoning", .milestoned),
     ("associations.declare", .structured)]
  | .function _ => [("functions.bodies", .compiled), ("functions.declare", .structured)]
  | _ => []

/-- The pass that adds elements with such contents. -/
def ElementContent.origin : ElementContent → Option String
  | .classType _ => some "classes.declare"
  | .association _ => some "associations.declare"
  | .function _ => some "functions.declare"
  | _ => none

/-- A pass that makes no step before another one has made its last. -/
abbrev RunsAfter (later pass : String) : Prop := later ≠ pass ∧ ∀ b, later ∉ (passNames b).takeWhile (· != pass)

theorem ElementContent.track_pairwise (x : ElementContent) :
    x.track.Pairwise fun t u => RunsAfter t.1 u.1 ∧ u.2.rank < t.2.rank := by
  unfold track
  split <;> decide

/-- The stage to which the last of the passes has brought the element of a path. -/
def stageAfter (track : List (String × Stage)) (done : List (String × Step)) (p : String) : Stage :=
  ((track.find? fun t => made done t.1 p).map (·.2)).getD .declared

variable {d : Document} {o : Options} {done after : List (String × Step)} {pass p : String} {s : Step}
  {m m' : Model} {track : List (String × Stage)}

/-! ### Steps that were made -/

theorem made_eq_true : made done pass p = true ↔ ∃ s, (pass, s) ∈ done ∧ ∃ k ∈ s.keys, k.1.path = p := by
  simp only [made, any_eq_true, Bool.and_eq_true, decide_eq_true_eq, Prod.exists]
  constructor
  · rintro ⟨_, s, hs, rfl, a, b, hk⟩
    exact ⟨s, hs, a, b, hk⟩
  · rintro ⟨s, hs, a, b, hk⟩
    exact ⟨pass, s, hs, rfl, a, b, hk⟩

theorem made_concat (done : List (String × Step)) (pass q p : String) (s : Step) :
    made (done ++ [(q, s)]) pass p = (made done pass p || (q = pass && s.keys.any fun k => k.1.path = p)) := by
  unfold made
  rw [any_append, any_cons, any_nil, Bool.or_false]

section

variable (h : d.script (d.passes o) = done ++ (pass, s) :: after)
include h

theorem Document.mem_passNames {y : String × Step}
    (hy : y ∈ done) : y.1 ∈ (passNames o.cycles).takeWhile (· != pass) ∨ y.1 = pass := by
  obtain ⟨pre, q, post, before, rest, hps, rfl, -, rfl⟩ := exists_pass h
  rcases mem_append.1 hy with hy | hy
  · left
    obtain ⟨r, hr, hy⟩ := mem_flatMap.1 hy
    obtain ⟨t, -, rfl⟩ := mem_map.1 hy
    exact names_before hps ▸ mem_map_of_mem hr
  · right
    obtain ⟨t, -, rfl⟩ := mem_map.1 hy
    rfl

theorem Document.not_made_later (hlater : RunsAfter later pass) (p : String) : made done later p = false := by
  rw [Bool.eq_false_iff]
  intro hmade
  obtain ⟨t, ht, -⟩ := made_eq_true.1 hmade
  exact (mem_passNames h ht).elim (hlater.2 _) hlater.1

theorem Document.made_earlier {earlier : String}
    (hkeys : (d.steps earlier).flatMap Step.keys = (d.steps pass).flatMap Step.keys)
    (hbefore : ∀ b, earlier ∈ (passNames b).takeWhile (· != pass)) :
    ∀ k ∈ s.keys, made done earlier k.1.path = true := by
  intro k hk
  obtain ⟨pre, q, post, before, rest, hps, hname, hsteps, rfl⟩ := exists_pass h
  obtain ⟨r, hr, rfl⟩ := mem_map.1 (mem_before earlier pass hps hname hbefore)
  have hmem : k ∈ (d.steps r.name).flatMap Step.keys := by
    rw [hkeys]
    exact mem_flatMap.2 ⟨s, hsteps ▸ mem_append_right _ (.head _), hk⟩
  obtain ⟨t, ht, hk⟩ := mem_flatMap.1 hmem
  refine made_eq_true.2 ⟨t, mem_append_left _ (mem_flatMap.2 ⟨r, hr, ?_⟩), k, hk, rfl⟩
  exact mem_map_of_mem ht

theorem Document.not_made_self (hplay : play done { options := o } = .ok ((), m)) (hfirst : declaring pass = some first) :
    ∀ k ∈ s.keys, made done pass k.1.path = false := by
  intro k hk
  obtain ⟨i, -, hat⟩ := exists_at h hplay
  have hnodup := hat.keys_nodup hfirst
  rw [Bool.eq_false_iff]
  intro hmade
  obtain ⟨t, ht, k', hk', hpath⟩ := made_eq_true.1 hmade
  obtain ⟨pre, q, post, before, rest, hps, hname, hsteps, rfl⟩ := exists_pass h
  have hbefore : t ∈ before := by
    rcases mem_append.1 ht with ht | ht
    · obtain ⟨r, hr, ht⟩ := mem_flatMap.1 ht
      obtain ⟨t', -, heq⟩ := mem_map.1 ht
      exact absurd ((congrArg Prod.fst heq).trans hname.symm) (bne_iff_ne.1 (ne_before hps _ (mem_map_of_mem hr)))
    · obtain ⟨t', ht', heq⟩ := mem_map.1 ht
      cases heq
      exact ht'
  rw [hsteps, flatMap_append, flatMap_cons, map_append, map_append] at hnodup
  refine (nodup_append.1 hnodup).2.2 k'.1.path (mem_map_of_mem (mem_flatMap.2 ⟨t, hbefore, hk'⟩))
    k.1.path (mem_append_left _ (mem_map.2 ⟨k, hk, rfl⟩)) hpath

end

/-! ### Stages by steps -/

theorem stageAfter_concat (h : ∀ t ∈ track, t.1 = pass → ∀ k ∈ s.keys, k.1.path ≠ p) :
    stageAfter track (done ++ [(pass, s)]) p = stageAfter track done p := by
  have hmade : ∀ t ∈ track, made (done ++ [(pass, s)]) t.1 p = made done t.1 p := by
    intro t ht
    rw [made_concat, Bool.or_eq_left_iff_imp]
    intro hnew
    simp only [Bool.and_eq_true, decide_eq_true_eq, any_eq_true] at hnew
    obtain ⟨rfl, k, hk, hp⟩ := hnew
    exact absurd hp (h t ht rfl k hk)
  unfold stageAfter
  rw [find?_congr hmade]

theorem stageAfter_moved (before : List (String × Stage)) (hbefore : ∀ t ∈ before, made done t.1 p = false)
    (hpass : made done pass p = true) : stageAfter (before ++ (pass, target) :: rest) done p = target := by
  unfold stageAfter
  have hnone : before.find? (fun t => made done t.1 p) = none :=
    find?_eq_none.2 fun t ht => by simp [hbefore t ht]
  rw [find?_append, hnone, find?_cons, hpass]
  rfl

theorem stageAfter_declared (h : ∀ t ∈ track, made done t.1 p = false) : stageAfter track done p = .declared := by
  unfold stageAfter
  rw [find?_eq_none.2 fun t ht => by simp [h t ht]]
  rfl

theorem Document.not_made_after (h : d.script (d.passes o) = done ++ (pass, s) :: after)
    (hlater : RunsAfter later pass) (p : String) : made (done ++ [(pass, s)]) later p = false := by
  have hne : decide (pass = later) = false := decide_eq_false (Ne.symm hlater.1)
  rw [made_concat, not_made_later h hlater, hne]
  rfl

theorem Document.stage_moved {k : Header × Option Category}
    (h : d.script (d.passes o) = done ++ (pass, s) :: after) (hk : k ∈ s.keys) (ht : (pass, target) ∈ x.track) :
    stageAfter x.track (done ++ [(pass, s)]) k.1.path = target := by
  obtain ⟨before, rest, htrack⟩ := append_of_mem ht
  have hpairs := x.track_pairwise
  rw [htrack, pairwise_append] at hpairs
  rw [htrack]
  refine stageAfter_moved before (fun t ht => ?_) ?_
  · exact not_made_after h (hpairs.2.2 t ht _ (.head _)).1 _
  · exact made_eq_true.2 ⟨s, mem_append_right _ (.head _), k, hk, rfl⟩

/-! ### The stages of elements -/

/-- What is known of a model once some steps are made: its classes, associations and functions
were declared, and their stages are those that the steps lead to. -/
structure Ledger (done : List (String × Step)) (m : Model) : Prop where
  declared : ∀ {p x}, m.staged? p = some x → x.origin.any (made done · p) = true
  stages : ∀ {p x}, m.staged? p = some x → x.stage? = some (stageAfter x.track done p)
  joined : ∀ {p a}, m.staged? p = some (.association a) → a.stage.rank < Stage.milestoned.rank → a.ends.isSome = true
  functions : ∀ {p}, made done "functions.declare" p = true → ∃ f, m.staged? p = some (.function f)

namespace Ledger

variable {k : Header × Option Category} {c : ClassContent} {x : ElementContent} {stage : Stage}
  (h : Ledger done m) (hscript : d.script (d.passes o) = done ++ (pass, s) :: after)
  (hplay : play done { options := o } = .ok ((), m)) (hk : k ∈ s.keys)

include h hscript hplay hk

theorem ahead (hfirst : declaring pass = some first) (hx : m.staged? k.1.path = some x)
    (ht : (pass, target) ∈ x.track) (hstage : x.stage? = some stage) : stage.rank < target.rank := by
  have hself : ¬ made done pass k.1.path = true := by simp [not_made_self hscript hplay hfirst k hk]
  have hdeclared : ∀ t ∈ x.track, Stage.declared.rank < t.2.rank := by
    unfold track
    split <;> decide
  obtain ⟨before, rest, htrack⟩ := append_of_mem ht
  have hpairs := x.track_pairwise
  rw [htrack, pairwise_append, pairwise_cons] at hpairs
  have hbefore : before.find? (fun t => made done t.1 k.1.path) = none := find?_eq_none.2 fun t ht => by
    simp [not_made_later hscript (hpairs.2.2 t ht _ (.head _)).1]
  rw [h.stages hx, stageAfter, htrack, find?_append, hbefore, find?_cons_of_neg (a := (pass, target)) hself] at hstage
  rcases hfind : rest.find? (fun t => made done t.1 k.1.path) with _ | u <;> rw [hfind] at hstage <;> cases hstage
  · exact hdeclared _ ht
  · exact (hpairs.2.1.1 u (mem_of_find?_eq_some hfind)).2

/-- What a step is about to move on is at the stage that the pass before in its track leads to, if
that one goes over the same elements. -/
theorem stage_before {prev : String} (before : List (String × Stage)) (hfirst : declaring pass = some first)
    (hx : m.staged? k.1.path = some x) (htrack : x.track = before ++ (pass, target) :: (prev, stage) :: rest)
    (hprev : declaring prev = some first) (hearlier : ∀ b, prev ∈ (passNames b).takeWhile (· != pass)) :
    x.stage? = some stage := by
  have hmade := made_earlier hscript ((keys_eq hprev).trans (keys_eq hfirst).symm) hearlier k hk
  have hpairs := x.track_pairwise
  rw [htrack, pairwise_append] at hpairs
  rw [h.stages hx, htrack, append_cons]
  refine congrArg some (stageAfter_moved _ (forall_mem_append.2 ⟨fun t ht => ?_, ?_⟩) hmade)
  · exact not_made_later hscript (hpairs.2.2 t ht _ (.head _)).1 _
  · exact forall_mem_singleton.2 (not_made_self hscript hplay hfirst k hk)

omit hscript

theorem class_structured (hscript : d.script (d.passes o) = done ++ ("classes.milestoning", s) :: after)
    (hc : m.staged? k.1.path = some (.classType c)) : c.stage = .structured :=
  Option.some.inj (h.stage_before hscript hplay hk [("classes.bodies", .compiled)] rfl hc rfl rfl (by decide))

theorem class_milestoned (hscript : d.script (d.passes o) = done ++ ("classes.bodies", s) :: after)
    (hc : m.staged? k.1.path = some (.classType c)) : c.stage = .milestoned :=
  Option.some.inj (h.stage_before hscript hplay hk [] rfl hc rfl rfl (by decide))

end Ledger

/-! ### What a step does -/

/-- The passes that add classes, associations and functions or change them. -/
def movingPasses : List String :=
  ["classes.declare", "functions.declare", "classes.structure", "associations.declare", "classes.milestoning",
    "associations.milestoning", "classes.bodies", "associations.bodies", "functions.bodies"]

theorem ElementContent.mem_movingPasses (x : ElementContent) : ∀ t ∈ x.track, t.1 ∈ movingPasses := by
  cases x <;> simp [track, movingPasses]

/-- What step `i` of a pass does to classes, associations and functions. -/
inductive Moves (d : Document) (i : Nat) (m m' : Model) : String → Step → Prop
  | same {pass : String} {s : Step} (hpass : pass ∉ movingPasses) (h : m'.staged? = m.staged?) : Moves d i m m' pass s
  | classDeclared {x : ClassDecl} (hx : d.classes[i]? = some x) (hnew : m.staged? x.header.path = none)
      (h : m'.staged? = update m.staged? x.header.path (some (.classType {}))) :
      Moves d i m m' "classes.declare" ⟨[(x.header, some .classType)], x.declare⟩
  | classStructured {x : ClassDecl} {c c' : ClassContent} (hx : d.classes[i]? = some x)
      (hc : m.staged? x.header.path = some (.classType c))
      (h : m'.staged? = update m.staged? x.header.path (some (.classType c')))
      (hstage : c'.stage = .structured) (hsigned : x.Signed m c'.qualified)
      (hassoc : c'.assocQualified = c.assocQualified) :
      Moves d i m m' "classes.structure" ⟨[(x.header, some .classType)], x.structureStep⟩
  | classMilestoned {x : ClassDecl} {c c' : ClassContent} (hx : d.classes[i]? = some x)
      (hc : m.staged? x.header.path = some (.classType c))
      (h : m'.staged? = update m.staged? x.header.path (some (.classType c')))
      (hstage : c'.stage = .milestoned) (hover : c.Overloaded c') :
      Moves d i m m' "classes.milestoning" ⟨[(x.header, some .classType)], x.milestoneStep⟩
  | classCompiled {x : ClassDecl} {c c' : ClassContent} (hx : d.classes[i]? = some x)
      (hc : m.staged? x.header.path = some (.classType c))
      (h : m'.staged? = update m.staged? x.header.path (some (.classType c')))
      (hstage : c'.stage = .compiled) (hassoc : c'.assocQualified = c.assocQualified)
      (hqs : Refills x.header.path (fun _ => False) c.qualified c'.qualified)
      (hfilled : Filled x.header.path (fun k => x.qualified.length ≤ k) c'.qualified) :
      Moves d i m m' "classes.bodies" ⟨[(x.header, some .classType)], x.compileStep⟩
  | associationDeclared {x : AssociationDecl} {n : Model} {a : AssociationContent}
      {f : String → ClassContent → ClassContent} (hx : d.associations[i]? = some x)
      (hnew : m.staged? x.header.path = none)
      (hn : m.register x.header.package x.header.name x.header.span (.association {}) = .ok n)
      (hsigned : x.Signed n a.receivers a.signatures) (hstage : a.stage = .structured)
      (hqualified : a.qualified = a.signatures) (hends : a.ends.isSome = true)
      (h : m'.staged? = update (m.remap f) x.header.path (some (.association a)))
      (hf : ∀ p, Receives (handed (a.receivers.zip a.signatures) p) (f p)) :
      Moves d i m m' "associations.declare" ⟨[(x.header, some .association)], x.declare⟩
  | associationMilestoned {x : AssociationDecl} {a a' : AssociationContent} (hx : d.associations[i]? = some x)
      (ha : m.staged? x.header.path = some (.association a))
      (h : m'.staged? = update m.staged? x.header.path (some (.association a')))
      (hstage : a'.stage = .milestoned) (hreceivers : a'.receivers = a.receivers)
      (hsignatures : a'.signatures = a.signatures)
      (hqualified : ∀ q ∈ a'.qualified, q ∈ a.qualified ∨
        ∃ p c, m.staged? p = some (.classType c) ∧ q ∈ c.assocQualified ∧ q.owner = x.header.path) :
      Moves d i m m' "associations.milestoning" ⟨[(x.header, some .association)], x.milestoneStep⟩
  | associationCompiled {x : AssociationDecl} {a a' : AssociationContent}
      {f : String → ClassContent → ClassContent} (hx : d.associations[i]? = some x)
      (ha : m.staged? x.header.path = some (.association a))
      (h : m'.staged? = update (m.remap f) x.header.path (some (.association a')))
      (hstage : a'.stage = .compiled) (hf : ∀ p, Refilling x.header.path (fun _ => False) (f p)) :
      Moves d i m m' "associations.bodies" ⟨[(x.header, some .association)], x.compileStep⟩
  | functionDeclared {x : FunctionDecl} {f : FunctionContent} (hx : d.functions[i]? = some x)
      (hnew : m.staged? x.elementPath = none)
      (h : m'.staged? = update m.staged? x.elementPath (some (.function f)))
      (hstage : f.stage = .structured) :
      Moves d i m m' "functions.declare" ⟨[(x.elementHeader, some .function)], x.declare⟩
  | functionCompiled {x : FunctionDecl} {f f' : FunctionContent} (hx : d.functions[i]? = some x)
      (hf : m.staged? x.elementPath = some (.function f))
      (h : m'.staged? = update m.staged? x.elementPath (some (.function f')))
      (hstage : f'.stage = .compiled) (hbody : f'.body ≠ []) :
      Moves d i m m' "functions.bodies" ⟨[(x.elementHeader, some .function)], x.compileStep⟩

theorem touched_of_not_moving (h : pass ∉ movingPasses) :
    ∀ c ∈ touched pass, c ∉ [Category.classType, .association, .function] := by
  unfold touched
  split
  all_goals first | exact absurd (by decide) h | simp

/-- **What each step of a build does to classes, associations and functions.** -/
theorem Document.step_moves (hscript : d.script (d.passes o) = done ++ (pass, s) :: after)
    (hplay : play done { options := o } = .ok ((), m)) (hs : (d.steps pass)[i]? = some s) (hl : Ledger done m) :
    s.run.Ensures m fun _ m' => Moves d i m m' pass s := by
  have h := enrolled_of_play hscript hplay
  by_cases hpass : pass ∉ movingPasses
  · exact (step_enters hscript h).mono fun _ m' hg => .same hpass (hg.1.of_within (touched_of_not_moving hpass)).staged?
  have hkind {first : String} (hfirst : declaring pass = some first) := h.keys hscript hfirst
  simp only [movingPasses, mem_cons, not_mem_nil, or_false, Decidable.not_not] at hpass
  rcases hpass with rfl | rfl | rfl | rfl | rfl | rfl | rfl | rfl | rfl
  all_goals
    have hs : (List.map _ _)[i]? = some s := hs
    rw [getElem?_map] at hs
    obtain ⟨x, hx, rfl⟩ := Option.map_eq_some_iff.1 hs
  · exact x.declare_effect.mono fun _ m' he => .classDeclared hx he.1 he.2
  · refine x.declare_effect.mono ?_
    rintro _ m' ⟨hnew, f, hm', hstage⟩
    exact .functionDeclared hx hnew hm' hstage
  · obtain ⟨c, hc⟩ := Has.staged_class (hkind rfl _ (.head _))
    refine (x.structureStep_effect hc).mono ?_
    rintro _ m' ⟨c', hm', hstage, hmembers, -, hassoc⟩
    exact .classStructured hx hc hm' hstage hmembers.signed hassoc
  · refine x.declare_effect.mono ?_
    rintro _ m' ⟨n, a, hn, hmembers, hstage, hm'⟩
    obtain ⟨ends, -, hends, -⟩ := hmembers.ends
    exact .associationDeclared hx (staged?_register_new hn) hn hmembers.signed hstage hmembers.qualified
      (by rw [hends, Option.isSome_some]) hm' fun _ => ⟨fun _ => rfl, fun _ => rfl, fun _ => rfl⟩
  · obtain ⟨c, hc⟩ := Has.staged_class (hkind rfl _ (.head _))
    refine (milestoneClass_overloads hc).mono ?_
    rintro _ m' ⟨c', hm', hstage, hover⟩
    exact .classMilestoned hx hc hm' hstage hover
  · obtain ⟨a, ha⟩ := Has.staged_association (hkind rfl _ (.head _))
    have hstage := hl.ahead hscript hplay (.head _) rfl ha (.tail _ (.head _)) rfl
    refine (x.milestoneStep_takes ha (hl.joined ha hstage)).mono ?_
    rintro _ m' ⟨a', hm', hstage', hreceivers, hsignatures, hqualified⟩
    exact .associationMilestoned hx ha hm' hstage' hreceivers hsignatures hqualified
  · obtain ⟨c, hc⟩ := Has.staged_class (hkind rfl _ (.head _))
    refine (ClassDecl.compileStep_effect hc).mono ?_
    rintro _ m' ⟨c', hm', hframe, hqs, hfilled⟩
    have hstage : c'.frame.stage = .compiled := hframe ▸ rfl
    have hassoc : c'.frame.assocQualified = c.assocQualified := hframe ▸ rfl
    exact .classCompiled hx hc hm' hstage hassoc hqs hfilled
  · obtain ⟨a, ha⟩ := Has.staged_association (hkind rfl _ (.head _))
    refine (AssociationDecl.compileStep_effect ha).mono ?_
    rintro _ m' ⟨bs, -, hm'⟩
    exact .associationCompiled hx ha hm' rfl fun _ => ⟨fun _ => rfl, fun _ => rfl, fun c =>
      (Refills.fillAll _ c.assocQualified _).mono fun _ => False.elim⟩
  · refine x.compileStep_effect.mono ?_
    rintro _ m' ⟨f, f', hf, hm', hstage, hbody⟩
    exact .functionCompiled hx hf hm' hstage hbody

section Updates

variable {f : String → ClassContent → ClassContent} {g : ClassContent → ClassContent} {x y : ElementContent}
  {q : String} {k : Header × Option Category}

theorem ElementContent.mapClass_origin : (x.mapClass g).origin = x.origin := by cases x <;> rfl

theorem ElementContent.mapClass_track : (x.mapClass g).track = x.track := by cases x <;> rfl

theorem ElementContent.mapClass_stage? (hg : ∀ c, (g c).stage = c.stage) : (x.mapClass g).stage? = x.stage? := by
  cases x with
  | classType c => exact congrArg some (hg c)
  | _ => rfl

theorem ElementContent.mapClass_eq_association {a : AssociationContent} (h : x.mapClass g = .association a) :
    x = .association a := by
  cases x <;> first | exact h | cases h

theorem exists_of_update (hm' : m'.staged? = update (m.remap f) p (some y)) (hx : m'.staged? q = some x) :
    q = p ∧ x = y ∨ q ≠ p ∧ ∃ z, m.staged? q = some z ∧ x = z.mapClass (f q) := by
  rw [hm', update_apply] at hx
  split at hx
  · rename_i hq
    cases hx
    exact .inl ⟨hq, rfl⟩
  · rename_i hq
    obtain ⟨z, hz, rfl⟩ := Option.map_eq_some_iff.1 hx
    exact .inr ⟨hq, z, hz, rfl⟩

theorem Ledger.declared_concat (h : Ledger done m) (hx : m.staged? q = some x) (hy : y.origin = x.origin) :
    y.origin.any (made (done ++ [(pass, s)]) · q) = true := by
  rw [hy]
  obtain ⟨first, hfirst, hmade⟩ := (Option.any_eq_true ..).1 (h.declared hx)
  exact (Option.any_eq_true ..).2 ⟨first, hfirst, by rw [made_concat, hmade, Bool.true_or]⟩

end Updates

/-- What a pass does to the element of a path: it adds the element or moves it on, to the contents
`y`, and leaves the stages of all others. -/
structure Shifts (m m' : Model) (pass p : String) (y : ElementContent) : Prop where
  update : ∃ f : String → ClassContent → ClassContent, (∀ p c, (f p c).stage = c.stage) ∧
    m'.staged? = update (m.remap f) p (some y)
  origin : y.origin = some pass ∨ ∃ x, m.staged? p = some x
  kept : ∀ x, m.staged? p = some x → y.origin = x.origin
  stage : ∃ target, y.stage? = some target ∧
    ((pass, target) ∈ y.track ∨ target = .declared ∧ ∀ t ∈ y.track, RunsAfter t.1 pass)
  joined : ∀ a, y = .association a → a.stage.rank < Stage.milestoned.rank → a.ends.isSome = true

section Shifts

variable {f : String → ClassContent → ClassContent} {x y : ElementContent}

theorem Shifts.of_set (hx : m.staged? p = some x) (hm' : m'.staged? = Function.update (m.remap f) p (some y))
    (hf : ∀ p c, (f p c).stage = c.stage) (horigin : y.origin = x.origin) (hstage : y.stage? = some target)
    (ht : (pass, target) ∈ y.track)
    (hjoined : ∀ a, y = .association a → a.stage.rank < Stage.milestoned.rank → a.ends.isSome = true) :
    Shifts m m' pass p y where
  update := ⟨f, hf, hm'⟩
  origin := .inr ⟨x, hx⟩
  kept z hz := by
    cases hx.symm.trans hz
    exact horigin
  stage := ⟨target, hstage, .inl ht⟩
  joined := hjoined

end Shifts

theorem Moves.shifts (h : Moves d i m m' pass s) : pass ∉ movingPasses ∧ m'.staged? = m.staged? ∨
    ∃ k y, s.keys = [k] ∧ Shifts m m' pass k.1.path y := by
  have hremap {q : String} {y : ElementContent} (hm' : m'.staged? = update m.staged? q (some y)) :
      m'.staged? = update (m.remap fun _ c => c) q (some y) := m.remap_id ▸ hm'
  cases h with
  | same hpass hm' => exact .inl ⟨hpass, hm'⟩
  | classDeclared _ hnew hm' => exact .inr ⟨_, _, rfl, ⟨_, fun _ _ => rfl, hremap hm'⟩, .inl rfl,
      fun _ hz => (nomatch hnew.symm.trans hz), ⟨_, rfl, .inr ⟨rfl, by decide⟩⟩, nofun⟩
  | functionDeclared _ hnew hm' hstage => exact .inr ⟨_, _, rfl, ⟨_, fun _ _ => rfl, hremap hm'⟩, .inl rfl,
      fun _ hz => (nomatch hnew.symm.trans hz), ⟨_, rfl, .inl (by simp [track, hstage])⟩, nofun⟩
  | associationDeclared _ hnew _ _ hstage _ hends hm' hf =>
    refine .inr ⟨_, _, rfl, ⟨_, fun p => (hf p).stage, hm'⟩, .inl rfl,
      fun _ hz => (nomatch hnew.symm.trans hz), ⟨_, rfl, .inl (by simp [track, hstage])⟩, ?_⟩
    rintro _ ⟨⟩ -
    exact hends
  | classStructured _ hc hm' hstage | classMilestoned _ hc hm' hstage | classCompiled _ hc hm' hstage
  | functionCompiled _ hc hm' hstage =>
    exact .inr ⟨_, _, rfl, .of_set hc (hremap hm') (fun _ _ => rfl) rfl rfl (by simp [track, hstage]) nofun⟩
  | associationMilestoned _ ha hm' hstage =>
    refine .inr ⟨_, _, rfl, .of_set ha (hremap hm') (fun _ _ => rfl) rfl rfl (by simp [track, hstage]) ?_⟩
    rintro _ ⟨⟩ hlt
    rw [hstage] at hlt
    exact absurd hlt (by decide)
  | associationCompiled _ ha hm' hstage hf =>
    refine .inr ⟨_, _, rfl, .of_set ha hm' (fun p => (hf p).stage) rfl rfl (by simp [track, hstage]) ?_⟩
    rintro _ ⟨⟩ hlt
    rw [hstage] at hlt
    exact absurd hlt (by decide)

theorem Moves.kept (h : Moves d i m m' pass s) (hx : m.staged? p = some x) :
    ∃ y, m'.staged? p = some y ∧ y.origin = x.origin := by
  rcases h.shifts with ⟨-, hm'⟩ | ⟨k, y, -, hshifts⟩
  · exact ⟨x, hm' ▸ hx, rfl⟩
  · obtain ⟨f, -, hm'⟩ := hshifts.update
    rw [hm', update_apply]
    split
    · rename_i hp
      exact ⟨y, rfl, hshifts.kept x (hp ▸ hx)⟩
    · rw [remap, hx]
      exact ⟨_, rfl, mapClass_origin⟩

theorem Moves.functions (h : Moves d i m m' pass s) (hl : Ledger done m)
    (hp : made (done ++ [(pass, s)]) "functions.declare" p = true) : ∃ f, m'.staged? p = some (.function f) := by
  rw [made_concat, Bool.or_eq_true] at hp
  rcases hp with hp | hp
  · obtain ⟨f, hf⟩ := hl.functions hp
    obtain ⟨y, hy, horigin⟩ := h.kept hf
    cases y with
    | function g => exact ⟨g, hy⟩
    | _ => simp [origin] at horigin
  · simp only [Bool.and_eq_true, decide_eq_true_eq, any_eq_true] at hp
    obtain ⟨hpass, k, hk, rfl⟩ := hp
    cases h with
    | same hmoving => exact absurd (hpass ▸ by decide) hmoving
    | functionDeclared _ _ h =>
      rw [mem_singleton.1 hk, h]
      exact ⟨_, update_self ..⟩
    | _ => exact absurd hpass (by decide)

/-- **After each step, the stages of elements are those that the steps lead to.** -/
theorem Ledger.next (hl : Ledger done m) (hscript : d.script (d.passes o) = done ++ (pass, s) :: after)
    (h : Moves d i m m' pass s) : Ledger (done ++ [(pass, s)]) m' := by
  have hfunctions {p : String} (hp : made (done ++ [(pass, s)]) "functions.declare" p = true) := h.functions hl hp
  rcases h.shifts with ⟨hpass, hm'⟩ | ⟨k, y, hkeys, hshifts⟩
  · refine ⟨fun hx => ?_, fun {p x} hx => ?_, fun ha => ?_, hfunctions⟩
    · exact hl.declared_concat (hm' ▸ hx) rfl
    · rw [hl.stages (hm' ▸ hx), stageAfter_concat fun t ht hpass' => ?_]
      exact absurd (hpass' ▸ x.mem_movingPasses t ht) hpass
    · exact hl.joined (hm' ▸ ha)
  · obtain ⟨f, hf, hm'⟩ := hshifts.update
    have hk : k ∈ s.keys := hkeys ▸ (.head _)
    refine ⟨fun hx => ?_, fun hx => ?_, fun hx => ?_, hfunctions⟩
    all_goals rcases exists_of_update hm' hx with ⟨rfl, rfl⟩ | ⟨hq, z, hz, hy⟩
    · rcases hshifts.origin with horigin | ⟨x, hx⟩
      · exact (Option.any_eq_true ..).2 ⟨pass, horigin,
          made_eq_true.2 ⟨s, mem_append_right _ (.head _), k, hk, rfl⟩⟩
      · exact hl.declared_concat hx (hshifts.kept x hx)
    · exact hl.declared_concat hz (hy ▸ mapClass_origin)
    · obtain ⟨target, hstage, ht | ⟨rfl, hlater⟩⟩ := hshifts.stage
      · rw [hstage, stage_moved hscript hk ht]
      · rw [hstage, stageAfter_declared fun t ht => not_made_after hscript (hlater t ht) _]
    · rw [hy, mapClass_stage? (hf _), mapClass_track, hl.stages hz, stageAfter_concat]
      intro t _ _ k' hk'
      rw [hkeys, mem_singleton] at hk'
      exact hk' ▸ Ne.symm hq
    · exact hshifts.joined _ rfl
    · exact hl.joined (mapClass_eq_association hy.symm ▸ hz)

/-- **Wherever a build has come to, the stages of elements are those that the steps so far lead to.** -/
theorem Document.ledger_of_play (hscript : d.script (d.passes o) = done ++ after)
    (hplay : play done { options := o } = .ok ((), m)) : Ledger done m := by
  refine script_induct ⟨nofun, nofun, nofun, nofun⟩ (fun hsplit hn hi _ hl hrun => ?_) hscript hplay
  exact hl.next hsplit (step_moves hsplit hn hi hl () _ hrun)

/-- **What holds at first, and after each step by what the step does, holds wherever a build has
come to.** -/
theorem Document.play_induct {J : List (String × Step) → Model → Prop} (hstart : J [] { options := o })
    (hnext : ∀ {done after pass s i m m'}, d.script (d.passes o) = done ++ (pass, s) :: after →
      play done { options := o } = .ok ((), m) → d.At o pass i m → J done m → Moves d i m m' pass s →
      J (done ++ [(pass, s)]) m')
    (hscript : d.script (d.passes o) = done ++ after) (hplay : play done { options := o } = .ok ((), m)) :
    J done m := by
  refine script_induct hstart (fun hsplit hn hi hat hj hrun => hnext hsplit hn hat hj ?_) hscript hplay
  exact step_moves hsplit hn hi (ledger_of_play hsplit hn) () _ hrun

theorem Document.At.moves (h : d.At o pass i m) (hs : (d.steps pass)[i]? = some s) (hrun : s.run m = .ok ((), m')) :
    Moves d i m m' pass s := by
  obtain ⟨done, after, hscript, hplay⟩ := h.reached hs
  exact step_moves hscript hplay hs (ledger_of_play hscript hplay) () m' hrun

theorem Moves.own (h : Moves d i m m' pass s) (hpass : pass ∉ ["associations.declare", "associations.bodies"])
    (hp : ∀ k ∈ s.keys, p ≠ k.1.path) : m'.staged? p = m.staged? p := by
  cases h with
  | same _ hm' => rw [hm']
  | associationDeclared | associationCompiled => exact absurd (by decide) hpass
  | classDeclared _ _ hm' | classStructured _ _ hm' | classMilestoned _ _ hm' | classCompiled _ _ hm'
  | associationMilestoned _ _ hm' | functionDeclared _ _ hm' | functionCompiled _ _ hm' =>
    rw [hm']
    exact update_of_ne (hp _ (.head _)) ..

/-- **The element of one declaration in a pass.** The step for it finds the element as it was before
the pass, and leaves it as it is after the pass. -/
theorem Document.At.own_staged {α : Type} {decls : List α} {key : α → Header} {c : Option Category}
    {step : α → Build Unit} {x : α} (h : d.At o pass 0 m) (h' : d.At o pass (d.steps pass).length m')
    (hpass : pass ∉ ["associations.declare", "associations.bodies"]) (hfirst : declaring pass = some first)
    (hsteps : d.steps pass = stepsOver decls key c step) (hx : decls[i]? = some x) :
    ∃ n n', d.At o pass i n ∧ step x n = .ok ((), n') ∧ n.staged? (key x).path = m.staged? (key x).path ∧
      m'.staged? (key x).path = n'.staged? (key x).path := by
  refine At.around_own (R := fun m n => n.staged? (key x).path = m.staged? (key x).path) (fun _ => rfl)
    (fun h h' => h'.trans h) h h' hfirst hsteps hx fun hy hne hn hrun => ?_
  refine (hn.moves (hsteps ▸ getElem?_stepsOver hy) hrun).own hpass fun k hk => ?_
  rw [mem_singleton.1 hk]
  exact hne.symm

/-! ### No step is refused -/

/-- **Where a build comes to a step, the step fails with told failures only.** An element is at
the stage before the one that the step moves it on to. -/
theorem Document.step_told (hscript : d.script (d.passes o) = done ++ (pass, s) :: after)
    (hplay : play done { options := o } = .ok ((), m)) : Result.Told (s.run m) := by
  have hs : s ∈ d.steps pass := mem_steps (hscript ▸ mem_append_right _ (.head _))
  have hl := ledger_of_play hscript hplay
  have hkind {first : String} (hfirst : declaring pass = some first) :=
    (enrolled_of_play hscript hplay).keys hscript hfirst
  by_cases hpass : pass = "validators.extensions"
  · subst hpass
    rw [mem_singleton.1 hs]
    exact checkExtensions_told m
  by_cases hmoves : pass ∈ stagePasses
  · simp only [stagePasses, mem_cons, not_mem_nil, or_false] at hmoves
    rcases hmoves with rfl | rfl | rfl | rfl | rfl | rfl <;> obtain ⟨x, -, rfl⟩ := mem_map.1 hs
    · obtain ⟨c, hc⟩ := Has.staged_class (hkind rfl _ (.head _))
      exact x.structureStep_told hc (hl.ahead hscript hplay (.head _) rfl hc (by simp [track]) rfl)
    · obtain ⟨c, hc⟩ := Has.staged_class (hkind rfl _ (.head _))
      exact milestoneClass_told hc (hl.ahead hscript hplay (.head _) rfl hc (by simp [track]) rfl)
    · obtain ⟨a, ha⟩ := Has.staged_association (hkind rfl _ (.head _))
      exact x.milestoneStep_told ha (hl.ahead hscript hplay (.head _) rfl ha (by simp [track]) rfl)
    · obtain ⟨c, hc⟩ := Has.staged_class (hkind rfl _ (.head _))
      exact x.compileStep_told hc (hl.ahead hscript hplay (.head _) rfl hc (by simp [track]) rfl)
    · obtain ⟨a, ha⟩ := Has.staged_association (hkind rfl _ (.head _))
      exact x.compileStep_told ha (hl.ahead hscript hplay (.head _) rfl ha (by simp [track]) rfl)
    · exact x.compileStep_told fun f hf => hl.ahead hscript hplay (.head _) rfl hf
        (by simp [track]) rfl
  · exact (step_made hs (fun h => hmoves h) hpass).told m

end ModelGraph
