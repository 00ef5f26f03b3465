import RunningTotal.Session
import RunningTotal.Proofs.Log.Inherited

/-! Sessions, step by step. A logger is its root with what the children on the way to it were given,
spread over one another (`isLineage_after`), whatever else was done in the session. So every
step answers as it would alone, on a new root (`run_eq_alone`). -/
set_option autoImplicit false

namespace RunningTotal

open Log Record

/-! ## Lineages -/

/-- What the children on the way to the logger of a name were given, the first of them first; the
steps so far come newest first. -/
def lineage : List Step → String → List Metadata
  | [], _ => []
  | step :: earlier, name =>
    match step.action with
    | .child given metadata =>
      if given = name then lineage earlier step.logger ++ [metadata] else lineage earlier name
    | .log .. | .evaluate _ => lineage earlier name

/-- Each logger of the session is the root with its lineage spread over it. -/
def IsLineage (root : Logger) (earlier : List Step) (s : Session) : Prop :=
  ∀ name, s.logger name = root.child (spread (lineage earlier name))

theorem isLineage_start (root : Logger) : IsLineage root [] (Session.start root) := fun _ => rfl

namespace Session

def after (s : Session) (steps : List Step) : Session := Steps.after step s steps

theorem run_cons (s : Session) (first : Step) (later : List Step) :
    s.run (first :: later) = (s.step first).1 :: (s.step first).2.run later := rfl

theorem logger_insert (s : Session) (given name : String) (l : Logger) :
    Session.logger { s with named := s.named.insert given l } name =
      if given = name then l else s.logger name := by
  unfold Session.logger
  split
  · rename_i h
    subst h
    rw [get?_insert_self]
    rfl
  · rename_i h
    rw [get?_insert_of_ne l s.named (Ne.symm h)]

end Session

theorem IsLineage.step {root : Logger} {earlier : List Step} {s : Session}
    (h : IsLineage root earlier s) (step : Step) :
    IsLineage root (step :: earlier) (s.step step).2 := by
  obtain ⟨logger, clock, action⟩ := step
  cases action with
  | log => exact h
  | evaluate => exact h
  | child given metadata =>
    intro name
    have hchild : (s.logger logger).child metadata =
        root.child (spread (lineage earlier logger ++ [metadata])) := by
      rw [h logger, Logger.child_child root (ordered_spread _), spread_concat]
    -- a name given again stands for the new child; those made from the old one keep their own
    rw [Session.step, Session.logger_insert, lineage]
    dsimp only
    split
    · exact hchild
    · exact h name

theorem IsLineage.after {root : Logger} {earlier : List Step} {s : Session}
    (h : IsLineage root earlier s) (steps : List Step) :
    IsLineage root (steps.reverse ++ earlier) (s.after steps) := by
  induction steps generalizing earlier s with
  | nil => exact h
  | cons step steps ih =>
    rw [List.reverse_cons, List.append_assoc]
    exact ih (h.step step)

/-! ## Steps alone -/

/-- The answer of the step on a new logger, with all that the named logger has inherited given in the
call or, for an evaluation, to a child. -/
def Step.alone (root : Logger) (path : List Metadata) (step : Step) :
    Logged EvaluationError (Option Binary64) :=
  match step.action with
  | .child .. => .pure none
  | .log level event metadata =>
    (root.log step.clock level event (spread (path ++ [metadata]))).mapError .log >>= fun _ =>
      .pure none
  | .evaluate expression =>
    evaluate expression .undefined (some (root.child (spread path))) step.clock >>= fun value =>
      .pure (some value)

theorem IsLineage.step_eq_alone {root : Logger} {earlier : List Step} {s : Session}
    (h : IsLineage root earlier s) (step : Step) :
    (s.step step).1 = step.alone root (lineage earlier step.logger) := by
  obtain ⟨logger, clock, action⟩ := step
  cases action with
  | child => rfl
  | log level event metadata =>
    simp only [Session.step, Step.alone, h logger,
      Logger.log_child root (ordered_spread _), spread_concat]
  | evaluate expression => simp only [Session.step, Step.alone, h logger]

theorem IsLineage.run_eq {root : Logger} {earlier : List Step} {s : Session}
    (h : IsLineage root earlier s) (steps : List Step) :
    s.run steps = steps.mapIdx fun i step =>
      step.alone root (lineage ((steps.take i).reverse ++ earlier) step.logger) := by
  induction steps generalizing earlier s with
  | nil => rfl
  | cons first rest ih =>
    rw [Session.run_cons, List.mapIdx_cons, h.step_eq_alone, ih (h.step first)]
    simp only [List.take_succ_cons, List.reverse_cons, List.append_assoc, List.singleton_append]
    rfl

/-- In every run each step answers as if it were the only one, on a new root with the inherited metadata
spread below those of the step, and two children in a row are one. -/
theorem run_eq_alone (config : Config) (sink : Sink) (steps : List Step) :
    (Session.start (.create config sink)).run steps =
      steps.mapIdx (fun i step =>
        step.alone (.create config sink) (lineage (steps.take i).reverse step.logger)) ∧
    (∀ name, ((Session.start (.create config sink)).after steps).logger name =
      (Logger.create config sink).child (spread (lineage steps.reverse name))) ∧
    ∀ (l : Logger) (a b : Metadata), (l.child a).child b = l.child (spread [a, b]) := by
  have hstart := isLineage_start (.create config sink)
  refine ⟨?_, ?_, ?_⟩
  · have hrun := hstart.run_eq steps
    simpa only [List.append_nil] using hrun
  · have hafter := hstart.after steps
    rwa [List.append_nil] at hafter
  · intro l a b
    simp only [Logger.child, merge_spread]
    rfl

end RunningTotal
