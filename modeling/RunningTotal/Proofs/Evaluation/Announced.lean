import RunningTotal.Proofs.Evaluation.Outcome
import RunningTotal.Proofs.Log.Call

/-! Evaluations with a logger. From the tokens on, an evaluation announces its events one after another
and then comes to what it comes to without a logger (`evaluate_eq_announceAll`), unless an event
cannot be logged, whose failure then takes the place of the result (`evaluate_announced`). -/
set_option autoImplicit false

namespace RunningTotal

open Log Record

/-! ## Events -/

/-- An event and the metadata it is logged with, inherited ones among them. -/
structure Event where
  name : String
  metadata : Metadata

/-- The events of an evaluation that has come to its tokens: their number, and the total if there is
one, each written over the inherited metadata. -/
def events (inherited : Metadata) (tokens : List Token) : List Event :=
  ⟨"expression_lexed", inherited.insert "token_count" (.number (Binary64.ofNat tokens.length))⟩ ::
    match Token.total tokens with
    | .ok value => [⟨"expression_evaluated", inherited.insert "result" (.number value)⟩]
    | .error _ => []

/-- Events logged one after another: the first that cannot be logged ends it with its failure, and the
lines are those of the events before it. -/
inductive Announces (root : Logger) (clock : Clock) :
    List Event → Except Failure Unit → List String → Prop
  | done : Announces root clock [] (.ok ()) []
  | fails {event : Event} {later : List Event} {failure : Failure}
      (ends : root.CallEnds clock .debug event.name event.metadata (.fail failure)) :
      Announces root clock (event :: later) (.error failure) []
  | goesOn {event : Event} {later : List Event} {ended : Except Failure Unit}
      {lines laterLines : List String}
      (ends : root.CallEnds clock .debug event.name event.metadata ⟨.ok (), lines⟩)
      (rest : Announces root clock later ended laterLines) :
      Announces root clock (event :: later) ended (lines ++ laterLines)

def announceAll (root : Logger) (clock : Clock) : List Event → Logged EvaluationError Unit
  | [] => pure ()
  | event :: later =>
    (root.log clock .debug event.name event.metadata).mapError .log >>= fun _ =>
      announceAll root clock later

theorem announce_foldl_child (root : Logger) (path : List Metadata) (clock : Clock)
    (event name : String) (value : Binary64) :
    announce (path.foldl Logger.child root) clock event name value =
      (root.log clock .debug event ((spread path).insert name (.number value))).mapError .log := by
  rw [announce, Logger.foldl_child, Logger.log_child root (ordered_spread path)]
  rfl

/-- An evaluation on a logger at the end of a chain of children announces its events on the root. -/
theorem evaluate_eq_announceAll {expression : String} {limits : Value} {tokens : List Token}
    (h : beforeTotal expression limits = .ok tokens) (root : Logger) (path : List Metadata)
    (clock : Clock) :
    evaluate expression limits (some (path.foldl Logger.child root)) clock =
      announceAll root clock (events (spread path) tokens) >>= fun _ =>
        Logged.ofExcept ((Token.total tokens).mapError (.ofTotal expression)) := by
  rw [evaluate_of_ok h, events, announceAll, bind_assoc, Option.getD_some, announce_foldl_child]
  congr 1
  funext _
  cases Token.total tokens with
  | error e => rfl
  | ok value =>
    simp only [announce_foldl_child, announceAll, bind_assoc, pure_bind]
    rfl

theorem announceAll_of_not_admits {root : Logger} (h : root.admits .debug = false) (clock : Clock)
    (all : List Event) : announceAll root clock all = pure () := by
  induction all with
  | nil => rfl
  | cons event later ih =>
    rw [announceAll, Logger.log_of_not_admits h, ih]
    rfl

theorem exists_announces {root : Logger} (h : root.admits .debug = true) (clock : Clock)
    (all : List Event) :
    ∃ ended lines, Announces root clock all ended lines ∧
      announceAll root clock all = ⟨ended.mapError .log, lines⟩ := by
  induction all with
  | nil => exact ⟨.ok (), [], .done, rfl⟩
  | cons event later ih =>
    obtain ⟨ended, laterLines, hrest, hall⟩ := ih
    have hends := Logger.callEnds_log h clock event.name event.metadata
    rw [announceAll]
    rcases hends.fails_or_succeeds with ⟨failure, hfails⟩ | ⟨lines, hlines⟩
    · rw [hfails] at hends ⊢
      exact ⟨.error failure, [], .fails hends, rfl⟩
    · rw [hlines] at hends ⊢
      exact ⟨ended, lines ++ laterLines, .goesOn hends hrest, by rw [hall]; rfl⟩

theorem admits_debug_iff (l : Logger) : l.admits .debug = true ↔ l.minLevel = .debug := by
  unfold Logger.admits
  cases l.minLevel <;> decide

/-! ## With a logger and without -/

/-- A logger hears nothing of a failure before the total, and nothing at all above the debug level. At
that level the events are announced, and the result is the same unless one cannot be logged. -/
theorem evaluate_announced (config : Config) (sink : Sink) (path : List Metadata)
    (expression : String) (limits : Value) (clock : Clock) :
    let root := Logger.create config sink
    let logger := path.foldl Logger.child root
    let silent := evaluate expression limits none clock
    let logged := evaluate expression limits (some logger) clock
    (∀ e, beforeTotal expression limits = .error e →
      silent = ⟨.error e, []⟩ ∧ logged = ⟨.error e, []⟩) ∧
    ∀ tokens, beforeTotal expression limits = .ok tokens →
      silent = ⟨(Token.total tokens).mapError (.ofTotal expression), []⟩ ∧
      (logger.minLevel ≠ .debug → logged = silent) ∧
      (logger.minLevel = .debug → ∃ ended lines,
        Announces root clock (events (spread path) tokens) ended lines ∧
        logged = match ended with
          | .ok () => ⟨silent.result, lines⟩
          | .error failure => ⟨.error (.log failure), lines⟩) := by
  intro root logger silent logged
  constructor
  · intro e h
    exact ⟨evaluate_of_error h none clock, evaluate_of_error h (some logger) clock⟩
  · intro tokens h
    have hadmits : root.admits .debug = true ↔ logger.minLevel = .debug := by
      rw [admits_debug_iff]
      simp only [logger, Logger.foldl_child]
      rfl
    have hlogged := evaluate_eq_announceAll h root path clock
    have hsilent : silent = ⟨(Token.total tokens).mapError (.ofTotal expression), []⟩ := by
      have hall := evaluate_eq_announceAll h .silent [] clock
      rwa [announceAll_of_not_admits rfl, pure_bind] at hall
    refine ⟨hsilent, ?_, ?_⟩
    · intro hlevel
      have hnot : root.admits .debug = false := Bool.eq_false_iff.mpr (mt hadmits.mp hlevel)
      rw [announceAll_of_not_admits hnot, pure_bind] at hlogged
      exact hlogged.trans hsilent.symm
    · intro hlevel
      obtain ⟨ended, lines, hannounces, hall⟩ :=
        exists_announces (hadmits.mpr hlevel) clock (events (spread path) tokens)
      refine ⟨ended, lines, hannounces, ?_⟩
      rw [hall] at hlogged
      refine hlogged.trans ?_
      cases ended with
      | error failure => rfl
      | ok =>
        refine (Logged.bind_ok rfl _).trans ?_
        rw [hsilent]
        exact congrArg _ (List.append_nil lines)

end RunningTotal
