import RunningTotal.Log.Logger
import RunningTotal.Proofs.Record.Merge

/-! What a logger inherits. A child is its parent with more metadata, so a chain of children is one child
with all that they were given spread over one another (`foldl_child`), and a child's call is the
parent's with the inherited metadata given in the call (`log_child`). Nothing else is its own, neither
the least level (`admits_foldl_child`) nor the sink (`sink_foldl_child`). -/
set_option autoImplicit false

namespace RunningTotal.Log.Logger

open Record

variable (l : Logger)

theorem child_child {inherited : Metadata} (h : Ordered inherited) (metadata : Metadata) :
    (l.child inherited).child metadata = l.child (merge inherited metadata) := by
  simp only [child, merge_merge l.metadata h]

theorem foldl_child (path : List Metadata) : path.foldl child l = l.child (spread path) := by
  induction path using List.reverseRecOn with
  | nil => rfl
  | append_singleton path last ih =>
    rw [List.foldl_append, ih, List.foldl_cons, List.foldl_nil, child_child l (ordered_spread path),
      spread_concat]

theorem line_child {inherited : Metadata} (h : Ordered inherited) (clock : Clock) (level : Level)
    (event : String) (metadata : Metadata) :
    (l.child inherited).line clock level event metadata =
      l.line clock level event (merge inherited metadata) := by
  simp only [line, child, merge_merge l.metadata h]

/-- What a child inherits might be given with each of its calls instead. -/
theorem log_child {inherited : Metadata} (h : Ordered inherited) (clock : Clock) (level : Level)
    (event : String) (metadata : Metadata) :
    (l.child inherited).log clock level event metadata =
      l.log clock level event (merge inherited metadata) := by
  rw [log, log, line_child l h]
  rfl

/-- The metadata of a call on a logger at the end of a chain of children of a root. -/
theorem merge_foldl_child (config : Config) (sink : Sink) (path : List Metadata)
    (metadata : Metadata) :
    merge (path.foldl child (create config sink)).metadata metadata = spread (path ++ [metadata]) := by
  have hroot : merge [] (spread path) = spread path := (ordered_spread path).ofList_eq
  rw [foldl_child, spread_concat]
  exact congrArg (merge · metadata) hroot

/-- The sink has no part in the line. -/
theorem line_foldl_child_sink (config : Config) (sink other : Sink) (path : List Metadata)
    (clock : Clock) (level : Level) (event : String) (metadata : Metadata) :
    (path.foldl child (create config sink)).line clock level event metadata =
      (path.foldl child (create config other)).line clock level event metadata := by
  rw [foldl_child, foldl_child]
  rfl

theorem sink_foldl_child (config : Config) (sink : Sink) (path : List Metadata) :
    (path.foldl child (create config sink)).sink = sink := by
  rw [foldl_child]
  rfl

/-- A chain of children has the least level of its root. -/
theorem admits_foldl_child (config : Config) (sink : Sink) (path : List Metadata) (level : Level) :
    (path.foldl child (create config sink)).admits level =
      decide ((config.minLevel.getD
        (config.environment.getD .development).preset.minLevel).priority ≤ level.priority) := by
  rw [foldl_child]
  rfl

end RunningTotal.Log.Logger
