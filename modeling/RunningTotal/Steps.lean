/-! Operations performed one after another by a machine, each of which gives an answer and the state to
go on from. -/
set_option autoImplicit false

namespace RunningTotal.Steps

variable {σ ω ρ : Type} (perform : σ → ω → ρ × σ)

/-- Each answer with the state after it. -/
def run (s : σ) : List ω → List (ρ × σ)
  | [] => []
  | first :: later => perform s first :: run (perform s first).2 later

/-- The state after the last operation. -/
def after (s : σ) (operations : List ω) : σ :=
  operations.foldl (fun s operation => (perform s operation).2) s

end RunningTotal.Steps
