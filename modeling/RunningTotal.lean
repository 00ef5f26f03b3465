import RunningTotal.Json.Reader
import RunningTotal.Log.Settings
import RunningTotal.Proofs.Evaluation.Layout
import RunningTotal.Proofs.Session.Stacks
import RunningTotal.Proofs.Token.Outcome
import RunningTotal.Proofs.Token.Resumption
import RunningTotal.Proofs.Token.Rounds
import RunningTotal.Proofs.Total.Defect
import RunningTotal.Proofs.Total.Rendered
import RunningTotal.Proofs.Total.Resumption
import RunningTotal.Proofs.Total.Spacing
import RunningTotal.Proofs.Log.Shown
import RunningTotal.Proofs.Session.Levels
import RunningTotal.Proofs.Evaluation.Limits
import RunningTotal.Proofs.Log.Settings
