import RunningTotal.Steps

/-! What a run comes to, operation by operation. A machine `Follows` a rule when its states are the
places up to an end and each operation leads from a place to one not before it, just as the rule
says; then every answer of a run is the rule's, at the place the run has come to
(`Follows.answers_of_getElem?`). -/
set_option autoImplicit false

namespace RunningTotal.Steps

variable {σ ω ρ : Type} (perform : σ → ω → ρ × σ)

theorem after_append (s : σ) (first later : List ω) :
    after perform s (first ++ later) = after perform (after perform s first) later :=
  List.foldl_append

theorem getElem?_run (s : σ) (operations : List ω) (i : Nat) :
    (run perform s operations)[i]? =
      operations[i]?.map (perform (after perform s (operations.take i))) := by
  induction operations generalizing s i with
  | nil => simp [run]
  | cons first later ih =>
    cases i with
    | zero => rfl
    | succ i => exact ih _ i

theorem after_take_succ (s : σ) {operations : List ω} {i : Nat} {operation : ω}
    (h : operations[i]? = some operation) :
    after perform s (operations.take (i + 1)) =
      (perform (after perform s (operations.take i)) operation).2 := by
  rw [List.take_add_one, h, after_append]
  rfl

/-- A machine that stays where it is answers every operation from there. -/
theorem run_eq_map {s : σ} {operations : List ω}
    (stays : ∀ operation ∈ operations, (perform s operation).2 = s) :
    run perform s operations = operations.map (perform s) := by
  induction operations with
  | nil => rfl
  | cons first later ih =>
    obtain ⟨hfirst, hlater⟩ := List.forall_mem_cons.mp stays
    rw [run, hfirst, ih hlater, List.map_cons]

theorem after_eq_self {s : σ} {operations : List ω}
    (stays : ∀ operation ∈ operations, (perform s operation).2 = s) :
    after perform s operations = s := by
  induction operations with
  | nil => rfl
  | cons first later ih =>
    obtain ⟨hfirst, hlater⟩ := List.forall_mem_cons.mp stays
    rw [after, List.foldl_cons, hfirst]
    exact ih hlater

theorem run_replicate {s : σ} {operation : ω} {reply : ρ} (h : perform s operation = (reply, s))
    (m : Nat) : run perform s (List.replicate m operation) = List.replicate m (reply, s) := by
  rw [run_eq_map perform fun again hagain => by rw [List.eq_of_mem_replicate hagain, h],
    List.map_replicate, h]

/-! ## Places -/

/-- From a place `p` up to `n` the machine answers each operation as the rule `answers` says, which is
that it goes on to a place `q`. -/
structure Follows (place : Nat → σ) (n : Nat) (answers : Nat → ω → ρ → Nat → Prop) : Prop where
  performs : ∀ {p operation reply q}, p ≤ n → answers p operation reply q →
    perform (place p) operation = (reply, place q)
  total : ∀ {p}, p ≤ n → ∀ operation, ∃ reply q, answers p operation reply q
  forward : ∀ {p operation reply q}, p ≤ n → answers p operation reply q → p ≤ q ∧ q ≤ n

namespace Follows

variable {perform} {place : Nat → σ} {n : Nat} {answers : Nat → ω → ρ → Nat → Prop}
  (h : Follows perform place n answers)

include h

theorem perform_eq_iff {p : Nat} (hp : p ≤ n) (operation : ω) (reply : ρ) (s : σ) :
    perform (place p) operation = (reply, s) ↔ ∃ q, s = place q ∧ answers p operation reply q := by
  constructor
  · intro hs
    obtain ⟨found, q, hq⟩ := h.total hp operation
    rw [h.performs hp hq] at hs
    cases hs
    exact ⟨q, rfl, hq⟩
  · rintro ⟨q, rfl, hq⟩
    exact h.performs hp hq

theorem exists_after_eq {p : Nat} (hp : p ≤ n) (operations : List ω) :
    ∃ q, after perform (place p) operations = place q ∧ p ≤ q ∧ q ≤ n := by
  induction operations generalizing p with
  | nil => exact ⟨p, rfl, Nat.le_refl p, hp⟩
  | cons first later ih =>
    obtain ⟨reply, q, hq⟩ := h.total hp first
    obtain ⟨hle, hn⟩ := h.forward hp hq
    obtain ⟨r, hafter, hqr, hr⟩ := ih hn
    refine ⟨r, ?_, Nat.le_trans hle hqr, hr⟩
    rw [← hafter]
    exact congrArg (fun x => after perform x.2 later) (h.performs hp hq)

variable {cursor : σ → Nat} (hcursor : ∀ p, cursor (place p) = p) (operations : List ω)

include hcursor

theorem after_eq :
    let p := cursor (after perform (place 0) operations)
    after perform (place 0) operations = place p ∧ p ≤ n := by
  obtain ⟨q, hafter, -, hq⟩ := h.exists_after_eq (Nat.zero_le n) operations
  rw [hafter, hcursor]
  exact ⟨rfl, hq⟩

theorem answers_of_getElem? {i : Nat} {operation : ω} (hi : operations[i]? = some operation) :
    let p := cursor (after perform (place 0) (operations.take i))
    let q := cursor (after perform (place 0) (operations.take (i + 1)))
    ∃ reply, (run perform (place 0) operations)[i]? = some (reply, place q) ∧
      answers p operation reply q := by
  obtain ⟨hafter, hp⟩ := h.after_eq hcursor (operations.take i)
  obtain ⟨reply, q, hq⟩ := h.total hp operation
  have hperform := h.performs hp hq
  have hnext : after perform (place 0) (operations.take (i + 1)) = place q := by
    rw [after_take_succ perform _ hi, hafter, hperform]
  refine ⟨reply, ?_, ?_⟩
  · rw [getElem?_run, hi, hafter, Option.map_some, hperform, hnext, hcursor]
  · rw [hnext, hcursor]
    exact hq

/-- A run never goes back. -/
theorem after_take_le {i j : Nat} (hij : i ≤ j) :
    cursor (after perform (place 0) (operations.take i)) ≤
      cursor (after perform (place 0) (operations.take j)) := by
  obtain ⟨hafter, hp⟩ := h.after_eq hcursor (operations.take i)
  obtain ⟨q, hlater, hle, -⟩ := h.exists_after_eq hp ((operations.take j).drop i)
  have hsplit := List.take_append_drop i (operations.take j)
  rw [List.take_take, Nat.min_eq_left hij] at hsplit
  rw [← hsplit, after_append, hafter, hlater, hcursor, hcursor]
  exact hle

end Follows

end RunningTotal.Steps
