import Mathlib.Data.Nat.Find

/-! The leftmost of several defects. `Leftmost p k d` says that `d` is what is wrong at index `k`
and that nothing is wrong before it; where anything is wrong there is such an index
(`exists_leftmost`), and only one (`Leftmost.unique`). -/
set_option autoImplicit false

namespace RunningTotal

variable {δ : Type} {p q : Nat → δ → Prop}

structure Leftmost (p : Nat → δ → Prop) (k : Nat) (d : δ) : Prop where
  defect : p k d
  least : ∀ i < k, ∀ e, ¬ p i e

theorem exists_leftmost {k : Nat} {d : δ} (h : p k d) : ∃ j e, Leftmost p j e := by
  classical
  have hex : ∃ j, ∃ e, p j e := ⟨k, d, h⟩
  obtain ⟨e, he⟩ := Nat.find_spec hex
  exact ⟨Nat.find hex, e, he, fun i hi e he => Nat.find_min hex hi ⟨e, he⟩⟩

namespace Leftmost

variable {j k : Nat} {d e : δ}

theorem index_eq (h : Leftmost p j d) (h' : Leftmost p k e) : j = k := by
  rcases Nat.lt_trichotomy j k with hlt | heq | hgt
  · exact absurd h.defect (h'.least j hlt d)
  · exact heq
  · exact absurd h'.defect (h.least k hgt e)

theorem unique (single : ∀ i a b, p i a → p i b → a = b) (h : Leftmost p j d)
    (h' : Leftmost p k e) : d = e := by
  obtain rfl := h.index_eq h'
  exact single j d e h.defect h'.defect

/-- Only what is wrong up to the index matters. -/
theorem congr (h : Leftmost p k d) (same : ∀ i ≤ k, ∀ e, p i e ↔ q i e) : Leftmost q k d where
  defect := (same k (Nat.le_refl k) d).mp h.defect
  least i hi e he := h.least i hi e ((same i (Nat.le_of_lt hi) e).mpr he)

end Leftmost

end RunningTotal
