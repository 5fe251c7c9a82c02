import QuadraticPenalty.Proofs.Grid.Energies

namespace QuadraticPenalty.Landscape

open Scalar Extended

variable {l : Landscape Extended} {lows : List ℚ} {step : ℚ} {digits : List ℕ} {k d : ℕ}

def signedTotal (lows : List ℚ) (step : ℚ) (row : List ℤ) (digits : List ℕ) : ℚ :=
  (List.zipWith (fun (s : ℤ) x => (s : ℚ) * x) row (biasesAt lows step digits)).sum

lemma HasLevels.energies_eq (h : l.HasLevels lows step) (digits : List ℕ) :
    l.energies digits = l.signs.map fun row => finite (signedTotal lows step row digits) := by
  rw [energies, h.values_eq]
  exact List.map_congr_left fun row _ => signedSum_finite row _

lemma signedTotal_set (row : List ℤ) (hk : k < digits.length) (hlow : k < lows.length) :
    signedTotal lows step row (digits.set k d) = signedTotal lows step row digits +
      ((d : ℚ) - (digits.getD k 0 : ℕ)) * step * (row.getD k 0 : ℤ) := by
  induction k generalizing row digits lows with
  | zero =>
    obtain ⟨e, ds, rfl⟩ := List.exists_cons_of_length_pos hk
    obtain ⟨low, lows, rfl⟩ := List.exists_cons_of_length_pos hlow
    cases row with
    | nil => simp [signedTotal]
    | cons s row =>
      simp only [signedTotal, biasesAt, List.set_cons_zero, List.zipWith_cons_cons, List.sum_cons,
        List.getD_cons_zero]
      ring
  | succ k ih =>
    obtain ⟨e, ds, rfl⟩ := List.exists_cons_of_length_pos (Nat.zero_lt_of_lt hk)
    obtain ⟨low, lows, rfl⟩ := List.exists_cons_of_length_pos (Nat.zero_lt_of_lt hlow)
    cases row with
    | nil => simp [signedTotal]
    | cons s row =>
      have hrest := ih row (Nat.lt_of_succ_lt_succ hk) (Nat.lt_of_succ_lt_succ hlow)
      simp only [signedTotal, biasesAt, List.set_cons_succ, List.zipWith_cons_cons, List.sum_cons,
        List.getD_cons_succ] at hrest ⊢
      rw [hrest]
      ring

lemma HasLevels.shift_energies (h : l.HasLevels lows step) {δ : ℚ} (hk : k < digits.length)
    (hlow : k < lows.length) (hδ : δ = ((d : ℚ) - (digits.getD k 0 : ℕ)) * step) :
    l.shift k (finite δ) (l.energies digits) = l.energies (digits.set k d) := by
  rw [shift, h.energies_eq, h.energies_eq, List.zipWith_map_left, List.zipWith_self]
  refine List.map_congr_left fun row _ => ?_
  rw [signedTotal_set row hk hlow, hδ]
  rfl

end QuadraticPenalty.Landscape
