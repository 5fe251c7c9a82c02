import Mathlib.Data.List.Induction
import Mathlib.Data.List.Nodup
import QuadraticPenalty.Chance.Words

namespace QuadraticPenalty

variable {σ : Type}

namespace Dice

variable {d : Dice σ} {is : List ℕ} {j k n : ℕ}

def IsSample (n k : ℕ) (is : List ℕ) : Prop := is.length = k ∧ is.Nodup ∧ ∀ i ∈ is, i < n

instance (n k : ℕ) (is : List ℕ) : Decidable (IsSample n k is) := inferInstanceAs (Decidable (_ ∧ _ ∧ _))

def Samples (d : Dice σ) : Prop := ∀ n k s, k ≤ n → IsSample n k (d.sample n k s).1

lemma isSample_range (h : k ≤ n) : IsSample n k (List.range k) :=
  ⟨List.length_range, List.nodup_range, fun _ hi => Nat.lt_of_lt_of_le (List.mem_range.mp hi) h⟩

lemma IsSample.step (h : IsSample j k is) {t : ℕ} (ht : t ≤ j) :
    IsSample (j + 1) (k + 1) (is.map (fun i => if i = t then j else i) ++ [t]) := by
  obtain ⟨hlength, hnodup, hlt⟩ := h
  have hmapped : (is.map fun i => if i = t then j else i).Nodup := by
    refine hnodup.map_on fun a ha b hb hab => ?_
    have hlta := hlt a ha
    have hltb := hlt b hb
    split at hab <;> split at hab <;> omega
  have hnew : t ∉ is.map fun i => if i = t then j else i := fun hmem => by
    obtain ⟨i, hi, hit⟩ := List.mem_map.mp hmem
    have hlti := hlt i hi
    split at hit <;> omega
  refine ⟨by simp [hlength], hmapped.append (List.nodup_singleton t) (by simpa using hnew), fun i hi => ?_⟩
  obtain hi | rfl := by simpa only [List.mem_append, List.mem_singleton] using hi
  · obtain ⟨a, ha, rfl⟩ := List.mem_map.mp hi
    have hlta := hlt a ha
    split <;> omega
  · omega

lemma size_coins (n : ℕ) (c : σ) : (d.coins n c).1.size = n := by
  induction n with
  | zero => rfl
  | succ n ih =>
    have hstep : d.coins (n + 1) c = d.coinStep (d.coins n c) := rfl
    rw [hstep, coinStep, Array.size_push, ih]

def loaded : Dice (List ℕ × List Bool) where
  upTo top c := (⟨min (c.1.headD 0) top, Nat.lt_succ_of_le (Nat.min_le_right _ top)⟩, c.1.tail, c.2)
  coin c := (c.2.headD false, c.1, c.2.tail)
  sample n k c := (if IsSample n k (c.1.take k) then c.1.take k else List.range k, c.1.drop k, c.2)

lemma loaded_samples : loaded.Samples := by
  intro n k s h
  simp only [loaded]
  split
  · next hsample => exact hsample
  · exact isSample_range h

lemma sample_loaded (numbers : List ℕ) (bits : List Bool) (h : IsSample n k is) :
    loaded.sample n k (is ++ numbers, bits) = (is, numbers, bits) := by
  simp only [loaded, List.take_left' h.1, List.drop_left' h.1, if_pos h]

lemma coins_loaded (numbers : List ℕ) (bits rest : List Bool) :
    loaded.coins bits.length (numbers, bits ++ rest) = (bits.toArray, numbers, rest) := by
  induction bits using List.reverseRecOn generalizing rest with
  | nil => rfl
  | append_singleton bits b ih =>
    have hstep : loaded.coins (bits.length + 1) (numbers, bits ++ [b] ++ rest) =
        loaded.coinStep (loaded.coins bits.length (numbers, bits ++ [b] ++ rest)) := rfl
    rw [List.length_append, List.length_singleton, hstep, List.append_assoc, ih]
    simp [coinStep, loaded]

end Dice

namespace Words

lemma isSample_sample (draw : (top : ℕ) → σ → Fin (top + 1) × σ) {n k : ℕ} (h : k ≤ n) (s : σ) :
    Dice.IsSample n k (sample draw n k s).1 := by
  have hrange : ∀ a k, Dice.IsSample (a + k) k
      ((List.range' a k).foldl (sampleStep draw) ([], s)).1 := by
    intro a k
    induction k with
    | zero => exact ⟨rfl, .nil, by simp⟩
    | succ k ih =>
      rw [List.range'_concat, List.foldl_append, Nat.one_mul]
      exact ih.step (Nat.le_of_lt_succ (draw (a + k) _).1.isLt)
  have hsample := hrange (n - k) k
  rwa [Nat.sub_add_cancel h] at hsample

theorem dice_samples (next : Source σ) : (dice next).Samples := fun _ _ s h => isSample_sample _ h s

end Words

end QuadraticPenalty
