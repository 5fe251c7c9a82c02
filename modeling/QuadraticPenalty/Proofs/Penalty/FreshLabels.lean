import QuadraticPenalty.Penalty.Compilation
import QuadraticPenalty.Proofs.Order.SortedMap

namespace QuadraticPenalty.Compilation

variable {α σ : Type} {p : Problem} {stem : String} {r : Progress α σ}

lemma labelOf_injective (stem : String) : Function.Injective (labelOf stem) := by
  intro i j h
  have hlist := congrArg String.toList h
  simp only [labelOf, String.toList_append] at hlist
  have hdigits := List.append_cancel_left hlist
  have hnum := congrArg (fun ds => Nat.ofDigitChars 10 ds 0) hdigits
  simpa [Nat.toString_eq_ofList_toDigits] using hnum

lemma firstFree_le (taken : ℕ → Bool) (fuel i : ℕ) :
    i ≤ firstFree taken fuel i ∧ firstFree taken fuel i ≤ i + fuel := by
  induction fuel generalizing i with
  | zero => simp [firstFree]
  | succ fuel ih =>
    unfold firstFree
    split
    · have := ih (i + 1)
      omega
    · omega

lemma taken_of_lt_firstFree (taken : ℕ → Bool) (fuel : ℕ) {i j : ℕ} (hij : i ≤ j)
    (hj : j < firstFree taken fuel i) : taken j = true := by
  induction fuel generalizing i with
  | zero => simp only [firstFree] at hj; omega
  | succ fuel ih =>
    unfold firstFree at hj
    split at hj
    · next hi =>
      rcases hij.eq_or_lt with rfl | hlt
      exacts [hi, ih hlt hj]
    · omega

lemma firstFree_eq_false (taken : ℕ → Bool) {fuel i j : ℕ} (hij : i ≤ j) (hj : j ≤ i + fuel)
    (h : taken j = false) : taken (firstFree taken fuel i) = false := by
  induction fuel generalizing i with
  | zero =>
    obtain rfl : i = j := by omega
    exact h
  | succ fuel ih =>
    unfold firstFree
    split
    · next hi =>
      have hne : i ≠ j := fun he => by simp [he, h] at hi
      exact ih (by omega) (by omega)
    · next hi => simpa using hi

lemma exists_free (p : Problem) (stem : String) (i : ℕ) :
    ∃ j, i ≤ j ∧ j ≤ i + p.index.size ∧ p.index.contains (labelOf stem j) = false := by
  by_contra! h
  have hsub : (List.range' i (p.index.size + 1)).map (labelOf stem) ⊆ p.index.keys := by
    intro l hl
    obtain ⟨j, hj, rfl⟩ := List.mem_map.mp hl
    obtain ⟨hij, hlt⟩ := List.mem_range'_1.mp hj
    simpa using h j hij (by omega)
  have hnodup : ((List.range' i (p.index.size + 1)).map (labelOf stem)).Nodup :=
    (List.nodup_range' 1).map (labelOf_injective stem)
  have hlen := (hnodup.subperm hsub).length_le
  simp at hlen

lemma freeNumber_free (p : Problem) (stem : String) (i : ℕ) :
    p.index.contains (labelOf stem (freeNumber p stem i)) = false := by
  obtain ⟨j, hij, hj, hfree⟩ := exists_free p stem i
  exact firstFree_eq_false (fun i => p.index.contains (labelOf stem i)) hij hj hfree

def isFree (p : Problem) (stem : String) (i : ℕ) : Bool := !p.index.contains (labelOf stem i)

def Progress.Minted (p : Problem) (stem : String) (r : Progress α σ) : Prop :=
  r.labels = ((List.range r.nextNumber).filter (isFree p stem)).map (labelOf stem)

lemma Progress.Minted.start (p : Problem) (stem : String) (o : σ) :
    (⟨0, [], o, []⟩ : Progress α σ).Minted p stem := rfl

lemma Progress.Minted.nodup (h : r.Minted p stem) : r.labels.Nodup :=
  h ▸ (List.nodup_range.filter _).map (labelOf_injective stem)

lemma Progress.Minted.not_mem_labels (h : r.Minted p stem) {l : String} (hl : l ∈ r.labels) :
    l ∉ p.labels := by
  rw [h] at hl
  obtain ⟨i, hi, rfl⟩ := List.mem_map.mp hl
  have hfree : p.index.contains (labelOf stem i) = false := by
    simpa [isFree] using (List.mem_filter.mp hi).2
  intro hm
  rw [SortedMap.contains_iff.mpr hm] at hfree
  cases hfree

lemma filter_range_freeNumber (p : Problem) (stem : String) (i : ℕ) :
    (List.range (freeNumber p stem i + 1)).filter (isFree p stem) =
      (List.range i).filter (isFree p stem) ++ [freeNumber p stem i] := by
  obtain ⟨hle, -⟩ := firstFree_le (fun j => p.index.contains (labelOf stem j)) p.index.size i
  change i ≤ freeNumber p stem i at hle
  have htaken : (List.range' i (freeNumber p stem i - i)).filter (isFree p stem) = [] := by
    refine List.filter_eq_nil_iff.mpr fun j hj => ?_
    obtain ⟨hij, hlt⟩ := List.mem_range'_1.mp hj
    have hj : j < freeNumber p stem i := by omega
    have htaken := taken_of_lt_firstFree (fun j => p.index.contains (labelOf stem j)) p.index.size
      hij hj
    simpa [isFree] using htaken
  have hsplit : List.range (freeNumber p stem i) =
      List.range i ++ List.range' i (freeNumber p stem i - i) := by
    have happend := @List.range'_append_1 0 i (freeNumber p stem i - i)
    rw [Nat.zero_add, Nat.add_sub_cancel' hle] at happend
    simpa only [List.range_eq_range'] using happend.symm
  rw [List.range_succ, List.filter_append, hsplit, List.filter_append, htaken, List.append_nil]
  simp [isFree, freeNumber_free]

lemma Progress.Minted.freshLabel (h : r.Minted p stem) : ∃ l r', r.freshLabel p stem = (l, r') ∧
    r'.labels = r.labels ++ [l] ∧ r'.Minted p stem ∧ l ∉ p.labels ∧ l ∉ r.labels := by
  refine ⟨_, _, rfl, rfl, ?_⟩
  have hminted : (r.freshLabel p stem).2.Minted p stem := by
    change r.labels ++ [labelOf stem (freeNumber p stem r.nextNumber)] = _
    rw [h]
    change _ = ((List.range (freeNumber p stem r.nextNumber + 1)).filter _).map _
    rw [filter_range_freeNumber, List.map_append]
    rfl
  refine ⟨hminted, hminted.not_mem_labels (by simp [Progress.freshLabel]), fun hl => ?_⟩
  have hnodup : (r.labels ++ [labelOf stem (freeNumber p stem r.nextNumber)]).Nodup := hminted.nodup
  exact (List.nodup_append.mp hnodup).2.2 _ hl _ (by simp) rfl

end QuadraticPenalty.Compilation
