import QuadraticPenalty.Grid.Landscape
import QuadraticPenalty.Proofs.Scalar.Least

namespace QuadraticPenalty.Landscape

open Scalar Extended

variable {l : Landscape Extended} {es : List ℚ}

lemma lower_getElem? (ds : List ℕ) (es : List Extended) (table : Array Extended) (i : ℕ) :
    (lower table ds es)[i]? = table[i]?.map fun x =>
      (((ds.zip es).filter fun e => e.1 = i).map Prod.snd).foldl
        (fun old e => if Scalar.lt e old then e else old) x := by
  induction ds generalizing es table with
  | nil => cases es <;> simp [lower]
  | cons d ds ih =>
    cases es with
    | nil => simp [lower]
    | cons e es =>
      rw [lower, ih, List.zip_cons_cons, Array.getElem?_modify]
      by_cases hd : d = i
      · simp [hd, Function.comp_def]
      · simp [hd]

lemma lowest_eq (l : Landscape Extended) (es : List ℚ) : l.lowest (es.map finite) =
    (List.range l.feasible.length).map fun i =>
      minimum (((l.decision.zip es).filter fun e => e.1 = i).map Prod.snd) := by
  have hstep := foldl_eq_minimum (fun old e => if Scalar.lt e old then e else old) (fun _ => rfl)
    (fun x y => by
      have hlt : Scalar.lt (finite y) (finite x) = decide (y < x) := rfl
      rcases lt_or_ge y x with h | h
      · rw [hlt, if_pos (by simpa using h), min_eq_right h.le]
      · rw [hlt, if_neg (by simpa using h), min_eq_left h])
  apply List.ext_getElem?
  intro i
  rw [lowest, Array.getElem?_toList, lower_getElem?, List.getElem?_map]
  have hzip : ((l.decision.zip (es.map finite)).filter fun e => e.1 = i).map Prod.snd =
      (((l.decision.zip es).filter fun e => e.1 = i).map Prod.snd).map finite := by
    rw [List.zip_map_right, List.filter_map, List.map_map, List.map_map]
    rfl
  rw [hzip, Array.getElem?_replicate]
  by_cases hi : i < l.feasible.length
  · rw [if_pos hi, List.getElem?_range hi, Option.map_some, Option.map_some]
    exact congrArg some (hstep _)
  · rw [if_neg hi, List.getElem?_eq_none (by simpa using hi)]
    rfl

lemma quality_eq {β : Type} {cs : List β} {e : β → ℚ} {p : β → Bool} {γ : ℚ}
    (hlow : l.lowest (es.map finite) = cs.map fun c => finite (e c)) (hp : l.feasible = cs.map p)
    (hγ : l.gap = finite γ) (hne : cs.filter p ≠ []) :
    ∃ ground, IsLeast {x | x ∈ (cs.filter p).map e} ground ∧
      (l.quality (es.map finite)).ground = finite ground ∧
      (l.quality (es.map finite)).gap =
        minimum ((cs.filter fun c => !p c).map fun c => e c - ground) ∧
      (l.quality (es.map finite)).cost =
        finite (((cs.filter p).map fun c => e c - ground).sum +
          ((cs.filter fun c => !p c).map fun c => max (ground + γ - e c) 0).sum) := by
  have htable : (l.lowest (es.map finite)).zip l.feasible = cs.map fun c => (finite (e c), p c) := by
    rw [hlow, hp, List.zip_map']
  have hinside : (((l.lowest (es.map finite)).zip l.feasible).filter (·.2)).map (·.1) =
      ((cs.filter p).map e).map finite := by
    rw [htable, List.filter_map, List.map_map, List.map_map]
    rfl
  have houtside : (((l.lowest (es.map finite)).zip l.feasible).filter (!·.2)).map (·.1) =
      ((cs.filter fun c => !p c).map e).map finite := by
    rw [htable, List.filter_map, List.map_map, List.map_map]
    rfl
  obtain ⟨ground, hground, hleast⟩ := exists_minimum (L := (cs.filter p).map e) (by simpa using hne)
  have hsub : ∀ x : ℚ, finite x - finite ground = finite (x - ground) := fun x => by
    rw [sub_eq_add_neg]
    rfl
  refine ⟨ground, hleast, ?_, ?_, ?_⟩
  · rw [quality]
    dsimp only
    rw [hinside, foldl_least, hground]
  · rw [quality]
    dsimp only
    rw [hinside, houtside, foldl_least, hground, ← foldl_least]
    simp only [List.foldl_map, hsub]
  · have hspread := foldl_add (fun x => x - finite ground) (fun x => x - ground) hsub
      ((cs.filter p).map e) 0
    have hshortfall := foldl_add (fun x => greatest (finite ground + finite γ - x) zero)
      (fun x => max (ground + γ - x) 0) (fun x => by
        have hx : finite ground + finite γ - finite x = finite (ground + γ - x) := by
          rw [sub_eq_add_neg (ground + γ)]
          rfl
        rw [hx]
        exact greatest_finite _ 0) ((cs.filter fun c => !p c).map e) 0
    rw [quality]
    dsimp only
    rw [hinside, houtside, foldl_least, hground, hγ]
    refine (congrArg₂ (· + ·) hspread hshortfall).trans ?_
    simp only [zero_add, List.map_map]
    rfl

lemma bounds_of_sum_le {β : Type} {inside outside : List β} {e : β → ℚ} {ground γ δ : ℚ}
    (hground : ∀ c ∈ inside, ground ≤ e c)
    (h : (inside.map fun c => e c - ground).sum +
      (outside.map fun c => max (ground + γ - e c) 0).sum ≤ δ) :
    (∀ c ∈ inside, e c ≤ ground + δ) ∧ ∀ c ∈ outside, ground + γ - δ ≤ e c := by
  have hspread : ∀ x ∈ inside.map fun c => e c - ground, 0 ≤ x := by
    intro x hx
    obtain ⟨c, hc, rfl⟩ := List.mem_map.mp hx
    exact sub_nonneg.mpr (hground c hc)
  have hshort : ∀ x ∈ outside.map fun c => max (ground + γ - e c) 0, 0 ≤ x := by
    intro x hx
    obtain ⟨c, -, rfl⟩ := List.mem_map.mp hx
    exact le_max_right _ _
  have hspreadSum := List.sum_nonneg hspread
  have hshortSum := List.sum_nonneg hshort
  refine ⟨fun c hc => ?_, fun c hc => ?_⟩
  · have hle := List.single_le_sum hspread _ (List.mem_map_of_mem hc)
    linarith
  · have hle := List.single_le_sum hshort _ (List.mem_map_of_mem hc)
    have hmax := le_max_left (ground + γ - e c) 0
    linarith

end QuadraticPenalty.Landscape
