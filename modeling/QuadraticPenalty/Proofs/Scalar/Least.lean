import Mathlib
import QuadraticPenalty.Scalar.Extended

namespace QuadraticPenalty.Extended

open Scalar

variable {L : List ℚ} {m : ℚ}

def minimum (L : List ℚ) : Extended := L.min?.elim infinity finite

@[simp] lemma minimum_nil : minimum [] = infinity := rfl

lemma exists_minimum (h : L ≠ []) : ∃ m, minimum L = finite m ∧ IsLeast {x | x ∈ L} m := by
  cases hm : L.min? with
  | none => exact absurd (List.min?_eq_none_iff.mp hm) h
  | some m =>
    obtain ⟨hmem, hle⟩ := List.min?_eq_some_iff.mp hm
    exact ⟨m, by simp [minimum, hm], hmem, fun x hx => hle x hx⟩

lemma foldl_eq_minimum (f : Extended → Extended → Extended) (hf : ∀ x, f infinity (finite x) = finite x)
    (hmin : ∀ x y, f (finite x) (finite y) = finite (min x y)) (L : List ℚ) :
    (L.map finite).foldl f infinity = minimum L := by
  have h : ∀ (L : List ℚ) (x : ℚ), (L.map finite).foldl f (finite x) = finite (L.foldl min x) := by
    intro L
    induction L with
    | nil => exact fun _ => rfl
    | cons y L ih =>
      intro x
      rw [List.map_cons, List.foldl_cons, hmin, ih, List.foldl_cons]
  cases L with
  | nil => rfl
  | cons x L =>
    rw [List.map_cons, List.foldl_cons, hf, h, minimum, List.min?_cons']
    rfl

lemma least_finite (x y : ℚ) : least (finite x) (finite y) = finite (min x y) := by
  have hx : (Scalar.le (finite x) (finite x)) = true := decide_eq_true (le_refl x)
  have hy : Scalar.lt (finite y) (finite x) = decide (y < x) := rfl
  simp only [least, hx, hy, if_true, decide_eq_true_eq]
  rcases lt_or_ge y x with h | h
  · rw [if_pos h, min_eq_right h.le]
  · rw [if_neg (not_lt.mpr h), min_eq_left h]

lemma greatest_finite (x y : ℚ) : greatest (finite x) (finite y) = finite (max x y) := by
  have hx : (Scalar.le (finite x) (finite x)) = true := decide_eq_true (le_refl x)
  have hy : Scalar.lt (finite x) (finite y) = decide (x < y) := rfl
  simp only [greatest, hx, hy, if_true, decide_eq_true_eq]
  rcases lt_or_ge x y with h | h
  · rw [if_pos h, max_eq_right h.le]
  · rw [if_neg (not_lt.mpr h), max_eq_left h]

lemma foldl_least (L : List ℚ) :
    (L.map finite).foldl least ExtendedScalar.infinity = minimum L :=
  foldl_eq_minimum least (fun _ => rfl) least_finite L

lemma foldl_add (f : Extended → Extended) (w : ℚ → ℚ) (hf : ∀ x, f (finite x) = finite (w x))
    (L : List ℚ) (a : ℚ) :
    (L.map finite).foldl (fun s x => s + f x) (finite a) = finite (a + (L.map w).sum) := by
  induction L generalizing a with
  | nil => simp
  | cons x L ih =>
    have hx : finite a + finite (w x) = finite (a + w x) := rfl
    rw [List.map_cons, List.foldl_cons, hf, hx, ih, List.map_cons, List.sum_cons, add_assoc]

def IsGap (a : Extended) : Prop := a = infinity ∨ ∃ q, a = finite q

lemma minimum_isGap (L : List ℚ) : (minimum L).IsGap := by
  unfold minimum
  cases L.min? with
  | none => exact .inl rfl
  | some m => exact .inr ⟨m, rfl⟩

def height : Extended → WithTop ℚ
  | finite q => q
  | _ => ⊤

variable {a b : Extended}

lemma IsGap.lt_iff (ha : a.IsGap) (hb : b.IsGap) : Scalar.lt a b = true ↔ a.height < b.height := by
  rcases ha with rfl | ⟨p, rfl⟩ <;> rcases hb with rfl | ⟨q, rfl⟩
  · simp [Scalar.lt, Extended.lt]
  · simp [Scalar.lt, Extended.lt, height]
  · simp [Scalar.lt, Extended.lt, height]
  · simp [Scalar.lt, Extended.lt, height]

lemma IsGap.le_iff (ha : a.IsGap) (hb : b.IsGap) : Scalar.le a b = true ↔ a.height ≤ b.height := by
  rcases ha with rfl | ⟨p, rfl⟩ <;> rcases hb with rfl | ⟨q, rfl⟩
  · simp [Scalar.le, Extended.le]
  · simp [Scalar.le, Extended.le, height]
  · simp [Scalar.le, Extended.le, height]
  · simp [Scalar.le, Extended.le, height]

lemma IsGap.height_inj (ha : a.IsGap) (hb : b.IsGap) : a.height = b.height ↔ a = b := by
  rcases ha with rfl | ⟨p, rfl⟩ <;> rcases hb with rfl | ⟨q, rfl⟩ <;> simp [height]

/-- The undefined value ranks last: where there is another, that is the least. -/
def rank : Extended → ℕ ×ₗ ℚ
  | negInfinity => toLex (0, 0)
  | finite q => toLex (1, q)
  | infinity => toLex (2, 0)
  | undefined => toLex (3, 0)

lemma rank_injective : Function.Injective rank := by
  intro a b h
  cases a <;> cases b <;> simp_all [rank]

lemma least_eq (a b : Extended) : least a b = if b.rank < a.rank then b else a := by
  cases a <;> cases b <;>
    simp [least, Scalar.le, Extended.le, Scalar.lt, Extended.lt, rank, Prod.Lex.toLex_lt_toLex]

lemma rank_least (a b : Extended) : (least a b).rank = min a.rank b.rank := by
  rw [least_eq, apply_ite rank, min_comm, min_def_lt]

instance : RightCommutative (least : Extended → Extended → Extended) where
  right_comm x a b := rank_injective (by simp only [rank_least, min_right_comm])

end QuadraticPenalty.Extended
