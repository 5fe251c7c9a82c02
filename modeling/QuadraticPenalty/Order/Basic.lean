/-!
A strict total order that is computed, and the lexicographic order on lists, pairs and labels.
Labels are compared by code point, so a label stands before each of its proper extensions.
-/

namespace QuadraticPenalty

class Ordered (κ : Type) where
  before : κ → κ → Bool
  before_irrefl (a : κ) : before a a = false
  before_trans {a b c : κ} : before a b = true → before b c = true → before a c = true
  before_connected {a b : κ} : before a b = false → before b a = false → a = b

namespace Ordered

theorem before_asymm {κ : Type} [Ordered κ] {a b : κ} (h : before a b = true) : before b a = false := by
  cases hb : before b a with
  | false => rfl
  | true => exact absurd (before_trans h hb) (by simp [before_irrefl])

theorem ne_of_before {κ : Type} [Ordered κ] {a b : κ} (h : before a b = true) : a ≠ b := by
  rintro rfl
  simp [before_irrefl] at h

instance : Ordered Nat where
  before a b := decide (a < b)
  before_irrefl a := by simp
  before_trans h k := by simp only [decide_eq_true_eq] at *; omega
  before_connected h k := by simp only [decide_eq_false_iff_not] at *; omega

instance : Ordered Int where
  before a b := decide (a < b)
  before_irrefl a := by simp
  before_trans h k := by simp only [decide_eq_true_eq] at *; omega
  before_connected h k := by simp only [decide_eq_false_iff_not] at *; omega

@[reducible]
def ofKey {ι κ : Type} [Ordered κ] (key : ι → κ) (injective : ∀ a b, key a = key b → a = b) :
    Ordered ι where
  before a b := before (key a) (key b)
  before_irrefl a := before_irrefl (key a)
  before_trans := before_trans
  before_connected h k := injective _ _ (before_connected h k)

instance : Ordered Char := ofKey Char.toNat fun _ _ h => Char.toNat_inj.1 h

variable {κ : Type} [Ordered κ]

def beforeList : List κ → List κ → Bool
  | _, [] => false
  | [], _ :: _ => true
  | a :: as, b :: bs => before a b || (!before b a && beforeList as bs)

theorem beforeList_irrefl (as : List κ) : beforeList as as = false := by
  induction as with
  | nil => rfl
  | cons a as ih => simp [beforeList, before_irrefl, ih]

theorem beforeList_cons_iff {a b : κ} {as bs : List κ} :
    beforeList (a :: as) (b :: bs) = true ↔
      before a b = true ∨ a = b ∧ beforeList as bs = true := by
  simp only [beforeList, Bool.or_eq_true, Bool.and_eq_true, Bool.not_eq_true']
  constructor
  · rintro (h | ⟨h, k⟩)
    · exact .inl h
    · cases hab : before a b with
      | true => exact .inl rfl
      | false => exact .inr ⟨before_connected hab h, k⟩
  · rintro (h | ⟨rfl, k⟩)
    · exact .inl h
    · exact .inr ⟨before_irrefl _, k⟩

theorem beforeList_trans {as bs cs : List κ} (h : beforeList as bs = true)
    (k : beforeList bs cs = true) : beforeList as cs = true := by
  induction as generalizing bs cs with
  | nil =>
    match bs, cs with
    | [], _ => simp [beforeList] at h
    | _ :: _, [] => simp [beforeList] at k
    | _ :: _, _ :: _ => rfl
  | cons a as ih =>
    match bs, cs with
    | [], _ => simp [beforeList] at h
    | _ :: _, [] => simp [beforeList] at k
    | b :: bs, c :: cs =>
      rw [beforeList_cons_iff] at *
      rcases h with h | ⟨rfl, h⟩ <;> rcases k with k | ⟨rfl, k⟩
      · exact .inl (before_trans h k)
      · exact .inl h
      · exact .inl k
      · exact .inr ⟨rfl, ih h k⟩

theorem beforeList_connected {as bs : List κ} (h : beforeList as bs = false)
    (k : beforeList bs as = false) : as = bs := by
  induction as generalizing bs with
  | nil =>
    match bs with
    | [] => rfl
    | _ :: _ => simp [beforeList] at h
  | cons a as ih =>
    match bs with
    | [] => simp [beforeList] at k
    | b :: bs =>
      simp only [beforeList, Bool.or_eq_false_iff, Bool.and_eq_false_imp, Bool.not_eq_true'] at h k
      obtain rfl : a = b := before_connected h.1 k.1
      rw [ih (h.2 (before_irrefl _)) (k.2 (before_irrefl _))]

instance : Ordered (List κ) where
  before := beforeList
  before_irrefl := beforeList_irrefl
  before_trans := beforeList_trans
  before_connected := beforeList_connected

instance : Ordered String := ofKey String.toList fun _ _ h => String.toList_inj.1 h

def beforePair {ι : Type} [Ordered ι] (a b : ι × κ) : Bool :=
  before a.1 b.1 || (!before b.1 a.1 && before a.2 b.2)

theorem beforePair_iff {ι : Type} [Ordered ι] {a b : ι × κ} :
    beforePair a b = true ↔ before a.1 b.1 = true ∨ a.1 = b.1 ∧ before a.2 b.2 = true := by
  simp only [beforePair, Bool.or_eq_true, Bool.and_eq_true, Bool.not_eq_true']
  constructor
  · rintro (h | ⟨h, k⟩)
    · exact .inl h
    · cases hab : before a.1 b.1 with
      | true => exact .inl rfl
      | false => exact .inr ⟨before_connected hab h, k⟩
  · rintro (h | ⟨h, k⟩)
    · exact .inl h
    · exact .inr ⟨h ▸ before_irrefl _, k⟩

instance {ι : Type} [Ordered ι] : Ordered (ι × κ) where
  before := beforePair
  before_irrefl a := by simp [beforePair, before_irrefl]
  before_trans h k := by
    rw [beforePair_iff] at *
    rcases h with h | ⟨e, h⟩ <;> rcases k with k | ⟨f, k⟩
    · exact .inl (before_trans h k)
    · exact .inl (f ▸ h)
    · exact .inl (e ▸ k)
    · exact .inr ⟨e.trans f, before_trans h k⟩
  before_connected {a b} h k := by
    simp only [beforePair, Bool.or_eq_false_iff, Bool.and_eq_false_imp, Bool.not_eq_true'] at h k
    have e : a.1 = b.1 := before_connected h.1 k.1
    have f : a.2 = b.2 := before_connected (h.2 (e ▸ before_irrefl _)) (k.2 (e ▸ before_irrefl _))
    exact Prod.ext e f

end Ordered

end QuadraticPenalty
