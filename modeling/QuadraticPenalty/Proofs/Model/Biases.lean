import QuadraticPenalty.Penalty.Indicator
import QuadraticPenalty.Proofs.Constraint.WellFormed
import QuadraticPenalty.Proofs.Model.Exact

namespace QuadraticPenalty

open Scalar Extended

structure SumClosed {α : Type} [Scalar α] (P : α → Prop) : Prop where
  zero : P zero
  add : ∀ a b, P a → P b → P (a + b)

lemma SortedMap.forall_update {κ β : Type} [Ordered κ] {P : β → Prop} {m : SortedMap κ β} {k : κ}
    {f : Option β → β} (h : ∀ e ∈ m.entries, P e.2) (hf : ∀ old, (∀ x ∈ old, P x) → P (f old)) :
    ∀ e ∈ (m.update k f).entries, P e.2 := by
  rintro ⟨l, x⟩ he
  have hfind := SortedMap.find?_eq_some_iff.mpr he
  by_cases hl : l = k
  · subst hl
    rw [SortedMap.find?_update_self, Option.some.injEq] at hfind
    rw [← hfind]
    exact hf _ fun y hy => h _ (SortedMap.find?_eq_some_iff.mp hy)
  · rw [SortedMap.find?_update_ne _ _ hl] at hfind
    exact h _ (SortedMap.find?_eq_some_iff.mp hfind)

namespace QuadraticModel

section Closed

variable {α : Type} [Scalar α] {P : α → Prop} {m k n : QuadraticModel α} {u v : String} {a : α}

structure BiasesIn (P : α → Prop) (m : QuadraticModel α) : Prop where
  offset : P m.offset
  linear : ∀ e ∈ m.linear.entries, P e.2
  couplings : ∀ e ∈ m.couplings.entries, P e.2

lemma forall_add {κ : Type} [Ordered κ] (hP : SumClosed P) {q : SortedMap κ α} {i : κ}
    (h : ∀ e ∈ q.entries, P e.2) (ha : P a) :
    ∀ e ∈ (q.update i fun old => old.getD zero + a).entries, P e.2 := by
  apply SortedMap.forall_update h
  intro old hold
  apply hP.add _ _ _ ha
  cases old with
  | none => exact hP.zero
  | some x => exact hold x rfl

lemma biasesIn_empty (hP : SumClosed P) (t : Vartype) : (empty t : QuadraticModel α).BiasesIn P := by
  refine ⟨hP.zero, ?_, ?_⟩ <;> simp [empty, SortedMap.empty]

lemma BiasesIn.addOffset (hP : SumClosed P) (h : m.BiasesIn P) (ha : P a) :
    (m.addOffset a).BiasesIn P :=
  ⟨hP.add _ _ h.offset ha, h.linear, h.couplings⟩

lemma BiasesIn.addBias (hP : SumClosed P) (h : m.BiasesIn P) (ha : P a) :
    (m.addBias v a).BiasesIn P :=
  ⟨h.offset, forall_add hP h.linear ha, h.couplings⟩

lemma BiasesIn.addCoupling (hP : SumClosed P) (h : m.BiasesIn P) (ha : P a) :
    (m.addCoupling u v a).BiasesIn P := by
  by_cases huv : u = v
  · simp only [QuadraticModel.addCoupling, if_pos huv]
    split
    · exact h.addOffset hP ha
    · exact h.addBias hP ha
  · simp only [QuadraticModel.addCoupling, if_neg huv]
    obtain ⟨ho, hl, hc⟩ := (h.addBias (v := u) hP hP.zero).addBias (v := v) hP hP.zero
    exact ⟨ho, hl, forall_add hP hc ha⟩

lemma forall_plus {κ : Type} [Ordered κ] (hP : SumClosed P) {q l : SortedMap κ α}
    (hq : ∀ e ∈ q.entries, P e.2) (hl : ∀ e ∈ l.entries, P e.2) : ∀ e ∈ (q.plus l).entries, P e.2 :=
  List.foldlRecOn (motive := fun q : SortedMap κ α => ∀ e ∈ q.entries, P e.2) l.entries _ hq
    fun _ hq e he => forall_add hP hq (hl e he)

lemma BiasesIn.merge (hP : SumClosed P) (hm : m.BiasesIn P) (hk : k.BiasesIn P)
    (h : m.merge k = .ok n) : n.BiasesIn P := by
  obtain ⟨-, rfl⟩ := merge_eq_ok_iff.mp h
  exact ⟨hP.add _ _ hm.offset hk.offset, forall_plus hP hm.linear hk.linear,
    forall_plus hP hm.couplings hk.couplings⟩

end Closed

end QuadraticModel

def IsHalf (a : Extended) : Prop := ∃ n : ℤ, a = finite (n / 2)

lemma isHalf_ofInt (n : ℤ) : IsHalf (ofInt n) := by
  refine ⟨2 * n, congrArg finite ?_⟩
  push_cast
  ring

lemma sumClosed_isHalf : SumClosed IsHalf := by
  refine ⟨isHalf_ofInt 0, ?_⟩
  rintro _ _ ⟨m, rfl⟩ ⟨n, rfl⟩
  refine ⟨m + n, congrArg finite ?_⟩
  push_cast
  ring

lemma IsHalf.two_mul {a : Extended} (ha : IsHalf a) : IsHalf (two * a) := by
  obtain ⟨m, rfl⟩ := ha
  refine ⟨2 * m, congrArg finite ?_⟩
  push_cast
  ring

lemma IsHalf.two_mul_mul {a b : Extended} (ha : IsHalf a) (hb : IsHalf b) : IsHalf (two * a * b) := by
  obtain ⟨m, rfl⟩ := ha
  obtain ⟨n, rfl⟩ := hb
  refine ⟨m * n, congrArg finite ?_⟩
  push_cast
  ring

end QuadraticPenalty
