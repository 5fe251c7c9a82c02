import QuadraticPenalty.Proofs.Model.Totality

namespace QuadraticPenalty

open Scalar

namespace SortedMap

variable {κ : Type} [Ordered κ] (m k l : SortedMap κ ℚ)

lemma getD_find?_plus (i : κ) :
    ((m.plus k).find? i).getD 0 = (m.find? i).getD 0 + (k.find? i).getD 0 := by
  classical
  rw [← total_single, total_plus, total_single, total_single]

lemma plus_comm : m.plus k = k.plus m := by
  refine ext_getD (fun i => ?_) fun i _ => ?_
  · rw [mem_keys_plus, mem_keys_plus, or_comm]
  · rw [getD_find?_plus, getD_find?_plus, add_comm]

lemma plus_assoc : (m.plus k).plus l = m.plus (k.plus l) := by
  refine ext_getD (fun i => ?_) fun i _ => ?_
  · simp only [mem_keys_plus, or_assoc]
  · simp only [getD_find?_plus, add_assoc]

end SortedMap

namespace QuadraticModel

section Merge

variable {α : Type} [Scalar α] {m k n l p : QuadraticModel α} {fault : Fault}

lemma merge_eq_error_iff : m.merge k = .error fault ↔
    k.vartype ≠ m.vartype ∧ fault = .vartypeMismatch m.vartype k.vartype := by
  rw [merge]
  split
  · next h => simp [h, eq_comm]
  · next h => simp [h]

lemma merge_merge_eq_ok_iff : (∃ p, m.merge k = .ok p ∧ p.merge l = .ok n) ↔
    k.vartype = m.vartype ∧ l.vartype = m.vartype ∧ n = (m.plus k).plus l := by
  simp only [merge_eq_ok_iff]
  constructor
  · rintro ⟨p, ⟨hk, rfl⟩, hl, rfl⟩
    exact ⟨hk, hl, rfl⟩
  · rintro ⟨hk, hl, rfl⟩
    exact ⟨m.plus k, ⟨hk, rfl⟩, hl, rfl⟩

lemma merge_of_merge_eq_ok_iff : (∃ q, k.merge l = .ok q ∧ m.merge q = .ok n) ↔
    k.vartype = m.vartype ∧ l.vartype = m.vartype ∧ n = m.plus (k.plus l) := by
  simp only [merge_eq_ok_iff]
  constructor
  · rintro ⟨q, ⟨hl, rfl⟩, hk, rfl⟩
    exact ⟨hk, hl.trans hk, rfl⟩
  · rintro ⟨hk, hl, rfl⟩
    exact ⟨k.plus l, ⟨hl.trans hk.symm, rfl⟩, hk, rfl⟩

lemma covers_merge_iff (h : m.merge k = .ok n) {a : Assignment} : a.Covers n.vartype n.labels ↔
    a.Covers m.vartype m.labels ∧ a.Covers k.vartype k.labels := by
  obtain ⟨hk, hn, hl, -⟩ := merge_frame h
  simp only [Assignment.Covers, hk, hn, hl]
  exact ⟨fun ha => ⟨fun v hv => ha v (.inl hv), fun v hv => ha v (.inr hv)⟩,
    fun ha v hv => hv.elim (ha.1 v) (ha.2 v)⟩

end Merge

variable {m k n l : QuadraticModel ℚ}

lemma plus_comm (h : k.vartype = m.vartype) : m.plus k = k.plus m :=
  QuadraticModel.ext h.symm (SortedMap.plus_comm ..) (SortedMap.plus_comm ..) (Rat.add_comm ..)

lemma plus_assoc (m k l : QuadraticModel ℚ) : (m.plus k).plus l = m.plus (k.plus l) :=
  QuadraticModel.ext rfl (SortedMap.plus_assoc ..) (SortedMap.plus_assoc ..) (Rat.add_assoc ..)

lemma energy_merge (hm : m.WellFormed) (hk : k.WellFormed) (h : m.merge k = .ok n) (a : Assignment) :
    ((∃ e, n.energy a = .ok e) ↔ (∃ e, m.energy a = .ok e) ∧ ∃ e, k.energy a = .ok e) ∧
      ∀ e f, m.energy a = .ok e → k.energy a = .ok f → n.energy a = .ok (e + f) := by
  have hn := hm.merge hk h
  have hiff := covers_merge_iff h (a := a)
  rw [hn.energy_isOk_iff, hm.energy_isOk_iff, hk.energy_isOk_iff]
  refine ⟨hiff, fun e f he hf => ?_⟩
  have ham := hm.energy_isOk_iff.mp ⟨e, he⟩
  have hak := hk.energy_isOk_iff.mp ⟨f, hf⟩
  rw [energy_eq hm ham, Except.ok.injEq] at he
  rw [energy_eq hk hak, Except.ok.injEq] at hf
  rw [energy_eq hn (hiff.mpr ⟨ham, hak⟩), value_merge h, he, hf]

/-- Models over one domain are merged into their sum, whatever the order and the grouping. The sum has
the variables and the couplings of both, and the energies of an assignment are added. -/
theorem merge_adds (m k l : QuadraticModel ℚ) (hm : m.Reachable) (hk : k.Reachable) :
    (∀ fault, m.merge k = .error fault ↔
      k.vartype ≠ m.vartype ∧ fault = .vartypeMismatch m.vartype k.vartype) ∧
    (∀ fault, m.merge k = .error fault → m.absorb k = (.error fault, m)) ∧
    (∀ n, m.merge k = .ok n → m.absorb k = (.ok (), n) ∧ n.Reachable ∧ n.vartype = m.vartype ∧
      (∀ v, v ∈ n.labels ↔ v ∈ m.labels ∨ v ∈ k.labels) ∧
      (∀ d, d ∈ n.couplings.keys ↔ d ∈ m.couplings.keys ∨ d ∈ k.couplings.keys) ∧
      ∀ a : Assignment,
        ((∃ e, n.energy a = .ok e) ↔ (∃ e, m.energy a = .ok e) ∧ ∃ e, k.energy a = .ok e) ∧
        ∀ e f, m.energy a = .ok e → k.energy a = .ok f → n.energy a = .ok (e + f)) ∧
    (∀ n, m.merge k = .ok n ↔ k.merge m = .ok n) ∧
    ∀ n, (∃ p, m.merge k = .ok p ∧ p.merge l = .ok n) ↔
      ∃ q, k.merge l = .ok q ∧ m.merge q = .ok n := by
  refine ⟨fun fault => merge_eq_error_iff, fun fault h => by rw [absorb_eq, h], fun n h => ?_,
    fun n => ?_, fun n => ?_⟩
  · obtain ⟨-, hn, hlabels, hcouplings⟩ := merge_frame h
    exact ⟨by rw [absorb_eq, h], hm.merge hk h, hn, hlabels, hcouplings,
      energy_merge hm.wellFormed hk.wellFormed h⟩
  · rw [merge_eq_ok_iff, merge_eq_ok_iff]
    constructor
    · rintro ⟨ht, rfl⟩
      exact ⟨ht.symm, plus_comm ht⟩
    · rintro ⟨ht, rfl⟩
      exact ⟨ht.symm, plus_comm ht⟩
  · rw [merge_merge_eq_ok_iff, merge_of_merge_eq_ok_iff, plus_assoc]

def raisedSpins : QuadraticModel ℚ := ((empty .spin).addCoupling "b" "c" 2).addOffset 1

lemma raisedSpins_reachable : raisedSpins.Reachable :=
  .addOffset 1 (.addCoupling "b" "c" 2 (.empty .spin))

theorem merge_adds_of_coupledSpins : ∃ n, coupledSpins.merge raisedSpins = .ok n ∧
    raisedSpins.merge coupledSpins = .ok n ∧ "c" ∈ n.labels ∧
    n.energy (.ofLists ["a", "b", "c"] [1, -1, 1]) = .ok (4 + -1) := by
  obtain ⟨-, -, hok, hcomm, -⟩ :=
    merge_adds coupledSpins raisedSpins raisedSpins coupledSpins_reachable raisedSpins_reachable
  obtain ⟨n, hn⟩ := merge_isOk (m := coupledSpins) (k := raisedSpins) rfl
  obtain ⟨-, -, -, hlabels, -, henergy⟩ := hok n hn
  have hleft : coupledSpins.energy (.ofLists ["a", "b", "c"] [1, -1, 1]) = .ok 4 := by decide +kernel
  have hright : raisedSpins.energy (.ofLists ["a", "b", "c"] [1, -1, 1]) = .ok (-1) := by
    decide +kernel
  exact ⟨n, hn, (hcomm n).mp hn, (hlabels "c").mpr (.inr (by decide +kernel)),
    (henergy _).2 4 (-1) hleft hright⟩

end QuadraticModel

end QuadraticPenalty
