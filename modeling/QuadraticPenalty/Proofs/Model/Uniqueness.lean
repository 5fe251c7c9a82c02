import QuadraticPenalty.Proofs.Model.Completion

/-! A model over bits is determined by its energies, once its labels and its coupled pairs are
given; so the change of domain is, and it commutes with sums. -/

namespace QuadraticPenalty

open Scalar Ordered

namespace Assignment

variable {a : Assignment} {vs : List String}

def inSpins (a : Assignment) : Assignment := fun v => (a v).map Vartype.binary.toSpin

lemma Covers.inSpins (h : a.Covers .binary vs) : a.inSpins.Covers .spin vs := by
  intro v hv
  obtain ⟨y, -, hy⟩ := h v hv
  exact ⟨_, Vartype.toSpin_mem .binary y, congrArg (Option.map _) hy⟩

lemma exists_reading {x : String → ℚ} (h : ∀ v, x v = 0 ∨ x v = 1) :
    ∃ a : Assignment, (∀ vs, a.Covers .binary vs) ∧ a.reading = x := by
  refine ⟨fun v => some (if x v = 1 then 1 else 0), fun vs v _ => ⟨_, ?_, rfl⟩, funext fun v => ?_⟩
  · by_cases hx : x v = 1 <;> simp [hx, Vartype.low, Vartype.high]
  · rcases h v with hx | hx <;> simp [Assignment.reading, hx]

end Assignment

namespace QuadraticModel

variable {m k n : QuadraticModel ℚ} {u v : String}

def bias (m : QuadraticModel ℚ) (v : String) : ℚ := (m.linear.find? v).getD 0

def coupling (m : QuadraticModel ℚ) (e : String × String) : ℚ := (m.couplings.find? e).getD 0

lemma value_zero (m : QuadraticModel ℚ) : m.value 0 = m.offset := by
  have hl : m.linear.total 0 = 0 := SortedMap.total_eq_zero fun _ _ => rfl
  have hc : (m.couplings.total fun _ => (0 : ℚ) * 0) = 0 :=
    SortedMap.total_eq_zero fun _ _ => mul_zero 0
  simp only [value, Pi.zero_apply, hl, hc, add_zero]

lemma value_single (hm : m.WellFormed) (v : String) :
    m.value (Pi.single v 1) = m.offset + m.bias v := by
  have hc : (m.couplings.total fun e => (Pi.single v 1 : String → ℚ) e.1 *
      (Pi.single v 1 : String → ℚ) e.2) = 0 := by
    refine SortedMap.total_eq_zero fun e he => ?_
    have hne : e.1 ≠ e.2 := ne_of_before (hm.ordered e he)
    by_cases h : e.1 = v
    · have h₂ : e.2 ≠ v := fun he => hne (h.trans he.symm)
      rw [Pi.single_eq_of_ne h₂, mul_zero]
    · rw [Pi.single_eq_of_ne h, zero_mul]
  rw [value, SortedMap.total_single, hc, add_zero, bias]

lemma value_pair (hm : m.WellFormed) (h : before u v = true) :
    m.value (Pi.single u 1 + Pi.single v 1) =
      m.offset + (m.bias u + m.bias v) + m.coupling (u, v) := by
  have huv : u ≠ v := ne_of_before h
  let x : String → ℚ := Pi.single u 1 + Pi.single v 1
  have hx : ∀ w, x w = if w = u ∨ w = v then 1 else 0 := by
    intro w
    by_cases hu : w = u
    · simp [x, hu, huv]
    · by_cases hv : w = v <;> simp [x, hu, hv, huv.symm]
  -- keys are ordered pairs, so no other pair has both its labels among the two
  have hc : m.couplings.total (fun e => x e.1 * x e.2) = m.coupling (u, v) := by
    rw [coupling, ← SortedMap.total_single]
    refine SortedMap.total_congr fun e he => ?_
    have ho := hm.ordered e he
    rw [hx, hx, Pi.single_apply]
    by_cases h₁ : e.1 = u ∨ e.1 = v <;> by_cases h₂ : e.2 = u ∨ e.2 = v
    · have he : e = (u, v) := by
        rcases h₁ with h₁ | h₁ <;> rcases h₂ with h₂ | h₂ <;> rw [h₁, h₂] at ho
        · exact absurd rfl (ne_of_before ho)
        · exact Prod.ext h₁ h₂
        · rw [before_asymm h] at ho
          cases ho
        · exact absurd rfl (ne_of_before ho)
      rw [if_pos h₁, if_pos h₂, if_pos he, mul_one]
    · have he : e ≠ (u, v) := fun he => h₂ (.inr (congrArg Prod.snd he))
      rw [if_neg h₂, if_neg he, mul_zero]
    · have he : e ≠ (u, v) := fun he => h₁ (.inl (congrArg Prod.fst he))
      rw [if_neg h₁, if_neg he, zero_mul]
    · have he : e ≠ (u, v) := fun he => h₁ (.inl (congrArg Prod.fst he))
      rw [if_neg h₁, if_neg he, zero_mul]
  change m.offset + m.linear.total (Pi.single u 1 + Pi.single v 1) +
    m.couplings.total (fun e => x e.1 * x e.2) = _
  rw [hc, SortedMap.total_add, SortedMap.total_single, SortedMap.total_single, bias, bias]

lemma eq_of_value (hm : m.WellFormed) (hk : k.WellFormed) (ht : m.vartype = k.vartype)
    (hl : ∀ v, v ∈ m.labels ↔ v ∈ k.labels)
    (hc : ∀ d, d ∈ m.couplings.keys ↔ d ∈ k.couplings.keys)
    (h : ∀ x : String → ℚ, (∀ v, x v = 0 ∨ x v = 1) → m.value x = k.value x) : m = k := by
  have hsingle : ∀ u v, (Pi.single u 1 : String → ℚ) v = 0 ∨ (Pi.single u 1 : String → ℚ) v = 1 := by
    intro u v
    by_cases huv : v = u <;> simp [huv]
  have ho : m.offset = k.offset := by
    rw [← value_zero, ← value_zero]
    exact h 0 fun _ => .inl rfl
  have hb : ∀ v, m.bias v = k.bias v := by
    intro v
    have hv := h _ (hsingle v)
    rw [value_single hm, value_single hk, ho] at hv
    exact add_left_cancel hv
  have hj : ∀ d ∈ m.couplings.keys, m.coupling d = k.coupling d := by
    rintro ⟨u, v⟩ hd
    have hbefore := hm.ordered _ hd
    have hv := h (Pi.single u 1 + Pi.single v 1) fun w => by
      by_cases hu : w = u
      · simp [hu, ne_of_before hbefore]
      · by_cases hw : w = v <;> simp [hu, hw, (ne_of_before hbefore).symm]
    rw [value_pair hm hbefore, value_pair hk hbefore, ho, hb, hb] at hv
    exact add_left_cancel hv
  exact QuadraticModel.ext ht (SortedMap.ext_getD hl fun v _ => hb v) (SortedMap.ext_getD hc hj) ho

lemma value_inSpins (hm : m.WellFormed) (hs : m.vartype = .spin) {a : Assignment}
    (ha : a.Covers .binary m.labels) :
    (m.toVartype .binary).value a.reading = m.value a.inSpins.reading := by
  rw [value_toVartype hm hs ha]
  refine value_congr hm fun v hv => ?_
  obtain ⟨y, -, hy⟩ := ha v hv
  simp [Assignment.reading, Assignment.inSpins, hy]

lemma eq_toVartype (hm : m.WellFormed) (hs : m.vartype = .spin) (hk : k.WellFormed)
    (ht : k.vartype = .binary) (hl : ∀ v, v ∈ k.labels ↔ v ∈ m.labels)
    (hc : ∀ d, d ∈ k.couplings.keys ↔ d ∈ m.couplings.keys)
    (h : ∀ a : Assignment, a.Covers .binary m.labels →
      k.value a.reading = m.value a.inSpins.reading) : k = m.toVartype .binary := by
  obtain ⟨htt, htl, htc⟩ := toVartype_frame hm .binary
  refine eq_of_value hk (hm.toVartype .binary) (ht.trans htt.symm) (fun v => (hl v).trans (htl v).symm)
    (fun d => (hc d).trans (htc d).symm) fun x hx => ?_
  obtain ⟨a, ha, rfl⟩ := Assignment.exists_reading hx
  rw [h a (ha _), value_inSpins hm hs (ha _)]

lemma merge_toVartype (hm : m.WellFormed) (hk : k.WellFormed) (hs : m.vartype = .spin)
    (h : m.merge k = .ok n) :
    (m.toVartype .binary).merge (k.toVartype .binary) = .ok (n.toVartype .binary) := by
  obtain ⟨hkt, hnt, hnl, hnc⟩ := merge_frame h
  obtain ⟨hmt, hml, hmc⟩ := toVartype_frame hm .binary
  obtain ⟨hkt', hkl, hkc⟩ := toVartype_frame hk .binary
  obtain ⟨b, hb⟩ := merge_isOk (hkt'.trans hmt.symm)
  obtain ⟨-, hbt, hbl, hbc⟩ := merge_frame hb
  rw [hb]
  refine congrArg Except.ok (eq_toVartype (hm.merge hk h) (hnt.trans hs)
    ((hm.toVartype .binary).merge (hk.toVartype .binary) hb) (hbt.trans hmt) (fun v => ?_) (fun d => ?_)
    fun a ha => ?_)
  · rw [hbl, hnl, hml, hkl]
  · rw [hbc, hnc, hmc, hkc]
  · rw [value_merge hb, value_merge h, value_inSpins hm hs fun v hv => ha v ((hnl v).mpr (.inl hv)),
      value_inSpins hk (hkt.trans hs) fun v hv => ha v ((hnl v).mpr (.inr hv))]

end QuadraticModel

end QuadraticPenalty
