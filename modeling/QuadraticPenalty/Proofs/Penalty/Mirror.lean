import QuadraticPenalty.Proofs.Constraint.Bits
import QuadraticPenalty.Proofs.Model.Uniqueness
import QuadraticPenalty.Proofs.Penalty.ClosedForm

namespace QuadraticPenalty

open Scalar

namespace QuadraticModel

def Mirrors (m m' : QuadraticModel Extended) : Prop :=
  ∃ k : QuadraticModel ℚ, k.WellFormed ∧ k.vartype = .spin ∧ m = k.exact ∧
    m' = (k.toVartype .binary).exact

variable {m m' part part' : QuadraticModel Extended} {k : QuadraticModel ℚ} {u v : String}

lemma Mirrors.eq_toVartype (h : Mirrors m m') : m' = m.toVartype .binary := by
  obtain ⟨k, -, -, rfl, rfl⟩ := h
  exact exact_toVartype

lemma Mirrors.frame (h : Mirrors m m') : (∀ v, v ∈ (m.toVartype .binary).labels ↔ v ∈ m.labels) ∧
    ∀ d, d ∈ (m.toVartype .binary).couplings.keys ↔ d ∈ m.couplings.keys := by
  obtain ⟨k, hk, -, rfl, -⟩ := h
  exact (toVartype_frame (exact_wellFormed.mpr hk) .binary).2

lemma Mirrors.merge (hm : Mirrors m m') (hpart : Mirrors part part') :
    ∃ n n', m.merge part = .ok n ∧ m'.merge part' = .ok n' ∧ Mirrors n n' := by
  obtain ⟨k, hk, hks, rfl, rfl⟩ := hm
  obtain ⟨p, hp, hps, rfl, rfl⟩ := hpart
  obtain ⟨n, hn⟩ := merge_isOk (hps.trans hks.symm)
  obtain ⟨-, hnt, -⟩ := merge_frame hn
  have hbits := merge_toVartype hk hp hks hn
  exact ⟨n.exact, (n.toVartype .binary).exact, exact_merge hn, exact_merge hbits,
    n, hk.merge hp hn, hnt.trans hks, rfl, rfl⟩

end QuadraticModel

namespace Constraint

open QuadraticModel

variable {c : Constraint} {t : Vartype} {scope group : List String} {m : QuadraticModel ℚ}
  {tuple : List ℤ} {d : String × String}

def Pairs (scope : List String) (d : String × String) : Prop :=
  ∃ u v, scope = [u, v] ∧ d = pair u v

lemma mem_keys_addIndicator (hn : scope.Nodup) (hlen : tuple.length = scope.length) :
    d ∈ (addIndicator t scope m tuple).couplings.keys ↔ Pairs scope d ∨ d ∈ m.couplings.keys := by
  unfold addIndicator
  split
  · refine (or_iff_right ?_).symm
    rintro ⟨u, v, h, -⟩
    cases h
  · next u v x y =>
    have huv : u ≠ v := by simpa using hn
    refine (mem_keys_addCoupling_pair huv d).trans (or_congr_left ?_)
    constructor
    · exact fun h => ⟨u, v, rfl, h⟩
    · rintro ⟨_, _, h, rfl⟩
      cases h
      rfl
  · next hnot =>
    refine (or_iff_right ?_).symm
    rintro ⟨u, v, rfl, -⟩
    obtain ⟨x, y, rfl⟩ := List.length_eq_two.mp hlen
    exact hnot u v x y rfl rfl

lemma mem_keys_addIndicators (hn : scope.Nodup) (ys : List (List ℤ))
    (hys : ∀ y ∈ ys, y.length = scope.length) (m : QuadraticModel ℚ) :
    d ∈ (ys.foldl (addIndicator t scope) m).couplings.keys ↔
      ys ≠ [] ∧ Pairs scope d ∨ d ∈ m.couplings.keys := by
  induction ys generalizing m with
  | nil => simp
  | cons y ys ih =>
    rw [List.foldl_cons, ih (fun z hz => hys z (by simp [hz])),
      mem_keys_addIndicator hn (hys y (by simp))]
    simp only [ne_eq, reduceCtorEq, not_false_eq_true, true_and]
    tauto

lemma couplings_blankModel (c : Constraint) :
    (c.blankModel : QuadraticModel ℚ).couplings.keys = [] :=
  List.foldlRecOn (motive := fun m : QuadraticModel ℚ => m.couplings.keys = []) c.scope _ rfl
    fun _ hm _ _ => hm

lemma mem_keys_exclusionModel (hc : c.WellFormed) :
    d ∈ (c.exclusionModel : QuadraticModel ℚ).couplings.keys ↔
      c.forbidden ≠ [] ∧ Pairs c.scope d := by
  have hlen : ∀ y ∈ c.forbidden, y.length = c.scope.length := fun y hy =>
    (Vartype.mem_tuples.mp (List.mem_of_mem_filter hy)).1
  rw [exclusionModel, mem_keys_addIndicators hc.1 _ hlen, couplings_blankModel]
  exact or_iff_left List.not_mem_nil

section Spins

variable (hc : c.WellFormed) (hs : c.vartype = .spin)

include hc hs

omit hc in
lemma mirrors_blankModel : Mirrors c.blankModel c.inBits.blankModel := by
  obtain ⟨hw, ht, hl⟩ := frames_blankModel (α := ℚ) c
  obtain ⟨hw', ht', hl'⟩ := frames_blankModel (α := ℚ) c.inBits
  refine ⟨c.blankModel, hw, ht.trans hs, (exact_blankModel c).symm, ?_⟩
  rw [← exact_blankModel c.inBits]
  refine congrArg exact (QuadraticModel.eq_toVartype hw (ht.trans hs) hw' ht'
    (fun v => (hl' v).trans (hl v).symm) (fun d => ?_) fun a _ => ?_)
  · rw [couplings_blankModel, couplings_blankModel]
  · rw [value_blankModel, value_blankModel]

omit hc hs in
lemma tupleIn_inBits {a : Assignment} (ha : a.Covers .binary c.scope) :
    c.inBits.tupleIn a = Vartype.bits (c.tupleIn a.inSpins) := by
  rw [tupleIn, tupleIn, Vartype.bits, List.map_map]
  refine List.map_congr_left fun v hv => ?_
  obtain ⟨y, hy, hav⟩ := ha v hv
  simp [Assignment.inSpins, hav, Vartype.ofSpin_toSpin hy]

lemma mirrors_exclusionModel (hlen : c.scope.length = 1 ∨ c.scope.length = 2) :
    Mirrors c.exclusionModel c.inBits.exclusionModel := by
  have hc' := hc.inBits fun _ => hs
  obtain ⟨hw, ht, hl⟩ := frames_exclusionModel (α := ℚ) hc
  obtain ⟨hw', ht', hl'⟩ := frames_exclusionModel (α := ℚ) hc'
  refine ⟨c.exclusionModel, hw, ht.trans hs, (exact_exclusionModel c).symm, ?_⟩
  rw [← exact_exclusionModel c.inBits]
  refine congrArg exact (QuadraticModel.eq_toVartype hw (ht.trans hs) hw' ht'
    (fun v => (hl' v).trans (hl v).symm) (fun d => ?_) fun a ha => ?_)
  · rw [mem_keys_exclusionModel hc', mem_keys_exclusionModel hc, forbidden_inBits hc hs, ne_eq,
      List.map_eq_nil_iff]
    rfl
  · have hscope : a.Covers .binary c.scope := fun v hv => ha v ((hl v).mpr hv)
    have hspins : a.inSpins.Covers c.vartype c.scope := hs ▸ hscope.inSpins
    have htuple : Vartype.spin.IsTuple c.scope.length (c.tupleIn a.inSpins) :=
      hs ▸ tupleIn_isTuple hspins
    rw [value_exclusionModel hc' hlen hscope, value_exclusionModel hc hlen hspins,
      tupleIn_inBits hscope, accepts_bits hc hs htuple]

lemma mirrors_addFactor {m m' : QuadraticModel Extended} (hm : Mirrors m m')
    (hg : ∀ v ∈ group, v ∈ c.scope) (hn : group.Nodup) (hlen : group.length = 1 ∨ group.length = 2) :
    ∃ n n', c.addFactor m group = .ok n ∧ c.inBits.addFactor m' group = .ok n' ∧ Mirrors n n' := by
  have hpart := mirrors_exclusionModel (hc.onto hn hg) hs hlen
  rw [onto_inBits] at hpart
  obtain ⟨n, n', hmerge, hmerge', hn'⟩ := hm.merge hpart
  refine ⟨n, n', ?_, ?_, hn'⟩
  · rw [addFactor, project_eq_ok hc hn hg]
    exact hmerge
  · rw [addFactor, project_eq_ok (hc.inBits fun _ => hs) hn hg]
    exact hmerge'

lemma mirrors_addFactors (groups : List (List String))
    (hg : ∀ g ∈ groups, (∀ v ∈ g, v ∈ c.scope) ∧ g.Nodup ∧ (g.length = 1 ∨ g.length = 2))
    {m m' : QuadraticModel Extended} (hm : Mirrors m m') :
    ∃ n n', groups.foldlM c.addFactor m = .ok n ∧ groups.foldlM c.inBits.addFactor m' = .ok n' ∧
      Mirrors n n' := by
  induction groups generalizing m m' with
  | nil => exact ⟨m, m', rfl, rfl, hm⟩
  | cons g groups ih =>
    obtain ⟨hscope, hn, hlen⟩ := hg g (by simp)
    obtain ⟨n, n', hadd, hadd', hn'⟩ := mirrors_addFactor hc hs hm hscope hn hlen
    obtain ⟨k, k', hrest, hrest', hk⟩ := ih (fun h hh => hg h (by simp [hh])) hn'
    refine ⟨k, k', ?_, ?_, hk⟩
    · rw [List.foldlM_cons, hadd]
      exact hrest
    · rw [List.foldlM_cons, hadd']
      exact hrest'

lemma mirrors_closedForm? (hlen : c.scope.length = 1 ∨ c.scope.length = 2) :
    ∃ m m', c.closedForm? = some (.ok m) ∧ c.inBits.closedForm? = some (.ok m') ∧ Mirrors m m' := by
  have hscope : c.inBits.scope = c.scope := rfl
  rcases hlen with hone | htwo
  · refine ⟨_, _, ?_, ?_, mirrors_exclusionModel hc hs (.inl hone)⟩
    · simp [closedForm?, arity, hone]
    · simp [closedForm?, arity, hscope, hone]
  · have hgroups : ∀ g ∈ c.factors, (∀ v ∈ g, v ∈ c.scope) ∧ g.Nodup ∧
        (g.length = 1 ∨ g.length = 2) := fun g hg =>
      ⟨fun v hv => mem_scope_of_mem_factors hg hv, nodup_of_mem_factors hc hg,
        factors_length (.inr htwo) hg⟩
    have hpair : c.closedForm? (α := Extended) = some c.pairModel := by
      simp [closedForm?, arity, htwo]
    have hpair' : c.inBits.closedForm? (α := Extended) = some c.inBits.pairModel := by
      simp [closedForm?, arity, hscope, htwo]
    have hempty : Mirrors (empty c.vartype) (empty .binary) := by
      rw [hs]
      exact ⟨empty .spin, wellFormed_empty _, rfl, rfl, rfl⟩
    obtain ⟨n, n', hadd, hadd', hn⟩ := mirrors_addFactors hc hs c.factors hgroups hempty
    rw [hpair, hpair', pairModel, pairModel, isFull_inBits hc hs, factors_inBits hc hs]
    by_cases hfull : c.isFull = true
    · rw [if_pos hfull, if_pos hfull]
      exact ⟨_, _, rfl, rfl, mirrors_blankModel hs⟩
    · rw [if_neg hfull, if_neg hfull]
      generalize c.factors = groups at hadd hadd'
      rcases groups with _ | ⟨g, _ | ⟨h, gs⟩⟩
      · exact ⟨n, n', congrArg some hadd, congrArg some hadd', hn⟩
      · exact ⟨_, _, rfl, rfl, mirrors_exclusionModel hc hs (.inr htwo)⟩
      · exact ⟨n, n', congrArg some hadd, congrArg some hadd', hn⟩

end Spins

end Constraint

end QuadraticPenalty
