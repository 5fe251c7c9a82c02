import QuadraticPenalty.Penalty.Indicator
import QuadraticPenalty.Proofs.Constraint.Factors

namespace QuadraticPenalty.Constraint

open Scalar QuadraticModel

variable {c : Constraint} {a : Assignment} {t : Vartype} {group scope : List String}
  {m : QuadraticModel ℚ} {tuple : List ℤ}

lemma indicator_value {y z : ℤ} (hy : y ∈ t.values) (hz : z ∈ t.values) :
    (indicator t y : ℚ × ℚ).1 + (indicator t y).2 * z = if z = y then 1 else 0 := by
  have hh : (half : ℚ) = 1 / 2 := rfl
  have hi : ∀ n : ℤ, (ofInt n : ℚ) = n := fun _ => rfl
  have h0 : (zero : ℚ) = 0 := rfl
  have h1 : (one : ℚ) = 1 := rfl
  cases t with
  | spin =>
    simp only [Vartype.mem_values, Vartype.low, Vartype.high] at hy hz
    rcases hy with rfl | rfl <;> rcases hz with rfl | rfl <;> norm_num [indicator, hh, hi]
  | binary =>
    simp only [Vartype.mem_values, Vartype.low, Vartype.high] at hy hz
    rcases hy with rfl | rfl <;> rcases hz with rfl | rfl <;> norm_num [indicator, h0, h1, hi]

lemma value_addIndicator (hn : scope.Nodup) (hs : scope.length = 1 ∨ scope.length = 2)
    (ht : t.IsTuple scope.length tuple) (ha : a.Covers t scope) :
    (addIndicator t scope m tuple).value a.reading =
      m.value a.reading + if tuple = scope.map (fun v => (a v).getD 0) then 2 else 0 := by
  have h2 : (two : ℚ) = 2 := rfl
  have hreading : ∀ v ∈ scope, (a v).getD 0 ∈ t.values ∧ a.reading v = ((a v).getD 0 : ℤ) :=
    fun v hv => ⟨ha.isTuple.2 _ (List.mem_map_of_mem hv), rfl⟩
  obtain ⟨hlen, hval⟩ := ht
  rcases hs with hs | hs
  · obtain ⟨v, rfl⟩ := List.length_eq_one_iff.mp hs
    obtain ⟨x, rfl⟩ := List.length_eq_one_iff.mp (hlen.trans hs)
    obtain ⟨hv, hr⟩ := hreading v (by simp)
    have hind := indicator_value (hval x (by simp)) hv
    simp only [addIndicator, value_addBias, value_addOffset, h2, hr, List.map_cons, List.map_nil,
      List.cons.injEq, and_true]
    rw [add_assoc, mul_assoc, ← mul_add, hind]
    by_cases he : x = (a v).getD 0
    · simp [he]
    · simp [he, Ne.symm he]
  · obtain ⟨u, v, rfl⟩ := List.length_eq_two.mp hs
    obtain ⟨x, y, rfl⟩ := List.length_eq_two.mp (hlen.trans hs)
    have huv : u ≠ v := by simpa using hn
    obtain ⟨hu, hru⟩ := hreading u (by simp)
    obtain ⟨hv, hrv⟩ := hreading v (by simp)
    have hindu := indicator_value (hval x (by simp)) hu
    have hindv := indicator_value (hval y (by simp)) hv
    simp only [addIndicator, value_addCoupling huv, value_addBias, value_addOffset, h2, hru, hrv,
      List.map_cons, List.map_nil, List.cons.injEq, and_true]
    calc _ = m.value a.reading + 2 * (((indicator t x).1 + (indicator t x).2 * ((a u).getD 0 : ℤ)) *
          ((indicator t y).1 + (indicator t y).2 * ((a v).getD 0 : ℤ))) := by ring
      _ = _ := by
        rw [hindu, hindv]
        by_cases hx : x = (a u).getD 0 <;> by_cases hy : y = (a v).getD 0
        · simp [hx, hy]
        · simp [hy, Ne.symm hy]
        · simp [hx, Ne.symm hx]
        · simp [hx, Ne.symm hx]

lemma value_addIndicators (hn : scope.Nodup) (hs : scope.length = 1 ∨ scope.length = 2)
    (ha : a.Covers t scope) (ys : List (List ℤ)) (hys : ∀ y ∈ ys, t.IsTuple scope.length y)
    (m : QuadraticModel ℚ) : (ys.foldl (addIndicator t scope) m).value a.reading =
      m.value a.reading + 2 * (ys.count (scope.map fun v => (a v).getD 0) : ℚ) := by
  induction ys generalizing m with
  | nil => simp
  | cons y ys ih =>
    rw [List.foldl_cons, ih (fun z hz => hys z (by simp [hz])),
      value_addIndicator hn hs (hys y (by simp)) ha, List.count_cons]
    by_cases hy : y = scope.map fun v => (a v).getD 0
    · simp only [hy, if_true, BEq.rfl]
      push_cast
      ring
    · simp [hy]

structure Frames {α : Type} (c : Constraint) (m : QuadraticModel α) : Prop where
  wellFormed : m.WellFormed
  vartype : m.vartype = c.vartype
  labels : ∀ v, v ∈ m.labels ↔ v ∈ c.scope

lemma Frames.covers {α : Type} {m : QuadraticModel α} (h : c.Frames m)
    (ha : a.Covers c.vartype c.scope) : a.Covers m.vartype m.labels := by
  rw [h.vartype]
  exact fun v hv => ha v ((h.labels v).mp hv)

section Frames

variable {α : Type} [Scalar α] {m : QuadraticModel α}

lemma frames_blankModel (c : Constraint) : c.Frames (c.blankModel : QuadraticModel α) := by
  have h : ∀ (vs : List String) (m : QuadraticModel α), m.WellFormed →
      (vs.foldl (fun m v => m.addBias v zero) m).WellFormed ∧
      (vs.foldl (fun m v => m.addBias v zero) m).vartype = m.vartype ∧
      ∀ w, w ∈ (vs.foldl (fun m v => m.addBias v zero) m).labels ↔ w ∈ vs ∨ w ∈ m.labels := by
    intro vs
    induction vs with
    | nil => simp
    | cons v vs ih =>
      intro m hm
      obtain ⟨hw, ht, hl⟩ := ih (m.addBias v zero) hm.addBias
      refine ⟨hw, ht, fun w => ?_⟩
      rw [List.foldl_cons, hl w, mem_labels_addBias, List.mem_cons]
      tauto
  obtain ⟨hw, ht, hl⟩ := h c.scope (empty c.vartype) (wellFormed_empty _)
  refine ⟨hw, ht, fun v => (hl v).trans (or_iff_left ?_)⟩
  simp [empty, labels]

lemma Frames.addIndicator (h : c.Frames m) (hn : c.scope.Nodup) :
    c.Frames (addIndicator c.vartype c.scope m tuple) := by
  unfold Constraint.addIndicator
  split
  · next v x hs =>
    have hv : v ∈ c.scope := by simp [hs]
    refine ⟨h.wellFormed.addOffset.addBias, h.vartype, fun w => ?_⟩
    rw [mem_labels_addBias, labels_addOffset, h.labels]
    exact or_iff_right_of_imp fun hw => hw ▸ hv
  · next u v x y hs =>
    have hu : u ∈ c.scope := by simp [hs]
    have hv : v ∈ c.scope := by simp [hs]
    have huv : u ≠ v := by
      rw [hs] at hn
      simpa using hn
    refine ⟨h.wellFormed.addOffset.addBias.addBias.addCoupling, by simpa using h.vartype, fun w => ?_⟩
    rw [mem_labels_addCoupling huv, mem_labels_addBias, mem_labels_addBias, labels_addOffset, h.labels]
    constructor
    · rintro (rfl | rfl | rfl | rfl | hw) <;> assumption
    · exact fun hw => .inr (.inr (.inr (.inr hw)))
  · exact h

lemma frames_exclusionModel (hc : c.WellFormed) :
    c.Frames (c.exclusionModel : QuadraticModel α) := by
  unfold exclusionModel
  refine List.foldlRecOn c.forbidden _ (frames_blankModel c) fun m hm y _ => hm.addIndicator hc.1

lemma addFactors_frame (hc : c.WellFormed) (groups : List (List String))
    (hg : ∀ g ∈ groups, (∀ v ∈ g, v ∈ c.scope) ∧ g.Nodup) (hm : m.WellFormed)
    (ht : m.vartype = c.vartype) :
    ∃ k, groups.foldlM c.addFactor m = .ok k ∧ k.WellFormed ∧ k.vartype = c.vartype ∧
      ∀ v, v ∈ k.labels ↔ v ∈ m.labels ∨ v ∈ groups.flatten := by
  induction groups generalizing m with
  | nil => exact ⟨m, rfl, hm, ht, by simp⟩
  | cons g groups ih =>
    obtain ⟨hscope, hn⟩ := hg g (by simp)
    obtain ⟨hw, hv, hl⟩ := frames_exclusionModel (α := α) (hc.onto hn hscope)
    obtain ⟨n, hmerge⟩ := merge_isOk (hv.trans ht.symm)
    obtain ⟨-, hnt, hnl, -⟩ := merge_frame hmerge
    obtain ⟨k, hk, hkw, hkt, hkl⟩ := ih (fun h hh => hg h (by simp [hh])) (hm.merge hw hmerge)
      (hnt.trans ht)
    refine ⟨k, ?_, hkw, hkt, fun v => ?_⟩
    · rw [List.foldlM_cons, Constraint.addFactor, project_eq_ok hc hn hscope]
      change (m.merge _ >>= fun m => groups.foldlM c.addFactor m) = _
      rw [hmerge]
      exact hk
    · rw [hkl, hnl, hl, List.flatten_cons, List.mem_append, or_assoc]
      rfl

lemma closedForm?_frames (hc : c.WellFormed) (hs : c.scope.length = 1 ∨ c.scope.length = 2) :
    ∃ k : QuadraticModel α, c.closedForm? = some (.ok k) ∧ c.Frames k := by
  have hexclusion := frames_exclusionModel (α := α) hc
  rcases hs with hone | htwo
  · exact ⟨c.exclusionModel, by simp [closedForm?, arity, hone], hexclusion⟩
  · have hpair : c.closedForm? (α := α) = some c.pairModel := by simp [closedForm?, arity, htwo]
    rw [hpair]
    unfold pairModel
    split
    · exact ⟨c.blankModel, rfl, frames_blankModel c⟩
    · split
      · exact ⟨c.exclusionModel, rfl, hexclusion⟩
      · obtain ⟨k, hk, hw, ht, hl⟩ := addFactors_frame (α := α) hc c.factors
          (fun g hg => ⟨fun v hv => mem_scope_of_mem_factors hg hv, nodup_of_mem_factors hc hg⟩)
          (wellFormed_empty c.vartype) rfl
        refine ⟨k, congrArg some hk, hw, ht, fun v => ?_⟩
        rw [hl, c.factors_perm.mem_iff]
        exact or_iff_right (by simp [empty, labels])

end Frames

lemma value_blankModel (c : Constraint) (x : String → ℚ) :
    (c.blankModel : QuadraticModel ℚ).value x = 0 := by
  have h0 : (zero : ℚ) = 0 := rfl
  refine List.foldlRecOn (motive := fun m => QuadraticModel.value m x = 0) c.scope _
    (value_empty c.vartype) fun m hm v _ => ?_
  simp [hm, h0]

lemma value_exclusionModel (hc : c.WellFormed) (hs : c.scope.length = 1 ∨ c.scope.length = 2)
    (ha : a.Covers c.vartype c.scope) : (c.exclusionModel : QuadraticModel ℚ).value a.reading =
      if c.accepts (c.tupleIn a) = true then 0 else 2 := by
  have hforbidden : c.tupleIn a ∈ c.forbidden ↔ ¬ c.accepts (c.tupleIn a) = true := by
    simp [forbidden, arity, tupleIn_isTuple ha]
  have hnodup : c.forbidden.Nodup := (Vartype.tuples_nodup _ _).filter _
  rw [exclusionModel, value_addIndicators hc.1 hs ha c.forbidden (fun y hy =>
    Vartype.mem_tuples.mp (List.mem_of_mem_filter hy)), value_blankModel, zero_add]
  change 2 * ((List.count (c.tupleIn a) c.forbidden : ℕ) : ℚ) = _
  rw [hnodup.count]
  by_cases h : c.accepts (c.tupleIn a) = true <;> simp [hforbidden, h]

lemma exact_blankModel (c : Constraint) : (c.blankModel : QuadraticModel ℚ).exact = c.blankModel := by
  have h : ∀ (vs : List String) (m : QuadraticModel ℚ),
      (vs.foldl (fun m v => m.addBias v zero) m).exact =
        vs.foldl (fun m v => m.addBias v zero) m.exact := by
    intro vs
    induction vs with
    | nil => exact fun _ => rfl
    | cons v vs ih =>
      intro m
      rw [List.foldl_cons, ih, exact_addBias]
      rfl
  exact h c.scope (empty c.vartype)

lemma exact_indicator (t : Vartype) (x : ℤ) : indicator t x =
    (Extended.finite (indicator t x).1, Extended.finite (indicator t x).2) := by
  cases t with
  | spin => rfl
  | binary => by_cases h : x = 1 <;> simp only [indicator, h, if_true, if_false] <;> rfl

lemma exact_addIndicator :
    (addIndicator t scope m tuple).exact = addIndicator t scope m.exact tuple := by
  unfold addIndicator
  split
  · simp only [exact_indicator t]
    rw [exact_addBias, exact_addOffset]
    rfl
  · simp only [exact_indicator t]
    rw [exact_addCoupling, exact_addBias, exact_addBias, exact_addOffset]
    rfl
  · rfl

lemma exact_exclusionModel (c : Constraint) :
    (c.exclusionModel : QuadraticModel ℚ).exact = c.exclusionModel := by
  have h : ∀ (ys : List (List ℤ)) (m : QuadraticModel ℚ),
      (ys.foldl (addIndicator c.vartype c.scope) m).exact =
        ys.foldl (addIndicator c.vartype c.scope) m.exact := by
    intro ys
    induction ys with
    | nil => exact fun _ => rfl
    | cons y ys ih =>
      intro m
      rw [List.foldl_cons, ih, exact_addIndicator, List.foldl_cons]
  rw [exclusionModel, h, exact_blankModel, exclusionModel]

lemma addFactor_eq_ok (hc : c.WellFormed) (hg : ∀ v ∈ group, v ∈ c.scope) (hn : group.Nodup)
    (hs : group.length = 1 ∨ group.length = 2) (hm : m.WellFormed) (ht : m.vartype = c.vartype) :
    ∃ k : QuadraticModel ℚ, c.addFactor m.exact group = .ok k.exact ∧ k.WellFormed ∧
      k.vartype = c.vartype ∧ (∀ v, v ∈ k.labels ↔ v ∈ m.labels ∨ v ∈ group) ∧
      ∀ a : Assignment, a.Covers c.vartype c.scope →
        k.value a.reading = m.value a.reading + if c.misses a group then 2 else 0 := by
  have hd : (c.onto group).WellFormed := hc.onto hn hg
  obtain ⟨hw, hv, hl⟩ := frames_exclusionModel (α := ℚ) hd
  obtain ⟨k, hk⟩ := merge_isOk (m := m) (hv.trans ht.symm)
  obtain ⟨-, hkt, hkl, -⟩ := merge_frame hk
  have hexact := exact_merge hk
  rw [exact_exclusionModel] at hexact
  refine ⟨k, ?_, hm.merge hw hk, hkt.trans ht, fun v => (hkl v).trans (or_congr_right (hl v)), ?_⟩
  · rw [addFactor, project_eq_ok hc hn hg]
    exact hexact
  · intro a ha
    have hcover : a.Covers (c.onto group).vartype (c.onto group).scope := fun v hv => ha v (hg v hv)
    rw [value_merge hk, value_exclusionModel hd hs hcover, misses]
    cases (c.onto group).accepts ((c.onto group).tupleIn a) <;> rfl

lemma addFactors_eq_ok (hc : c.WellFormed) (groups : List (List String))
    (hg : ∀ g ∈ groups, (∀ v ∈ g, v ∈ c.scope) ∧ g.Nodup ∧ (g.length = 1 ∨ g.length = 2))
    (hm : m.WellFormed) (ht : m.vartype = c.vartype) :
    ∃ k : QuadraticModel ℚ, groups.foldlM c.addFactor m.exact = .ok k.exact ∧
      k.WellFormed ∧ k.vartype = c.vartype ∧
      (∀ v, v ∈ k.labels ↔ v ∈ m.labels ∨ v ∈ groups.flatten) ∧
      ∀ a : Assignment, a.Covers c.vartype c.scope →
        k.value a.reading = m.value a.reading + 2 * (groups.countP (c.misses a) : ℚ) := by
  induction groups generalizing m with
  | nil => exact ⟨m, rfl, hm, ht, by simp, by simp⟩
  | cons g groups ih =>
    obtain ⟨hscope, hn, hs⟩ := hg g (by simp)
    obtain ⟨n, hn, hnw, hnt, hnl, hnv⟩ := addFactor_eq_ok hc hscope hn hs hm ht
    obtain ⟨k, hk, hkw, hkt, hkl, hkv⟩ := ih (fun h hh => hg h (by simp [hh])) hnw hnt
    refine ⟨k, ?_, hkw, hkt, fun v => ?_, fun a ha => ?_⟩
    · rw [List.foldlM_cons, hn]
      exact hk
    · rw [hkl, hnl, List.flatten_cons, List.mem_append, or_assoc]
    · rw [hkv a ha, hnv a ha, List.countP_cons]
      cases c.misses a g
      · simp
      · simp only [if_true]
        push_cast
        ring

lemma factors_length (hs : c.scope.length = 1 ∨ c.scope.length = 2) (hg : group ∈ c.factors) :
    group.length = 1 ∨ group.length = 2 := by
  have hscope : c.scope ≠ [] := by
    apply List.ne_nil_of_length_pos
    omega
  have hpos := List.length_pos_iff.mpr (factorsWithin_ne_nil c.arity c.configurations hscope group hg)
  have hle := (List.sublist_flatten_of_mem hg).length_le
  rw [c.factors_perm.length_eq] at hle
  omega

lemma countP_misses_singleton (hc : c.WellFormed) (ha : a.Covers c.vartype c.scope)
    (h : c.factors = [group]) : c.factors.countP (c.misses a) =
      if c.accepts (c.tupleIn a) = true then 0 else 1 := by
  have hiff := accepts_iff_misses hc ha
  rw [h] at hiff ⊢
  by_cases hm : c.misses a group = true
  · have hnot : ¬ c.accepts (c.tupleIn a) = true := fun hacc => by simp [hiff.mp hacc group] at hm
    simp [hm, hnot]
  · have hacc : c.accepts (c.tupleIn a) = true := hiff.mpr (by simpa using hm)
    simp [hm, hacc]

lemma countP_misses_of_isFull (hc : c.WellFormed) (h : c.isFull = true)
    (ha : a.Covers c.vartype c.scope) : c.factors.countP (c.misses a) = 0 :=
  (countP_misses_eq_zero_iff hc ha).mpr (accepts_of_isFull hc h (tupleIn_isTuple ha))

lemma closedForm?_eq_none {α : Type} [Scalar α] (hs : ¬ (c.scope.length = 1 ∨ c.scope.length = 2)) :
    c.closedForm? (α := α) = none := by
  unfold closedForm?
  split
  · next h => exact absurd (.inl h) hs
  · next h => exact absurd (.inr h) hs
  · rfl

lemma size_of_closedForm? {α : Type} [Scalar α] {x : Except Fault (QuadraticModel α)}
    (h : c.closedForm? = some x) : c.scope.length = 1 ∨ c.scope.length = 2 := by
  by_contra hs
  rw [closedForm?_eq_none hs] at h
  cases h

lemma closedForm?_eq_some (hc : c.WellFormed) (hs : c.scope.length = 1 ∨ c.scope.length = 2) :
    ∃ k : QuadraticModel ℚ, c.closedForm? = some (.ok k.exact) ∧ c.Frames k ∧
      ∀ a : Assignment, a.Covers c.vartype c.scope →
        k.value a.reading = 2 * (c.factors.countP (c.misses a) : ℚ) := by
  have hexclusion : ∀ g, c.factors = [g] → ∀ a : Assignment, a.Covers c.vartype c.scope →
      (c.exclusionModel : QuadraticModel ℚ).value a.reading =
        2 * (c.factors.countP (c.misses a) : ℚ) := by
    intro g hg a ha
    rw [value_exclusionModel hc hs ha, countP_misses_singleton hc ha hg]
    by_cases h : c.accepts (c.tupleIn a) = true <;> simp [h]
  have hgroups : ∀ g ∈ c.factors, (∀ v ∈ g, v ∈ c.scope) ∧ g.Nodup ∧ (g.length = 1 ∨ g.length = 2) :=
    fun g hg => ⟨fun v hv => mem_scope_of_mem_factors hg hv, nodup_of_mem_factors hc hg,
      factors_length hs hg⟩
  rcases hs with hone | htwo
  · obtain ⟨g, hg⟩ : ∃ g, c.factors = [g] := by
      have hfactors : c.factors = [c.scope] := by simp [factors, arity, hone, factorsWithin, splitOf]
      exact ⟨_, hfactors⟩
    refine ⟨c.exclusionModel, ?_, frames_exclusionModel hc, hexclusion g hg⟩
    simp [closedForm?, arity, hone, exact_exclusionModel]
  · have hpair : c.closedForm? (α := Extended) = some c.pairModel := by
      simp [closedForm?, arity, htwo]
    rw [hpair]
    unfold pairModel
    split
    · next hfull =>
      refine ⟨c.blankModel, by rw [exact_blankModel], frames_blankModel c, fun a ha => ?_⟩
      simp [value_blankModel, countP_misses_of_isFull hc hfull ha]
    · split
      · next g hg =>
        exact ⟨c.exclusionModel, by rw [exact_exclusionModel], frames_exclusionModel hc,
          hexclusion g hg⟩
      · obtain ⟨k, hk, hw, ht, hl, hv⟩ := addFactors_eq_ok hc c.factors hgroups
          (wellFormed_empty c.vartype) rfl
        refine ⟨k, congrArg some hk, ⟨hw, ht, fun v => ?_⟩, fun a ha => by simp [hv a ha]⟩
        rw [hl, c.factors_perm.mem_iff]
        exact or_iff_right (by simp [empty, labels])

end QuadraticPenalty.Constraint
