import QuadraticPenalty.Constraint.TwoInFour
import QuadraticPenalty.Proofs.Constraint.WellFormed

namespace QuadraticPenalty.TwoInFour

variable {t : Vartype} {scope : List String} {negated negated' pattern : List Bool} {y : List ℤ} {n : ℕ}

def literals (t : Vartype) (negated : List Bool) (y : List ℤ) : List Bool :=
  List.zipWith (fun x flip => (x == t.high) != flip) y negated

lemma mem_patterns : pattern ∈ patterns ↔ pattern.length = 4 ∧ pattern.count true = 2 := by
  constructor
  · have hall : ∀ b ∈ patterns, b.length = 4 ∧ b.count true = 2 := by decide
    exact hall pattern
  · rintro ⟨hlength, hcount⟩
    obtain ⟨a, b, c, d, rfl⟩ := List.length_eq_four.mp hlength
    have hall : ∀ a b c d, [a, b, c, d].count true = 2 → [a, b, c, d] ∈ patterns := by decide
    exact hall a b c d hcount

lemma configuration_isTuple (hn : negated.length = n) (hp : pattern.length = n) :
    t.IsTuple n (configuration t negated pattern) := by
  refine ⟨by simp [configuration, hn, hp], fun x hx => ?_⟩
  obtain ⟨i, hi, rfl⟩ := List.mem_iff_getElem.mp hx
  simp only [configuration, List.getElem_zipWith, Vartype.mem_values]
  split <;> simp

lemma literals_configuration (h : negated.length = pattern.length) :
    literals t negated (configuration t negated pattern) = pattern := by
  have hlow := t.low_ne_high
  induction pattern generalizing negated with
  | nil => rfl
  | cons b pattern ih =>
    obtain ⟨flip, negated, rfl⟩ := List.exists_cons_of_length_eq_add_one h
    have ih := ih (Nat.succ.inj h)
    simp only [literals, configuration, List.zipWith_cons_cons] at ih ⊢
    rw [ih]
    cases b <;> cases flip <;> simp [hlow]

lemma configuration_literals (h : t.IsTuple negated.length y) :
    configuration t negated (literals t negated y) = y := by
  obtain ⟨hlength, hvalues⟩ := h
  have hlow := t.low_ne_high
  induction negated generalizing y with
  | nil => rw [List.length_eq_zero_iff.mp hlength]; rfl
  | cons flip negated ih =>
    obtain ⟨x, y, rfl⟩ := List.exists_cons_of_length_eq_add_one hlength
    have ih := ih (Nat.succ.inj hlength) fun z hz => hvalues z (List.mem_cons_of_mem x hz)
    have hx := Vartype.mem_values.mp (hvalues x List.mem_cons_self)
    simp only [literals, configuration, List.zipWith_cons_cons] at ih ⊢
    rw [ih]
    obtain rfl | rfl := hx <;> cases flip <;> simp [hlow]

def ofNegated (scope : List String) (negated : List Bool) (t : Vartype) : Constraint :=
  ⟨label, t, scope, .ofList (patterns.map (configuration t negated))⟩

lemma mem_ofNegated (hb : negated.length = 4) : y ∈ (ofNegated scope negated t).configurations ↔
    t.IsTuple 4 y ∧ (literals t negated y).count true = 2 := by
  simp only [ofNegated, SortedSet.mem_ofList, List.mem_map, mem_patterns]
  constructor
  · rintro ⟨pattern, ⟨hlength, hcount⟩, rfl⟩
    rw [literals_configuration (hb.trans hlength.symm)]
    exact ⟨configuration_isTuple hb hlength, hcount⟩
  · rintro ⟨hy, hcount⟩
    refine ⟨literals t negated y, ⟨?_, hcount⟩, configuration_literals (hb ▸ hy)⟩
    rw [literals, List.length_zipWith, hy.1, hb, Nat.min_self]

lemma ofNegated_wellFormed (hn : scope.Nodup) (hs : scope.length = 4) (hb : negated.length = 4) :
    (ofNegated scope negated t).WellFormed := by
  refine ⟨hn, fun y hy => ?_, fun _ => ?_⟩
  · change t.IsTuple scope.length y
    rw [hs]
    exact ((mem_ofNegated hb).mp hy).1
  · have hpattern : [false, false, true, true] ∈ patterns := by decide
    exact List.ne_nil_of_mem (SortedSet.mem_ofList.mpr (List.mem_map_of_mem hpattern))

lemma clause_eq_ok (hn : scope.Nodup) (hs : scope.length = 4) (hb : negated.length = 4) :
    clause scope negated t = .ok (ofNegated scope negated t) := by
  have hbuilt : Constraint.ofConfigurations (patterns.map (configuration t negated)) scope t =
      .ok ⟨Constraint.defaultName, t, scope, .ofList (patterns.map (configuration t negated))⟩ :=
    Constraint.checked_eq_ok_iff.mpr ⟨rfl, ofNegated_wellFormed hn hs hb⟩
  rw [clause, if_neg (not_not.mpr hs), hbuilt]
  rfl

lemma literals_map_not : literals t (negated.map not) y = (literals t negated y).map not := by
  simp [literals, List.zipWith_map_right, List.map_zipWith]

lemma map_not_mem_patterns (h : pattern ∈ patterns) : pattern.map not ∈ patterns := by
  have hall : ∀ b ∈ patterns, b.map not ∈ patterns := by decide
  exact hall pattern h

lemma ofNegated_map_not (hb : negated.length = 4) :
    ofNegated scope (negated.map not) t = ofNegated scope negated t := by
  have hconfigurations : (ofNegated scope (negated.map not) t).configurations =
      (ofNegated scope negated t).configurations := by
    refine SortedSet.ext_mem fun y => ?_
    rw [mem_ofNegated ((List.length_map _).trans hb), mem_ofNegated hb, literals_map_not]
    refine and_congr_right fun hy => ?_
    have hlength : (literals t negated y).length = 4 := by
      rw [literals, List.length_zipWith, hy.1, hb, Nat.min_self]
    have htotal := List.count_true_add_count_false (literals t negated y)
    have hnot : ((literals t negated y).map not).count true = (literals t negated y).count false :=
      List.count_map_of_injective _ not Bool.not_injective false
    omega
  rw [ofNegated, ofNegated, Constraint.mk.injEq]
  exact ⟨rfl, rfl, rfl, hconfigurations⟩

lemma configuration_turn (h : negated.length = negated'.length) : configuration t negated pattern =
    configuration t negated' (List.zipWith bne pattern (List.zipWith bne negated negated')) := by
  induction pattern generalizing negated negated' with
  | nil => rfl
  | cons b pattern ih =>
    cases negated with
    | nil =>
      obtain rfl : negated' = [] := List.length_eq_zero_iff.mp h.symm
      rfl
    | cons flip negated =>
      obtain ⟨flip', negated', rfl⟩ := List.exists_cons_of_length_eq_add_one h.symm
      have ih := ih (Nat.succ.inj h)
      simp only [configuration, List.zipWith_cons_cons] at ih ⊢
      rw [ih]
      cases b <;> cases flip <;> cases flip' <;> rfl

lemma ofNegated_eq_iff (hb : negated.length = 4) (hb' : negated'.length = 4) :
    ofNegated scope negated t = ofNegated scope negated' t ↔
      negated' = negated ∨ negated' = negated.map not := by
  constructor
  · intro h
    have hturned : ∀ pattern ∈ patterns,
        (List.zipWith bne pattern (List.zipWith bne negated negated')).count true = 2 := by
      intro pattern hpattern
      have hmem : configuration t negated pattern ∈ (ofNegated scope negated' t).configurations :=
        h ▸ SortedSet.mem_ofList.mpr (List.mem_map_of_mem hpattern)
      have hlength := (mem_patterns.mp hpattern).1
      rw [configuration_turn (hb.trans hb'.symm), mem_ofNegated hb', literals_configuration] at hmem
      · exact hmem.2
      · simp [hb, hb', hlength]
    obtain ⟨a, b, c, d, rfl⟩ := List.length_eq_four.mp hb
    obtain ⟨a', b', c', d', rfl⟩ := List.length_eq_four.mp hb'
    have hall : ∀ a b c d a' b' c' d', (∀ pattern ∈ patterns,
        (List.zipWith bne pattern (List.zipWith bne [a, b, c, d] [a', b', c', d'])).count true = 2) →
        [a', b', c', d'] = [a, b, c, d] ∨ [a', b', c', d'] = [a, b, c, d].map not := by decide
    exact hall a b c d a' b' c' d' hturned
  · rintro (rfl | rfl)
    · rfl
    · exact (ofNegated_map_not hb).symm

end QuadraticPenalty.TwoInFour
