import Mathlib.Data.List.Sublists
import Mathlib.Data.Set.Card
import QuadraticPenalty.Proofs.Problem.Random

/-! The clauses that a draw can give are counted: as long as no more of them are asked for, one that was not
seen yet can always be drawn. -/

namespace QuadraticPenalty.RandomProblem

open TwoInFour

variable {s : Settings} {planted : Option (Array Bool)} {solution : Array Bool} {picked : List ℕ}
  {negated negated' pattern : List Bool} {k l : Constraint} {seen : List Constraint} {n : ℕ}

section Polarities

def leading : List (List Bool) :=
  [[false, false, false, false],
    [false, false, false, true],
    [false, false, true, false],
    [false, false, true, true],
    [false, true, false, false],
    [false, true, false, true],
    [false, true, true, false],
    [false, true, true, true]]

lemma mem_leading : negated ∈ leading ↔ negated.length = 4 ∧ negated.head? = some false := by
  constructor
  · have hall : ∀ b ∈ leading, b.length = 4 ∧ b.head? = some false := by decide
    exact hall negated
  · rintro ⟨hlength, hhead⟩
    obtain ⟨a, b, c, d, rfl⟩ := List.length_eq_four.mp hlength
    obtain rfl : a = false := Option.some.inj hhead
    have hall : ∀ b c d, [false, b, c, d] ∈ leading := by decide
    exact hall b c d

lemma leading_inj {scope : List String} {t : Vartype} (h : negated ∈ leading) (h' : negated' ∈ leading)
    (he : ofNegated scope negated t = ofNegated scope negated' t) : negated = negated' := by
  obtain ⟨hlength, hhead⟩ := mem_leading.mp h
  obtain ⟨hlength', hhead'⟩ := mem_leading.mp h'
  obtain heq | rfl := (ofNegated_eq_iff hlength hlength').mp he
  · exact heq.symm
  · rw [List.head?_map, hhead] at hhead'
    cases hhead'

def Fits (planted : Option (Array Bool)) (picked : List ℕ) (negated : List Bool) : Prop :=
  negated.length = 4 ∧
    ∀ solution ∈ planted, ∃ pattern ∈ patterns, negated = negations solution picked pattern

lemma negations_map_not : negations solution picked (pattern.map not) =
    (negations solution picked pattern).map not := by
  simp [negations, List.zipWith_map_right, List.map_zipWith]

lemma Fits.map_not (h : Fits planted picked negated) : Fits planted picked (negated.map not) := by
  refine ⟨(List.length_map _).trans h.1, fun solution hsolution => ?_⟩
  obtain ⟨pattern, hpattern, rfl⟩ := h.2 solution hsolution
  exact ⟨pattern.map not, map_not_mem_patterns hpattern, negations_map_not.symm⟩

def leadingFor (planted : Option (Array Bool)) (picked : List ℕ) : Finset (List Bool) :=
  match planted with
  | none => leading.toFinset
  | some solution => leading.toFinset.filter (· ∈ patterns.map (negations solution picked))

lemma mem_leadingFor : negated ∈ leadingFor planted picked ↔
    Fits planted picked negated ∧ negated.head? = some false := by
  cases planted with
  | none => simp [leadingFor, Fits, mem_leading]
  | some solution =>
    simp only [leadingFor, Fits, Finset.mem_filter, List.mem_toFinset, mem_leading, List.mem_map,
      Option.mem_some_iff, forall_eq', eq_comm (b := negated)]
    exact and_right_comm

lemma card_leadingFor (hp : picked.length = 4) :
    (leadingFor planted picked).card = if planted.isSome then 3 else 8 := by
  cases planted with
  | none => rfl
  | some solution =>
    have hturned : negations solution picked = fun pattern =>
        List.zipWith bne pattern (picked.map fun i => solution.getD i false) := by
      funext pattern
      rw [negations, List.zipWith_map_right, List.zipWith_comm]
    obtain ⟨a, b, c, d, hvalues⟩ := List.length_eq_four.mp
      ((List.length_map fun i => solution.getD i false).trans hp)
    have hall : ∀ a b c d, (leading.toFinset.filter
        (· ∈ patterns.map fun pattern => List.zipWith bne pattern [a, b, c, d])).card = 3 := by decide
    rw [leadingFor, hturned, hvalues]
    exact hall a b c d

lemma Fits.exists_leading {t : Vartype} {scope : List String} (h : Fits planted picked negated) :
    ∃ negated' ∈ leadingFor planted picked, ofNegated scope negated' t = ofNegated scope negated t := by
  obtain ⟨a, b, c, d, hbits⟩ := List.length_eq_four.mp h.1
  cases a with
  | false => exact ⟨negated, mem_leadingFor.mpr ⟨h, by rw [hbits]; rfl⟩, rfl⟩
  | true => exact ⟨negated.map not, mem_leadingFor.mpr ⟨h.map_not, by rw [hbits]; rfl⟩,
      ofNegated_map_not h.1⟩

end Polarities

section Count

def picks (n : ℕ) : Finset (List ℕ) := ((List.range n).sublistsLen 4).toFinset

lemma Picks.sublist (h : Picks n picked) : picked.Sublist (List.range n) := by
  have hsub : picked.Subperm (List.range n) :=
    List.subperm_of_subset (h.increasing.imp ne_of_lt) fun i hi => List.mem_range.mpr (h.below i hi)
  exact List.sublist_of_subperm_of_pairwise hsub h.increasing List.pairwise_lt_range

lemma mem_picks : picked ∈ picks n ↔ Picks n picked := by
  rw [picks, List.mem_toFinset, List.mem_sublistsLen]
  constructor
  · rintro ⟨hsub, hlength⟩
    exact ⟨hlength, List.pairwise_lt_range.sublist hsub, fun i hi => List.mem_range.mp (hsub.subset hi)⟩
  · exact fun h => ⟨h.sublist, h.length⟩

lemma card_picks (n : ℕ) : (picks n).card = n.choose 4 := by
  rw [picks, List.toFinset_card_of_nodup (List.nodup_sublistsLen 4 List.nodup_range),
    List.length_sublistsLen, List.length_range]

def clauses (s : Settings) (planted : Option (Array Bool)) : Finset Constraint :=
  (picks s.size).biUnion fun picked =>
    (leadingFor planted picked).image fun negated => ofNegated (picked.map labelOf) negated s.vartype

lemma mem_clauses : k ∈ clauses s planted ↔ Drawable s planted k := by
  simp only [clauses, Finset.mem_biUnion, Finset.mem_image, mem_picks]
  constructor
  · rintro ⟨picked, hp, negated, hn, rfl⟩
    obtain ⟨⟨hlength, hfits⟩, -⟩ := mem_leadingFor.mp hn
    exact ⟨picked, negated, hp, hlength, hfits, rfl⟩
  · rintro ⟨picked, negated, hp, hlength, hfits, rfl⟩
    obtain ⟨negated', hn, he⟩ := Fits.exists_leading ⟨hlength, hfits⟩
    exact ⟨picked, hp, negated', hn, he⟩

lemma card_clauses (s : Settings) (planted : Option (Array Bool)) :
    (clauses s planted).card = (if planted.isSome then 3 else 8) * s.size.choose 4 := by
  have hcard : ∀ picked ∈ picks s.size, ((leadingFor planted picked).image fun negated =>
      ofNegated (picked.map labelOf) negated s.vartype).card = if planted.isSome then 3 else 8 := by
    intro picked hp
    rw [Finset.card_image_of_injOn, card_leadingFor (mem_picks.mp hp).length]
    intro negated hn negated' hn' he
    obtain ⟨hfits, hhead⟩ := mem_leadingFor.mp hn
    obtain ⟨hfits', hhead'⟩ := mem_leadingFor.mp hn'
    exact leading_inj (mem_leading.mpr ⟨hfits.1, hhead⟩) (mem_leading.mpr ⟨hfits'.1, hhead'⟩) he
  -- clauses of different variables differ, as the scope of a clause tells which variables were picked
  rw [clauses, Finset.card_biUnion, Finset.sum_congr rfl hcard, Finset.sum_const, card_picks, smul_eq_mul,
    mul_comm]
  intro picked hp picked' hp' hne
  refine Finset.disjoint_left.mpr fun k hk hk' => hne ?_
  obtain ⟨negated, -, rfl⟩ := Finset.mem_image.mp hk
  obtain ⟨negated', -, he⟩ := Finset.mem_image.mp hk'
  exact List.map_injective_iff.mpr labelOf_inj (congrArg Constraint.scope he).symm

end Count

section Draws

lemma exists_drawNegated (hp : picked.length = 4) (h : Fits planted picked negated) :
    ∃ numbers bits c, drawNegated Dice.loaded planted picked (numbers, bits) = (negated, c) := by
  cases planted with
  | none =>
    refine ⟨[], negated, ([], []), ?_⟩
    have hcoins := Dice.coins_loaded [] negated []
    rw [List.append_nil, h.1, ← hp] at hcoins
    rw [drawNegated, hcoins]
  | some solution =>
    obtain ⟨pattern, hpattern, rfl⟩ := h.2 solution rfl
    have hlt : patterns.idxOf pattern < patterns.length := List.idxOf_lt_length_of_mem hpattern
    have hmin : min (patterns.idxOf pattern) (patterns.length - 1) = patterns.idxOf pattern :=
      min_eq_left (Nat.le_sub_one_of_lt hlt)
    have hget : patterns.getD (patterns.idxOf pattern) [] = pattern := by
      rw [List.getD_eq_getElem _ _ hlt, List.getElem_idxOf hlt]
    refine ⟨[patterns.idxOf pattern], [], ([], []), ?_⟩
    simp only [drawNegated, Dice.loaded, List.headD_cons, List.tail_cons, hmin, hget]

lemma Drawable.exists_draw (h : Drawable s planted k) :
    ∃ c c', drawClause Dice.loaded s planted c = (.ok k, c') := by
  obtain ⟨picked, negated, hp, hn, hfits, rfl⟩ := h
  have hsorted : (SortedSet.ofList picked).toList = picked := by
    refine SortedSet.eq_of_increasing (SortedSet.ofList _).increasing ?_ fun i => SortedSet.mem_ofList
    exact hp.increasing.imp decide_eq_true
  obtain ⟨numbers, bits, c, hnegated⟩ := exists_drawNegated hp.length ⟨hn, hfits⟩
  have hsample : Dice.loaded.sample s.size 4 (picked ++ numbers, bits) = (picked, numbers, bits) :=
    Dice.sample_loaded numbers bits ⟨hp.length, hp.increasing.imp ne_of_lt, hp.below⟩
  refine ⟨(picked ++ numbers, bits), c, ?_⟩
  simp only [drawClause, hsample, hsorted, hnegated, clause_eq_ok hp.nodup_labels hp.length_labels hn]

def outcomes (s : Settings) (planted : Option (Array Bool)) : Set Constraint :=
  {k | ∃ (σ : Type) (d : Dice σ) (c c' : σ), d.Samples ∧ drawClause d s planted c = (.ok k, c')}

lemma outcomes_eq (hs : 4 ≤ s.size) (planted : Option (Array Bool)) :
    outcomes s planted = clauses s planted := by
  ext k
  rw [Finset.mem_coe, mem_clauses]
  constructor
  · rintro ⟨σ, d, c, c', hd, hdraw⟩
    obtain ⟨l, c'', hl, hdrawable⟩ := drawClause_drawable hd hs planted c
    obtain rfl : k = l := Except.ok.inj (congrArg Prod.fst (hdraw.symm.trans hl))
    exact hdrawable
  · intro hk
    obtain ⟨c, c', hdraw⟩ := hk.exists_draw
    exact ⟨_, Dice.loaded, c, c', Dice.loaded_samples, hdraw⟩

lemma exists_unseen (hlt : seen.length < (clauses s planted).card) :
    ∃ k, Drawable s planted k ∧ seen.any k.same = false := by
  by_contra hnone
  let key (k : Constraint) := (k.scope, k.configurations)
  have hinj : Set.InjOn key (clauses s planted) := by
    intro k hk l hl he
    obtain ⟨hscope, hconfigurations⟩ := Prod.mk.inj he
    exact (mem_clauses.mp hk).ext (mem_clauses.mp hl) hscope hconfigurations
  have hsub : (clauses s planted).image key ⊆ (seen.map key).toFinset := by
    intro pair hpair
    obtain ⟨k, hk, rfl⟩ := Finset.mem_image.mp hpair
    have hseen : seen.any k.same = true := by
      by_contra hnew
      exact hnone ⟨k, mem_clauses.mp hk, Bool.eq_false_iff.mpr hnew⟩
    obtain ⟨l, hl, hsame⟩ := List.any_eq_true.mp hseen
    obtain ⟨hscope, hconfigurations, -⟩ := Constraint.same_iff.mp hsame
    refine List.mem_toFinset.mpr (List.mem_map.mpr ⟨l, hl, ?_⟩)
    exact Prod.ext hscope.symm hconfigurations.symm
  have hcard := calc
    (clauses s planted).card = ((clauses s planted).image key).card := (Finset.card_image_of_injOn hinj).symm
    _ ≤ (seen.map key).toFinset.card := Finset.card_le_card hsub
    _ ≤ (seen.map key).length := List.toFinset_card_le _
    _ = seen.length := List.length_map _
  exact absurd hlt (not_lt.mpr hcard)

end Draws

section Budget

lemma card_clauses_eq_bound (s : Settings) (hplanted : planted.isSome = s.satisfiable) :
    (clauses s planted).card = s.bound := by
  rw [card_clauses, hplanted, Settings.bound]

/-- The number that a request may ask for is the number of clauses that can be drawn, as long as the
product of four numbers of the size fits in a word of 128 bits, and never more. So a clause that was not
seen yet can be drawn whenever one more is needed. -/
theorem clauses_suffice (s : Settings) (hs : 4 ≤ s.size) :
    (s.size ≤ 2 ^ 32 + 1 → (∀ m ∈ [s.size, s.size * (s.size - 1), s.size * (s.size - 1) * (s.size - 2),
      s.size * (s.size - 1) * (s.size - 2) * (s.size - 3)], m < 2 ^ 128) ∧
      (quadruples s.size).toNat = s.size.choose 4 ∧ s.bound < 2 ^ 128 ∧ s.available = s.bound) ∧
    (outcomes s none).ncard = 8 * s.size.choose 4 ∧
    (∀ solution, (outcomes s (some solution)).ncard = 3 * s.size.choose 4) ∧
    (∀ planted, ∀ k ∈ outcomes s planted, ∀ l ∈ outcomes s planted, k.same l = true ↔ k = l) ∧
    ∀ planted : Option (Array Bool), planted.isSome = s.satisfiable →
      (outcomes s planted).ncard = s.bound ∧ (s.clauses ≤ s.available →
        ∀ seen : List Constraint, seen.length < s.clauses →
          ∃ (σ : Type) (d : Dice σ) (c c' : σ) (k : Constraint), d.Samples ∧
            drawClause d s planted c = (.ok k, c') ∧ seen.any k.same = false ∧
            ∀ limit, drawClauses d s planted (limit + 1) seen c =
              drawClauses d s planted limit (seen ++ [k]) c') := by
  have hcount : ∀ planted, (outcomes s planted).ncard = (clauses s planted).card := fun planted => by
    rw [outcomes_eq hs, Set.ncard_coe_finset]
  refine ⟨fun hn => ⟨products_lt hn, quadruples_eq hn, bound_lt hn, available_eq_bound hn⟩,
    (hcount none).trans (card_clauses s none),
    fun solution => (hcount _).trans (card_clauses s (some solution)), ?_, ?_⟩
  · intro planted k hk l hl
    rw [outcomes_eq hs, Finset.mem_coe, mem_clauses] at hk hl
    exact hk.same_iff hl
  · intro planted hplanted
    have hcard := card_clauses_eq_bound s hplanted
    refine ⟨(hcount planted).trans hcard, fun hle seen hlt => ?_⟩
    obtain ⟨k, hk, hnew⟩ := exists_unseen (hlt.trans_le ((hle.trans (available_le s)).trans hcard.ge))
    obtain ⟨c, c', hdraw⟩ := hk.exists_draw
    refine ⟨_, Dice.loaded, c, c', k, Dice.loaded_samples, hdraw, hnew, fun limit => ?_⟩
    rw [drawClauses, if_pos hlt, hdraw]
    simp only [hnew, Bool.false_eq_true, if_false]

theorem clauses_suffice_of_five : Settings.available ⟨5, 15, .spin, true⟩ = 15 ∧
    (outcomes ⟨5, 15, .spin, true⟩ none).ncard = 40 ∧
    (∀ solution, (outcomes ⟨5, 15, .spin, true⟩ (some solution)).ncard = 15) ∧
    ∀ (solution : Array Bool) (seen : List Constraint), seen.length < 15 →
      ∃ (σ : Type) (d : Dice σ) (c c' : σ) (k : Constraint), d.Samples ∧
        drawClause d ⟨5, 15, .spin, true⟩ (some solution) c = (.ok k, c') ∧ seen.any k.same = false := by
  obtain ⟨hwords, hfree, hplanted, -, hnew⟩ := clauses_suffice ⟨5, 15, .spin, true⟩ (by decide)
  refine ⟨(hwords (by decide)).2.2.2, hfree, hplanted, fun solution seen hlt => ?_⟩
  obtain ⟨σ, d, c, c', k, hd, hdraw, hunseen, -⟩ := (hnew (some solution) rfl).2 (by decide) seen hlt
  exact ⟨σ, d, c, c', k, hd, hdraw, hunseen⟩

end Budget

end QuadraticPenalty.RandomProblem
