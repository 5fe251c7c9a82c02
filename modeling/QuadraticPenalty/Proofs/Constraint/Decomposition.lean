import QuadraticPenalty.Proofs.Constraint.Products

namespace QuadraticPenalty.Constraint

variable {c : Constraint} {group block : List String} {part : List ℕ}

lemma splitOf_eq_none_iff {n : ℕ} {allowed : SortedSet (List ℤ)} : splitOf n allowed = none ↔
    ∀ part : List ℕ, part.Sublist (List.range n) → 1 ≤ part.length → part.length ≤ n / 2 →
      splitsAt n allowed part = false := by
  simp only [splitOf, List.findSome?_eq_none_iff, List.find?_eq_none, combinations, mem_choose_iff,
    List.mem_range'_1, Bool.not_eq_true]
  constructor
  · intro h part hsub hone hhalf
    exact h part.length (by omega) part ⟨hsub, rfl⟩
  · rintro h k hk part ⟨hsub, rfl⟩
    exact h part hsub (by omega) (by omega)

def positionsOf (scope block : List String) : List ℕ :=
  (List.range scope.length).filter fun i => scope.getD i "" ∈ block

lemma labelsAt_positionsOf (scope block : List String) :
    labelsAt scope (positionsOf scope block) = scope.filter (· ∈ block) := by
  have hall : (List.range scope.length).map (fun i => scope.getD i "") = scope := by
    apply List.ext_getElem (by simp)
    intro i hi hj
    simp [hj]
  conv_rhs => rw [← hall]
  rw [List.filter_map]
  rfl

lemma Separates.splitsAt (hc : c.WellFormed) (h : c.Separates block) :
    splitsAt c.scope.length c.configurations (positionsOf c.scope block) = true := by
  have hpick : ∀ (ps : List ℕ) (f : String → ℤ), (∀ p ∈ ps, p < c.scope.length) →
      pick ps (c.scope.map f) = ps.map fun p => f (c.scope.getD p "") := by
    intro ps f hps
    refine List.map_congr_left fun p hp => ?_
    simp [hps p hp]
  have hin : ∀ p ∈ positionsOf c.scope block, p < c.scope.length ∧ c.scope.getD p "" ∈ block := by
    intro p hp
    obtain ⟨hp, hb⟩ := List.mem_filter.mp hp
    exact ⟨List.mem_range.mp hp, of_decide_eq_true hb⟩
  have hout : ∀ p ∈ others c.scope.length (positionsOf c.scope block),
      p < c.scope.length ∧ c.scope.getD p "" ∉ block := by
    intro p hp
    obtain ⟨hp, hb⟩ := List.mem_filter.mp hp
    refine ⟨List.mem_range.mp hp, fun hm => of_decide_eq_true hb ?_⟩
    exact List.mem_filter.mpr ⟨hp, decide_eq_true hm⟩
  refine (splitsAt_iff fun y hy => (hc.isTuple hy).1).mpr fun y hy z hz => ?_
  obtain ⟨f, rfl, hf⟩ := hc.exists_allows hy
  obtain ⟨g, rfl, hg⟩ := hc.exists_allows hz
  refine ⟨_, h f g hf hg, ?_, ?_⟩
  · rw [hpick _ _ fun p hp => (hin p hp).1, hpick _ _ fun p hp => (hin p hp).1]
    exact List.map_congr_left fun p hp => if_pos (hin p hp).2
  · rw [hpick _ _ fun p hp => (hout p hp).1, hpick _ _ fun p hp => (hout p hp).1]
    exact List.map_congr_left fun p hp => if_neg (hout p hp).2

lemma irreducible_of_splitOf (hc : c.WellFormed)
    (h : splitOf c.scope.length c.configurations = none) : c.Irreducible := by
  -- only parts of at most half of the variables are tried, and one of two sides is such a part
  have hsmall : ∀ block : List String, c.Separates block → block.Nodup → block ≠ [] →
      (∀ v ∈ block, v ∈ c.scope) → ¬ block.length ≤ c.scope.length / 2 := by
    intro block hsep hn hne hsub hhalf
    have hperm : (c.scope.filter (· ∈ block)).Perm block := by
      refine (List.perm_ext_iff_of_nodup (hc.1.filter _) hn).mpr fun v => ?_
      simpa using hsub v
    have hlen : (positionsOf c.scope block).length = block.length := by
      rw [← hperm.length_eq, ← labelsAt_positionsOf]
      simp [labelsAt]
    have hpos := List.length_pos_iff.mpr hne
    have hfalse := splitOf_eq_none_iff.mp h (positionsOf c.scope block) List.filter_sublist
      (by omega) (by omega)
    rw [hsep.splitsAt hc] at hfalse
    cases hfalse
  intro left right hleft hright hp
  have hsub : ∀ v, v ∈ left ∨ v ∈ right → v ∈ c.scope := fun v hv =>
    hp.1.subset (by simpa using hv)
  have hflat : [left, right].flatten = left ++ right := by simp
  have hn := hp.1.nodup_iff.mpr hc.1
  have hlen := hp.1.length_eq
  rw [hflat] at hn hlen
  obtain ⟨hln, hrn, -⟩ := List.nodup_append.mp hn
  rw [List.length_append] at hlen
  have hl := hsmall left (hp.separates hc (by simp)) hln hleft fun v hv => hsub v (.inl hv)
  have hr := hsmall right (hp.separates hc (by simp)) hrn hright fun v hv => hsub v (.inr hv)
  omega

lemma configurations_onto_labelsAt (hc : c.WellFormed) (hp : part.Sublist (List.range c.scope.length))
    (hn : (labelsAt c.scope part).Nodup) :
    (c.onto (labelsAt c.scope part)).configurations = c.configurations.map (pick part) := by
  refine SortedSet.map_congr fun y _ => ?_
  rw [← restriction_labelsAt hc.1 (fun p hm => List.mem_range.mp (hp.subset hm)) (fun _ hv => hv) y,
    restriction_self hn (by simp [pick, labelsAt])]

def Divides (c : Constraint) (left right : List String) : Prop :=
  (left ++ right).Perm c.scope ∧ left.length < c.scope.length ∧ right.length < c.scope.length

lemma Divides.wellFormed {left right : List String} (h : c.Divides left right) (hc : c.WellFormed) :
    (c.onto left).WellFormed ∧ (c.onto right).WellFormed := by
  have hsub : ∀ v, v ∈ left ∨ v ∈ right → v ∈ c.scope := fun v hv =>
    h.1.subset (List.mem_append.mpr hv)
  obtain ⟨hl, hr, -⟩ := List.nodup_append.mp (h.1.nodup_iff.mpr hc.1)
  exact ⟨hc.onto hl fun v hv => hsub v (.inl hv), hc.onto hr fun v hv => hsub v (.inr hv)⟩

lemma factorsWithin_cases (hc : c.WellFormed) :
    (splitOf c.scope.length c.configurations = none ∧
      ∀ depth, factorsWithin depth c.configurations c.scope = [c.scope]) ∨
    ∃ left right, c.Divides left right ∧ ∀ depth,
      factorsWithin (depth + 1) c.configurations c.scope =
        factorsWithin depth (c.onto left).configurations left ++
          factorsWithin depth (c.onto right).configurations right := by
  cases h : splitOf c.scope.length c.configurations with
  | none =>
    refine .inl ⟨rfl, fun depth => ?_⟩
    cases depth <;> simp [factorsWithin, h]
  | some part =>
    obtain ⟨-, hsub, hone, hhalf⟩ := splitOf_eq_some h
    have hrest : (others c.scope.length part).Sublist (List.range c.scope.length) :=
      List.filter_sublist
    have hperm := labelsAt_perm rfl hsub
    obtain ⟨hleft, hright, -⟩ := List.nodup_append.mp (hperm.nodup_iff.mpr hc.1)
    have hlen := hperm.length_eq
    have hpart : (labelsAt c.scope part).length = part.length := by simp [labelsAt]
    rw [List.length_append] at hlen
    refine .inr ⟨_, _, ⟨hperm, by omega, by omega⟩, fun depth => ?_⟩
    rw [configurations_onto_labelsAt hc hsub hleft, configurations_onto_labelsAt hc hrest hright,
      factorsWithin, h]
    rfl

lemma factorsWithin_eq (hc : c.WellFormed) {depth depth' : ℕ} (h : c.arity ≤ depth)
    (h' : c.arity ≤ depth') : factorsWithin depth c.configurations c.scope =
      factorsWithin depth' c.configurations c.scope := by
  induction depth generalizing c depth' with
  | zero =>
    have hs : c.scope = [] := List.length_eq_zero_iff.mp (Nat.le_zero.mp h)
    cases depth' <;> simp [factorsWithin, hs, splitOf]
  | succ depth ih =>
    rcases factorsWithin_cases hc with ⟨-, hstop⟩ | ⟨left, right, hdiv, hstep⟩
    · rw [hstop, hstop]
    · obtain ⟨hwl, hwr⟩ := hdiv.wellFormed hc
      obtain ⟨-, hl, hr⟩ := hdiv
      unfold arity at h h'
      obtain ⟨depth', rfl⟩ : ∃ n, depth' = n + 1 := ⟨depth' - 1, by omega⟩
      have hleft : factorsWithin depth (c.onto left).configurations left =
          factorsWithin depth' (c.onto left).configurations left :=
        ih hwl (Nat.lt_succ_iff.mp (hl.trans_le h)) (Nat.lt_succ_iff.mp (hl.trans_le h'))
      have hright : factorsWithin depth (c.onto right).configurations right =
          factorsWithin depth' (c.onto right).configurations right :=
        ih hwr (Nat.lt_succ_iff.mp (hr.trans_le h)) (Nat.lt_succ_iff.mp (hr.trans_le h'))
      rw [hstep, hstep]
      exact congrArg₂ (· ++ ·) hleft hright

lemma factors_induction {motive : Constraint → Prop}
    (whole : ∀ c, c.WellFormed → splitOf c.scope.length c.configurations = none →
      c.factors = [c.scope] → motive c)
    (split : ∀ c left right, c.WellFormed → c.Divides left right →
      c.factors = (c.onto left).factors ++ (c.onto right).factors →
      motive (c.onto left) → motive (c.onto right) → motive c)
    (hc : c.WellFormed) : motive c := by
  have hsize : ∀ (n : ℕ) (c : Constraint), c.WellFormed → c.scope.length ≤ n → motive c := by
    intro n
    induction n with
    | zero =>
      intro c hc hn
      have hs : c.scope = [] := List.length_eq_zero_iff.mp (Nat.le_zero.mp hn)
      exact whole c hc (by simp [hs, splitOf]) (by simp [factors, arity, hs, factorsWithin])
    | succ n ih =>
      intro c hc hn
      rcases factorsWithin_cases hc with ⟨hnone, hstop⟩ | ⟨left, right, hdiv, hstep⟩
      · exact whole c hc hnone (hstop _)
      · obtain ⟨hwl, hwr⟩ := hdiv.wellFormed hc
        obtain ⟨-, hl, hr⟩ := id hdiv
        obtain ⟨k, hk⟩ : ∃ k, c.arity = k + 1 := ⟨c.scope.length - 1, by unfold arity; omega⟩
        have hl' : left.length ≤ k := by unfold arity at hk; omega
        have hr' : right.length ≤ k := by unfold arity at hk; omega
        refine split c left right hc hdiv ?_ (ih _ hwl (by change left.length ≤ n; omega))
          (ih _ hwr (by change right.length ≤ n; omega))
        rw [factors, hk, hstep]
        exact congrArg₂ (· ++ ·) (factorsWithin_eq hwl hl' le_rfl) (factorsWithin_eq hwr hr' le_rfl)
  exact hsize c.scope.length c hc le_rfl

lemma factors_ne_nil (hs : c.scope ≠ []) : ∀ g ∈ c.factors, g ≠ [] := factorsWithin_ne_nil _ _ hs

lemma irreducible_onto_of_mem_factors (hc : c.WellFormed) :
    ∀ g ∈ c.factors, (c.onto g).Irreducible := by
  refine factors_induction (motive := fun c => ∀ g ∈ c.factors, (c.onto g).Irreducible) ?_ ?_ hc
  · intro c hc hnone hfactors g hg
    rw [hfactors, List.mem_singleton] at hg
    rw [hg, onto_self hc]
    exact irreducible_of_splitOf hc hnone
  · intro c left right hc hdiv hfactors ihl ihr g hg
    rw [hfactors, List.mem_append] at hg
    rcases hg with hg | hg
    · rw [← onto_onto fun v hv => mem_scope_of_mem_factors hg hv]
      exact ihl g hg
    · rw [← onto_onto fun v hv => mem_scope_of_mem_factors hg hv]
      exact ihr g hg

lemma isProduct_factors (hc : c.WellFormed) : c.IsProduct c.factors := by
  have hlen : ∀ y ∈ c.configurations, y.length = c.scope.length := fun y hy => (hc.isTuple hy).1
  refine ⟨c.factors_perm, fun x hx => ?_⟩
  rw [accepts_iff, mem_iff_restrictions c.arity c.configurations hc.1 hlen hx.1]
  refine forall₂_congr fun g _ => ?_
  rw [accepts_iff]
  exact SortedSet.mem_map.symm

/-- The decomposition ends, and yields projections that multiply to the constraint and of which none
is a product itself. -/
theorem factors_irreducible (c : Constraint) (hc : c.WellFormed) (hs : c.scope ≠ []) :
    (∀ depth, c.arity ≤ depth → factorsWithin depth c.configurations c.scope = c.factors) ∧
      c.IsProduct c.factors ∧
      ∀ g ∈ c.factors, g ≠ [] ∧ c.project g = .ok (c.onto g) ∧ (c.onto g).Irreducible := by
  refine ⟨fun depth h => factorsWithin_eq hc h le_rfl, isProduct_factors hc, fun g hg => ?_⟩
  have hproject := project_eq_ok hc (nodup_of_mem_factors hc hg) fun v hv =>
    mem_scope_of_mem_factors hg hv
  exact ⟨factors_ne_nil hs g hg, hproject, irreducible_onto_of_mem_factors hc g hg⟩

def equalPair : Constraint :=
  ⟨"Constraint", .binary, ["a", "b", "c"], ⟨[[0, 0, 1], [1, 1, 1]], by decide⟩⟩

lemma equalPair_wellFormed : equalPair.WellFormed := flaw_eq_none_iff.mp (by decide)

theorem factors_irreducible_of_equalPair : equalPair.factors = [["c"], ["a", "b"]] ∧
    equalPair.IsProduct [["c"], ["a", "b"]] ∧ (equalPair.onto ["a", "b"]).Irreducible := by
  have hfactors : equalPair.factors = [["c"], ["a", "b"]] := by cbv
  obtain ⟨-, hproduct, hparts⟩ := factors_irreducible equalPair equalPair_wellFormed (by decide)
  rw [hfactors] at hproduct hparts
  exact ⟨hfactors, hproduct, (hparts ["a", "b"] (by simp)).2.2⟩

end QuadraticPenalty.Constraint
