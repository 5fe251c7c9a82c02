import QuadraticPenalty.Constraint.Factors
import QuadraticPenalty.Proofs.Constraint.WellFormed

namespace QuadraticPenalty

lemma SortedSet.size_map {κ ι : Type} [Ordered κ] [Ordered ι] [DecidableEq κ] [DecidableEq ι]
    (s : SortedSet κ) (f : κ → ι) : (s.map f).size = (s.toList.toFinset.image f).card := by
  have h : (s.map f).toList.toFinset = s.toList.toFinset.image f := by
    ext b
    simp [← SortedSet.mem_def]
  rw [← h, List.toFinset_card_of_nodup (toList_nodup _), SortedSet.size]

namespace Constraint

variable {c : Constraint} {a : Assignment} {v : String} {scope group : List String}

lemma eq_of_pick_eq {n : ℕ} {part : List ℕ} {y z : List ℤ} (hy : y.length = n) (hz : z.length = n)
    (hpart : pick part y = pick part z) (hrest : pick (others n part) y = pick (others n part) z) :
    y = z := by
  apply List.ext_getElem (hy.trans hz.symm)
  intro i hi hj
  have hget : y.getD i 0 = z.getD i 0 := by
    by_cases hp : i ∈ part
    · exact List.map_inj_left.mp hpart i hp
    · exact List.map_inj_left.mp hrest i (List.mem_filter.mpr ⟨List.mem_range.mpr (hy ▸ hi), by simpa⟩)
  rw [List.getD_eq_getElem _ _ hi, List.getD_eq_getElem _ _ hj] at hget
  exact hget

lemma splitsAt_iff {n : ℕ} {allowed : SortedSet (List ℤ)} {part : List ℕ}
    (hlen : ∀ y ∈ allowed, y.length = n) : splitsAt n allowed part = true ↔
      ∀ y ∈ allowed, ∀ z ∈ allowed, ∃ x ∈ allowed,
        pick part x = pick part y ∧ pick (others n part) x = pick (others n part) z := by
  let s := allowed.toList.toFinset
  have hmem : ∀ w, w ∈ s ↔ w ∈ allowed := fun w => List.mem_toFinset
  let both : List ℤ → List ℤ × List ℤ := fun w => (pick part w, pick (others n part) w)
  let product := s.image (pick part) ×ˢ s.image (pick (others n part))
  have hinj : Set.InjOn both s := fun v hv w hw he =>
    eq_of_pick_eq (hlen v ((hmem v).mp hv)) (hlen w ((hmem w).mp hw)) (congrArg Prod.fst he)
      (congrArg Prod.snd he)
  have hcount : splitsAt n allowed part = true ↔ (s.image both).card = product.card := by
    rw [Finset.card_image_of_injOn hinj, Finset.card_product]
    simp only [splitsAt, beq_iff_eq, SortedSet.size_map]
    rw [List.toFinset_card_of_nodup allowed.toList_nodup, SortedSet.size]
  have hsub : s.image both ⊆ product := by
    intro e he
    obtain ⟨w, hw, rfl⟩ := Finset.mem_image.mp he
    exact Finset.mem_product.mpr ⟨Finset.mem_image_of_mem _ hw, Finset.mem_image_of_mem _ hw⟩
  rw [hcount]
  constructor
  · intro hcard y hy z hz
    have hpair : (pick part y, pick (others n part) z) ∈ s.image both := by
      rw [Finset.eq_of_subset_of_card_le hsub hcard.ge]
      exact Finset.mem_product.mpr ⟨Finset.mem_image_of_mem _ ((hmem y).mpr hy),
        Finset.mem_image_of_mem _ ((hmem z).mpr hz)⟩
    obtain ⟨x, hx, he⟩ := Finset.mem_image.mp hpair
    exact ⟨x, (hmem x).mp hx, congrArg Prod.fst he, congrArg Prod.snd he⟩
  · intro hall
    refine congrArg Finset.card (hsub.antisymm fun e he => ?_)
    obtain ⟨hleft, hright⟩ := Finset.mem_product.mp he
    obtain ⟨y, hy, hye⟩ := Finset.mem_image.mp hleft
    obtain ⟨z, hz, hze⟩ := Finset.mem_image.mp hright
    obtain ⟨x, hx, hxy, hxz⟩ := hall y ((hmem y).mp hy) z ((hmem z).mp hz)
    exact Finset.mem_image.mpr ⟨x, (hmem x).mpr hx, Prod.ext (hxy.trans hye) (hxz.trans hze)⟩

lemma mem_of_splitsAt {n : ℕ} {allowed : SortedSet (List ℤ)} {part : List ℕ}
    (hlen : ∀ y ∈ allowed, y.length = n) (h : splitsAt n allowed part = true) {x y z : List ℤ}
    (hx : x.length = n) (hy : y ∈ allowed) (hz : z ∈ allowed) (hpart : pick part y = pick part x)
    (hrest : pick (others n part) z = pick (others n part) x) : x ∈ allowed := by
  obtain ⟨w, hw, hwy, hwz⟩ := (splitsAt_iff hlen).mp h y hy z hz
  rw [← eq_of_pick_eq (hlen w hw) hx (hwy.trans hpart) (hwz.trans hrest)]
  exact hw

lemma mem_choose_iff {β : Type} {s as : List β} {k : ℕ} :
    s ∈ choose as k ↔ s.Sublist as ∧ s.length = k := by
  induction as generalizing s k with
  | nil =>
    cases k with
    | zero => simp [choose]
    | succ k =>
      simp only [choose, List.not_mem_nil, List.sublist_nil, false_iff, not_and]
      rintro rfl
      simp
  | cons a as ih =>
    cases k with
    | zero =>
      simp only [choose, List.mem_singleton, List.length_eq_zero_iff]
      exact ⟨fun h => ⟨h ▸ List.nil_sublist _, h⟩, And.right⟩
    | succ k =>
      simp only [choose, List.mem_append, List.mem_map, ih]
      constructor
      · rintro (⟨r, ⟨hr, hk⟩, rfl⟩ | ⟨hs, hk⟩)
        · exact ⟨hr.cons_cons a, by simp [hk]⟩
        · exact ⟨hs.cons a, hk⟩
      · rintro ⟨hs, hk⟩
        rcases hs with _ | ⟨_, hs⟩ | ⟨_, hs⟩
        · exact .inr ⟨hs, hk⟩
        · exact .inl ⟨_, ⟨hs, by simpa using hk⟩, rfl⟩

lemma splitOf_eq_some {n : ℕ} {allowed : SortedSet (List ℤ)} {part : List ℕ}
    (h : splitOf n allowed = some part) : splitsAt n allowed part = true ∧
      part.Sublist (List.range n) ∧ 1 ≤ part.length ∧ part.length ≤ n / 2 := by
  obtain ⟨k, hk, h⟩ := List.exists_of_findSome?_eq_some h
  obtain ⟨hsub, hlen⟩ := mem_choose_iff.mp (List.mem_of_find?_eq_some h)
  have hk := List.mem_range'_1.mp hk
  exact ⟨List.find?_some h, hsub, by omega, by omega⟩

lemma others_perm {n : ℕ} {part : List ℕ} (h : part.Sublist (List.range n)) :
    (part ++ others n part).Perm (List.range n) := by
  have hpart : ((List.range n).filter fun i => decide (i ∈ part)).Perm part := by
    refine (List.perm_ext_iff_of_nodup (List.nodup_range.filter _)
      (h.nodup List.nodup_range)).mpr fun i => ?_
    simp only [List.mem_filter, decide_eq_true_eq, and_iff_right_iff_imp]
    exact fun hi => h.subset hi
  refine (hpart.symm.append_right _).trans ?_
  have hothers : others n part = (List.range n).filter fun i => !decide (i ∈ part) := by
    simp [others]
  rw [hothers]
  exact List.filter_append_perm _ _

def labelsAt (scope : List String) (part : List ℕ) : List String :=
  part.map fun p => scope.getD p ""

def restriction (scope group : List String) (y : List ℤ) : List ℤ :=
  pick (group.map fun v => scope.idxOf v) y

lemma restriction_self (hn : scope.Nodup) {y : List ℤ} (hy : y.length = scope.length) :
    restriction scope scope y = y := by
  rw [restriction, pick, List.map_map]
  exact map_getD_idxOf hn hy fun _ => 0

lemma restriction_map (f : String → ℤ) (h : ∀ v ∈ group, v ∈ scope) :
    restriction scope group (scope.map f) = group.map f := by
  simp only [restriction, pick, List.map_map]
  refine List.map_congr_left fun v hv => ?_
  have hlt := List.idxOf_lt_length_of_mem (h v hv)
  simp [List.getD_eq_getElem?_getD, hlt]

lemma labelsAt_perm {n : ℕ} {part : List ℕ} (hn : n = scope.length)
    (h : part.Sublist (List.range n)) :
    (labelsAt scope part ++ labelsAt scope (others n part)).Perm scope := by
  have hperm := (others_perm h).map fun p => scope.getD p ""
  have hall : (List.range n).map (fun p => scope.getD p "") = scope := by
    subst hn
    apply List.ext_getElem (by simp)
    intro i hi hj
    simp [hj]
  rw [hall, List.map_append] at hperm
  exact hperm

lemma restriction_labelsAt (hn : scope.Nodup) {part : List ℕ} (hpart : ∀ p ∈ part, p < scope.length)
    (hg : ∀ v ∈ group, v ∈ labelsAt scope part) (y : List ℤ) :
    restriction (labelsAt scope part) group (pick part y) = restriction scope group y := by
  simp only [restriction, pick, List.map_map]
  refine List.map_congr_left fun v hv => ?_
  have hlt := List.idxOf_lt_length_of_mem (hg v hv)
  have hi : (labelsAt scope part).idxOf v < part.length := by simpa [labelsAt] using hlt
  have hp := hpart _ (List.getElem_mem hi)
  have hget : scope[part[(labelsAt scope part).idxOf v]] = v := by
    have hv := List.getElem_idxOf hlt
    simp only [labelsAt, List.getElem_map] at hv
    exact (List.getD_eq_getElem _ _ hp).symm.trans hv
  have hidx : scope.idxOf v = part[(labelsAt scope part).idxOf v] := by
    conv_lhs => rw [← hget]
    exact hn.idxOf_getElem _ hp
  simp [hidx, hi]

lemma factorsWithin_perm (depth : ℕ) (allowed : SortedSet (List ℤ)) (scope : List String) :
    (factorsWithin depth allowed scope).flatten.Perm scope := by
  induction depth generalizing allowed scope with
  | zero => simp [factorsWithin]
  | succ depth ih =>
    unfold factorsWithin
    split
    · simp
    · next part hpart =>
      obtain ⟨-, hsub, -, -⟩ := splitOf_eq_some hpart
      rw [List.flatten_append]
      exact ((ih _ _).append (ih _ _)).trans (labelsAt_perm rfl hsub)

lemma factorsWithin_ne_nil (depth : ℕ) (allowed : SortedSet (List ℤ)) (hs : scope ≠ []) :
    ∀ g ∈ factorsWithin depth allowed scope, g ≠ [] := by
  induction depth generalizing allowed scope with
  | zero => simpa [factorsWithin] using hs
  | succ depth ih =>
    unfold factorsWithin
    split
    · simpa using hs
    · next part hpart =>
      obtain ⟨-, hsub, hone, hhalf⟩ := splitOf_eq_some hpart
      have hlen := (others_perm hsub).length_eq
      have hpos := List.length_pos_iff.mpr hs
      rw [List.length_append, List.length_range] at hlen
      have hleft : labelsAt scope part ≠ [] := by
        apply List.ne_nil_of_length_pos
        simp only [labelsAt, List.length_map]
        omega
      have hright : labelsAt scope (others scope.length part) ≠ [] := by
        apply List.ne_nil_of_length_pos
        simp only [labelsAt, List.length_map]
        omega
      intro g hg
      rcases List.mem_append.mp hg with hg | hg
      exacts [ih _ hleft g hg, ih _ hright g hg]

lemma mem_iff_restriction_scope (allowed : SortedSet (List ℤ)) (hn : scope.Nodup)
    (hlen : ∀ y ∈ allowed, y.length = scope.length) {x : List ℤ} (hx : x.length = scope.length) :
    x ∈ allowed ↔ ∀ g ∈ [scope],
      ∃ y ∈ allowed, restriction scope g y = restriction scope g x := by
  simp only [List.mem_singleton, forall_eq, restriction_self hn hx]
  constructor
  · exact fun h => ⟨x, h, restriction_self hn hx⟩
  · rintro ⟨y, hy, he⟩
    rwa [← he, restriction_self hn (hlen y hy)]

lemma mem_iff_restrictions (depth : ℕ) (allowed : SortedSet (List ℤ)) (hn : scope.Nodup)
    (hlen : ∀ y ∈ allowed, y.length = scope.length) {x : List ℤ} (hx : x.length = scope.length) :
    x ∈ allowed ↔ ∀ g ∈ factorsWithin depth allowed scope,
      ∃ y ∈ allowed, restriction scope g y = restriction scope g x := by
  induction depth generalizing allowed scope x with
  | zero => exact mem_iff_restriction_scope allowed hn hlen hx
  | succ depth ih =>
    unfold factorsWithin
    split
    · exact mem_iff_restriction_scope allowed hn hlen hx
    · next part hpart =>
      obtain ⟨hsplit, hsub, -, -⟩ := splitOf_eq_some hpart
      have hperm := labelsAt_perm rfl hsub
      obtain ⟨hleft, hright, -⟩ := List.nodup_append.mp (hperm.nodup_iff.mpr hn)
      -- each side of the split, seen as a set of tuples over its own labels
      have hside : ∀ q : List ℕ, (∀ p ∈ q, p < scope.length) → (labelsAt scope q).Nodup →
          ((∃ y ∈ allowed, pick q y = pick q x) ↔
            ∀ g ∈ factorsWithin depth (allowed.map (pick q)) (labelsAt scope q),
              ∃ y ∈ allowed, restriction scope g y = restriction scope g x) := by
        intro q hq hqn
        have hmap : ∀ z ∈ allowed.map (pick q), z.length = (labelsAt scope q).length := by
          intro z hz
          obtain ⟨y, -, rfl⟩ := SortedSet.mem_map.mp hz
          simp [pick, labelsAt]
        have hih := ih (allowed.map (pick q)) hqn hmap (x := pick q x) (by simp [pick, labelsAt])
        rw [SortedSet.mem_map] at hih
        refine hih.trans (forall₂_congr fun g hg => ?_)
        have hgroup : ∀ v ∈ g, v ∈ labelsAt scope q := fun v hv =>
          (factorsWithin_perm _ _ _).subset (List.mem_flatten_of_mem hg hv)
        simp only [SortedSet.mem_map, exists_exists_and_eq_and, restriction_labelsAt hn hq hgroup]
      have hpos : ∀ p ∈ part ++ others scope.length part, p < scope.length := fun p hp =>
        List.mem_range.mp ((others_perm hsub).subset hp)
      have hl := hside part (fun p hp => hpos p (by simp [hp])) hleft
      have hr := hside _ (fun p hp => hpos p (by simp [hp])) hright
      constructor
      · intro hmem g hg
        rcases List.mem_append.mp hg with hg | hg
        exacts [hl.mp ⟨x, hmem, rfl⟩ g hg, hr.mp ⟨x, hmem, rfl⟩ g hg]
      · intro hall
        obtain ⟨y, hy, hpy⟩ := hl.mpr fun g hg => hall g (List.mem_append.mpr (.inl hg))
        obtain ⟨z, hz, hrz⟩ := hr.mpr fun g hg => hall g (List.mem_append.mpr (.inr hg))
        exact mem_of_splitsAt hlen hsplit hx hy hz hpy hrz

lemma position_eq (h : v ∈ c.scope) : c.position v = some (c.scope.idxOf v) := by
  rw [position, List.findIdx?_eq_some_iff_findIdx_eq]
  exact ⟨List.idxOf_lt_length_of_mem h, rfl⟩

lemma mapM_positionOf_cases (c : Constraint) (group : List String) : group.mapM c.positionOf =
    match group.find? fun v => decide (v ∉ c.scope) with
    | some u => .error (.unknownVariable u (.constraint c.name))
    | none => .ok (group.map fun v => c.scope.idxOf v) := by
  rw [mapM_eq_find? (fun v => decide (v ∉ c.scope)) (fun v => .unknownVariable v (.constraint c.name))
    (fun v => c.scope.idxOf v) fun v => ?_]
  · cases group.find? fun v => decide (v ∉ c.scope) <;> rfl
  · by_cases hv : v ∈ c.scope
    · rw [positionOf_eq_ok_iff.mpr (position_eq hv), decide_eq_false (not_not.mpr hv)]
      rfl
    · have hnone : c.position v = none := by
        rw [position, List.findIdx?_eq_none_iff]
        exact fun u hu => beq_eq_false_iff_ne.mpr fun he => hv (he ▸ hu)
      rw [positionOf, hnone, decide_eq_true hv]
      rfl

lemma find?_unknown_eq_none_iff :
    (group.find? fun v => decide (v ∉ c.scope)) = none ↔ ∀ v ∈ group, v ∈ c.scope := by
  simp only [List.find?_eq_none, decide_eq_true_eq, not_not]

lemma mapM_positionOf (h : ∀ v ∈ group, v ∈ c.scope) :
    group.mapM c.positionOf = .ok (group.map fun v => c.scope.idxOf v) := by
  rw [mapM_positionOf_cases, find?_unknown_eq_none_iff.mpr h]

def onto (c : Constraint) (group : List String) : Constraint :=
  { c with scope := group, configurations := c.configurations.map (restriction c.scope group) }

lemma WellFormed.onto (hc : c.WellFormed) (hn : group.Nodup) (h : ∀ v ∈ group, v ∈ c.scope) :
    (c.onto group).WellFormed := by
  refine ⟨hn, fun z hz => ?_, fun hne => ?_⟩
  · obtain ⟨y, hy, rfl⟩ := SortedSet.mem_map.mp hz
    obtain ⟨hlen, hval⟩ := hc.isTuple hy
    refine ⟨by simp [Constraint.onto, restriction, pick], fun x hx => ?_⟩
    simp only [restriction, pick, List.map_map, List.mem_map] at hx
    obtain ⟨v, hv, rfl⟩ := hx
    have hlt : c.scope.idxOf v < y.length := hlen ▸ List.idxOf_lt_length_of_mem (h v hv)
    simp only [Function.comp_apply, List.getD_eq_getElem _ _ hlt]
    exact hval _ (List.getElem_mem _)
  · obtain ⟨v, hv⟩ := List.exists_mem_of_ne_nil _ hne
    obtain ⟨y, hy⟩ := List.exists_mem_of_ne_nil _ (hc.2.2 (List.ne_nil_of_mem (h v hv)))
    exact List.ne_nil_of_mem (SortedSet.mem_def.mp (SortedSet.mem_map.mpr ⟨y, hy, rfl⟩))

lemma project_eq_ok (hc : c.WellFormed) (hn : group.Nodup) (h : ∀ v ∈ group, v ∈ c.scope) :
    c.project group = .ok (c.onto group) := by
  unfold project
  rw [mapM_positionOf h]
  exact checked_eq_ok_iff.mpr ⟨rfl, hc.onto hn h⟩

lemma factors_perm (c : Constraint) : c.factors.flatten.Perm c.scope := factorsWithin_perm _ _ _

lemma mem_scope_of_mem_factors (hg : group ∈ c.factors) (hv : v ∈ group) : v ∈ c.scope :=
  c.factors_perm.subset (List.mem_flatten_of_mem hg hv)

lemma nodup_of_mem_factors (hc : c.WellFormed) (hg : group ∈ c.factors) : group.Nodup :=
  (List.nodup_flatten.mp (c.factors_perm.nodup_iff.mpr hc.1)).1 group hg

/-- No configuration has the values that the assignment gives to the group. -/
def misses (c : Constraint) (a : Assignment) (group : List String) : Bool :=
  !(c.onto group).accepts ((c.onto group).tupleIn a)

lemma accepts_iff_misses (hc : c.WellFormed) (h : a.Covers c.vartype c.scope) :
    c.accepts (c.tupleIn a) = true ↔ ∀ g ∈ c.factors, c.misses a g = false := by
  have hlen : ∀ y ∈ c.configurations, y.length = c.scope.length := fun y hy => (hc.isTuple hy).1
  rw [accepts_iff, mem_iff_restrictions c.arity c.configurations hc.1 hlen (tupleIn_isTuple h).1]
  refine forall₂_congr fun g hg => ?_
  have hmap : restriction c.scope g (c.tupleIn a) = (c.onto g).tupleIn a :=
    restriction_map _ fun v hv => mem_scope_of_mem_factors hg hv
  rw [misses, Bool.not_eq_false', accepts_iff, hmap]
  exact SortedSet.mem_map.symm

lemma countP_misses_eq_zero_iff (hc : c.WellFormed) (h : a.Covers c.vartype c.scope) :
    c.factors.countP (c.misses a) = 0 ↔ c.accepts (c.tupleIn a) = true := by
  rw [accepts_iff_misses hc h, List.countP_eq_zero]
  exact forall₂_congr fun g _ => Bool.eq_false_iff.symm

end Constraint

end QuadraticPenalty
