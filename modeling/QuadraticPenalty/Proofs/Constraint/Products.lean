import QuadraticPenalty.Proofs.Constraint.Factors

/-! Constraints that are products of their projections, and groups of variables whose values may be
exchanged between any two solutions. -/

namespace QuadraticPenalty

lemma SortedSet.map_map {κ ι ν : Type} [Ordered κ] [Ordered ι] [Ordered ν] (s : SortedSet κ)
    (f : κ → ι) (g : ι → ν) : (s.map f).map g = s.map (g ∘ f) := by
  apply SortedSet.ext_mem
  simp

lemma SortedSet.map_congr {κ ι : Type} [Ordered κ] [Ordered ι] {s : SortedSet κ} {f g : κ → ι}
    (h : ∀ a ∈ s, f a = g a) : s.map f = s.map g := by
  apply SortedSet.ext_mem
  intro b
  simp only [SortedSet.mem_map]
  exact exists_congr fun a => and_congr_right fun ha => by rw [h a ha]

namespace Constraint

variable {c d : Constraint} {f g h : String → ℤ} {group block : List String}
  {blocks : List (List String)} {v : String}

/-- The blocks share out the variables, and a tuple is allowed exactly if its part on each block is
that of an allowed tuple. -/
def IsProduct (c : Constraint) (blocks : List (List String)) : Prop :=
  blocks.flatten.Perm c.scope ∧ ∀ x, c.vartype.IsTuple c.scope.length x →
    (c.accepts x = true ↔ ∀ b ∈ blocks, (c.onto b).accepts (restriction c.scope b x) = true)

def Irreducible (c : Constraint) : Prop :=
  ∀ left right : List String, left ≠ [] → right ≠ [] → ¬ c.IsProduct [left, right]

def Allows (c : Constraint) (f : String → ℤ) : Prop := c.scope.map f ∈ c.configurations

lemma Allows.congr (h : ∀ v ∈ c.scope, f v = g v) (hf : c.Allows f) : c.Allows g := by
  rwa [Allows, ← List.map_congr_left h]

lemma WellFormed.mem_values (hc : c.WellFormed) (hf : c.Allows f) (hv : v ∈ c.scope) :
    f v ∈ c.vartype.values :=
  (hc.isTuple hf).2 _ (List.mem_map_of_mem hv)

lemma WellFormed.exists_allows (hc : c.WellFormed) {y : List ℤ} (hy : y ∈ c.configurations) :
    ∃ f, y = c.scope.map f ∧ c.Allows f := by
  obtain ⟨f, rfl⟩ := Assignment.exists_map_of_length hc.1 (hc.isTuple hy).1
  exact ⟨f, rfl, hy⟩

lemma WellFormed.mem_of_allows (hc : c.WellFormed) (hs : c.scope = d.scope)
    (h : ∀ f, c.Allows f → d.Allows f) {y : List ℤ} (hy : y ∈ c.configurations) :
    y ∈ d.configurations := by
  obtain ⟨f, rfl, hf⟩ := hc.exists_allows hy
  rw [hs]
  exact h f hf

lemma WellFormed.same_of_allows (hc : c.WellFormed) (hd : d.WellFormed) (hs : c.scope = d.scope)
    (ht : c.vartype = d.vartype) (h : ∀ f, c.Allows f ↔ d.Allows f) : c.same d = true := by
  refine same_iff.mpr ⟨hs, SortedSet.ext_mem fun y => ?_, ht⟩
  exact ⟨hc.mem_of_allows hs fun f => (h f).mp, hd.mem_of_allows hs.symm fun f => (h f).mpr⟩

lemma WellFormed.exists_solution (hc : c.WellFormed) (hs : c.scope ≠ []) : ∃ f, c.Allows f := by
  obtain ⟨y, hy⟩ := List.exists_mem_of_ne_nil _ (hc.2.2 hs)
  obtain ⟨f, -, hf⟩ := hc.exists_allows (SortedSet.mem_def.mpr hy)
  exact ⟨f, hf⟩

lemma restriction_restriction {scope : List String} (hb : ∀ v ∈ block, v ∈ group) (y : List ℤ) :
    restriction group block (restriction scope group y) = restriction scope block y := by
  simp only [restriction, pick, List.map_map]
  refine List.map_congr_left fun v hv => ?_
  have hlt := List.idxOf_lt_length_of_mem (hb v hv)
  simp [hlt]

lemma onto_onto (hb : ∀ v ∈ block, v ∈ group) : (c.onto group).onto block = c.onto block := by
  simp only [onto, SortedSet.map_map]
  congr 1
  exact SortedSet.map_congr fun y _ => restriction_restriction hb y

lemma onto_self (hc : c.WellFormed) : c.onto c.scope = c := by
  have hid : c.configurations.map (restriction c.scope c.scope) = c.configurations := by
    apply SortedSet.ext_mem
    intro y
    rw [SortedSet.mem_map]
    constructor
    · rintro ⟨z, hz, rfl⟩
      rwa [restriction_self hc.1 (hc.isTuple hz).1]
    · exact fun hy => ⟨y, hy, restriction_self hc.1 (hc.isTuple hy).1⟩
  rw [onto, hid]

lemma allows_onto_iff (hc : c.WellFormed) (hg : ∀ v ∈ group, v ∈ c.scope) :
    (c.onto group).Allows f ↔ ∃ h, c.Allows h ∧ ∀ v ∈ group, h v = f v := by
  change group.map f ∈ c.configurations.map (restriction c.scope group) ↔ _
  rw [SortedSet.mem_map]
  constructor
  · rintro ⟨y, hy, he⟩
    obtain ⟨h, rfl, hh⟩ := hc.exists_allows hy
    rw [restriction_map h hg] at he
    exact ⟨h, hh, List.map_inj_left.mp he⟩
  · rintro ⟨h, hh, he⟩
    refine ⟨_, hh, ?_⟩
    rw [restriction_map h hg]
    exact List.map_inj_left.mpr he

lemma allows_onto_perm {vs : List String} (hc : c.WellFormed) (hvs : vs.Perm c.scope)
    {f : String → ℤ} : (c.onto vs).Allows f ↔ c.Allows f := by
  rw [allows_onto_iff hc fun v hv => hvs.subset hv]
  exact ⟨fun ⟨h, hh, he⟩ => hh.congr fun v hv => he v (hvs.symm.subset hv),
    fun hf => ⟨f, hf, fun _ _ => rfl⟩⟩

lemma isProduct_iff (hc : c.WellFormed) (hb : blocks.flatten.Perm c.scope) :
    c.IsProduct blocks ↔ ∀ f, (∀ b ∈ blocks, (c.onto b).Allows f) → c.Allows f := by
  have hsub : ∀ b ∈ blocks, ∀ v ∈ b, v ∈ c.scope := fun b hm v hv =>
    hb.subset (List.mem_flatten_of_mem hm hv)
  constructor
  · rintro ⟨-, hprod⟩ f hf
    have htuple : c.vartype.IsTuple c.scope.length (c.scope.map f) := by
      refine ⟨by simp, fun y hy => ?_⟩
      obtain ⟨v, hv, rfl⟩ := List.mem_map.mp hy
      obtain ⟨b, hm, hvb⟩ := List.mem_flatten.mp (hb.symm.subset hv)
      obtain ⟨h, hh, he⟩ := (allows_onto_iff hc (hsub b hm)).mp (hf b hm)
      exact he v hvb ▸ hc.mem_values hh hv
    refine accepts_iff.mp ((hprod _ htuple).mpr fun b hm => ?_)
    rw [restriction_map f (hsub b hm)]
    exact accepts_iff.mpr (hf b hm)
  · intro hprod
    refine ⟨hb, fun x hx => ?_⟩
    obtain ⟨f, rfl⟩ := Assignment.exists_map_of_length hc.1 hx.1
    have hparts : ∀ b ∈ blocks, ((c.onto b).accepts (restriction c.scope b (c.scope.map f)) = true ↔
        (c.onto b).Allows f) := fun b hm => by
      rw [restriction_map f (hsub b hm), accepts_iff]
      exact Iff.rfl
    rw [accepts_iff, forall₂_congr hparts]
    exact ⟨fun hf b hm => (allows_onto_iff hc (hsub b hm)).mpr ⟨f, hf, fun _ _ => rfl⟩, hprod f⟩

lemma disjoint_of_nodup_flatten {u : List String} (h : blocks.flatten.Nodup) (hu : u ∈ blocks)
    (hb : block ∈ blocks) (hne : u ≠ block) : u.Disjoint block := by
  have : Std.Symm (List.Disjoint (α := String)) := ⟨fun _ _ => List.Disjoint.symm⟩
  exact (List.nodup_flatten.mp h).2.forall hu hb hne

def graft (block : List String) (f g : String → ℤ) (v : String) : ℤ :=
  if v ∈ block then f v else g v

def Separates (c : Constraint) (block : List String) : Prop :=
  ∀ f g, c.Allows f → c.Allows g → c.Allows (graft block f g)

lemma IsProduct.separates (hc : c.WellFormed) (hp : c.IsProduct blocks) (hb : block ∈ blocks) :
    c.Separates block := by
  intro f g hf hg
  have hsub : ∀ b ∈ blocks, ∀ v ∈ b, v ∈ c.scope := fun b hm v hv =>
    hp.1.subset (List.mem_flatten_of_mem hm hv)
  refine (isProduct_iff hc hp.1).mp hp _ fun b hm => (allows_onto_iff hc (hsub b hm)).mpr ?_
  by_cases he : b = block
  · exact ⟨f, hf, fun v hv => (if_pos (he ▸ hv)).symm⟩
  · have hd := disjoint_of_nodup_flatten (hp.1.nodup_iff.mpr hc.1) hm hb he
    exact ⟨g, hg, fun v hv => (if_neg fun hvb => hd hv hvb).symm⟩

lemma Separates.onto (hc : c.WellFormed) (hg : ∀ v ∈ group, v ∈ c.scope) (h : c.Separates block) :
    (c.onto group).Separates block := by
  intro f g hf hg'
  obtain ⟨f', hf', hff⟩ := (allows_onto_iff hc hg).mp hf
  obtain ⟨g', hg', hgg⟩ := (allows_onto_iff hc hg).mp hg'
  refine (allows_onto_iff hc hg).mpr ⟨graft block f' g', h f' g' hf' hg', fun v hv => ?_⟩
  simp only [graft, hff v hv, hgg v hv]

end Constraint

end QuadraticPenalty
