import QuadraticPenalty.Model.Ground
import QuadraticPenalty.Proofs.Model.Completion
import QuadraticPenalty.Proofs.Scalar.Least

namespace QuadraticPenalty

open Scalar Extended

namespace Assignment

variable {a : Assignment} {vs : List String} {xs : List ℤ} {v : String}

lemma exists_lookup_zip (h : xs.length = vs.length) (hv : v ∈ vs) :
    ∃ y ∈ xs, (vs.zip xs).lookup v = some y := by
  induction vs generalizing xs with
  | nil => cases hv
  | cons u vs ih =>
    obtain ⟨x, xs, rfl⟩ := List.exists_cons_of_length_eq_add_one h
    by_cases hvu : v = u
    · exact ⟨x, by simp, by simp [hvu]⟩
    · have hb : (v == u) = false := by simpa using hvu
      obtain ⟨y, hy, hlookup⟩ := ih (by simpa using h) ((List.mem_cons.mp hv).resolve_left hvu)
      refine ⟨y, List.mem_cons_of_mem x hy, ?_⟩
      simp only [List.zip_cons_cons, List.lookup, hb]
      exact hlookup

lemma setAll_of_not_mem (h : v ∉ vs) : a.setAll vs xs v = a v := by
  have hnone : (vs.zip xs).lookup v = none := by
    refine List.lookup_eq_none_iff.mpr fun q hq => ?_
    have hne : q.1 ≠ v := fun he => h (he ▸ (List.of_mem_zip hq).1)
    simpa using hne.symm
  simp [setAll, hnone]

lemma exists_setAll (h : xs.length = vs.length) (hv : v ∈ vs) :
    ∃ y ∈ xs, a.setAll vs xs v = some y := by
  obtain ⟨y, hy, hlookup⟩ := exists_lookup_zip h hv
  exact ⟨y, hy, by simp [setAll, hlookup]⟩

lemma setAll_map (f : String → ℤ) (hv : v ∈ vs) : a.setAll vs (vs.map f) v = some (f v) := by
  simp [setAll, lookup_zip_map vs f hv]

end Assignment

namespace QuadraticModel

variable {k : QuadraticModel ℚ} {pins : Assignment}

def pinned (k : QuadraticModel ℚ) (pins : Assignment) : List String :=
  k.labels.filter fun v => (pins v).isSome

lemma covers_setAll (hp : ∀ v ∈ k.labels, ∀ y, pins v = some y → y ∈ k.vartype.values) {x : List ℤ}
    (hx : k.vartype.IsTuple (k.freeVariables pins).length x) :
    (pins.setAll (k.freeVariables pins) x).Covers k.vartype k.labels := by
  intro v hv
  by_cases hfree : v ∈ k.freeVariables pins
  · obtain ⟨y, hy, hset⟩ := Assignment.exists_setAll (a := pins) hx.1 hfree
    exact ⟨y, hx.2 y hy, hset⟩
  · rw [Assignment.setAll_of_not_mem hfree]
    cases hpin : pins v with
    | none => exact absurd (List.mem_filter.mpr ⟨hv, by simp [hpin]⟩) hfree
    | some y => exact ⟨y, hp v hv y hpin, rfl⟩

lemma mem_energiesWith_pinned (hk : k.WellFormed)
    (hp : ∀ v ∈ k.labels, ∀ y, pins v = some y → y ∈ k.vartype.values) {e : ℚ} :
    e ∈ k.exact.energiesWith (k.pinned pins) pins ↔
      ∃ x ∈ k.vartype.tuples (k.freeVariables pins).length,
        k.value (pins.setAll (k.freeVariables pins) x).reading = e := by
  rw [mem_energiesWith hk]
  constructor
  · rintro ⟨x, hx, hpins, rfl⟩
    have hfree : x.Covers k.vartype (k.freeVariables pins) := fun v hv =>
      hx v (List.mem_filter.mp hv).1
    refine ⟨_, Vartype.mem_tuples.mpr hfree.isTuple, value_congr hk fun v hv => ?_⟩
    refine Assignment.reading_congr ?_
    by_cases hvf : v ∈ k.freeVariables pins
    · obtain ⟨y, -, hy⟩ := hx v hv
      rw [Assignment.setAll_map _ hvf, hy, Option.getD_some]
    · rw [Assignment.setAll_of_not_mem hvf]
      refine (hpins v (List.mem_filter.mpr ⟨hv, ?_⟩)).symm
      by_contra hnone
      exact hvf (List.mem_filter.mpr ⟨hv, by simpa using hnone⟩)
  · rintro ⟨x, hx, rfl⟩
    refine ⟨_, covers_setAll hp (Vartype.mem_tuples.mp hx), fun v hv => ?_, rfl⟩
    refine Assignment.setAll_of_not_mem fun hfree => ?_
    have hsome := (List.mem_filter.mp hv).2
    have hnone := (List.mem_filter.mp hfree).2
    cases hpin : pins v <;> simp [hpin] at hsome hnone

lemma leastEnergy_exact (pins : Assignment) (hk : k.WellFormed)
    (hp : ∀ v ∈ k.labels, ∀ y, pins v = some y → y ∈ k.vartype.values) :
    ∃ e, k.exact.leastEnergy pins = finite e ∧
      IsLeast (k.exact.energiesWith (k.pinned pins) pins) e := by
  let energies := (k.vartype.tuples (k.freeVariables pins).length).map fun x =>
    k.value (pins.setAll (k.freeVariables pins) x).reading
  have hmem : ∀ e, e ∈ energies ↔ e ∈ k.exact.energiesWith (k.pinned pins) pins := fun e => by
    rw [mem_energiesWith_pinned hk hp, List.mem_map]
  have hfold : k.exact.leastEnergy pins = minimum energies := by
    have hfree : k.exact.freeVariables pins = k.freeVariables pins := by
      rw [freeVariables, exact_labels, freeVariables]
    rw [leastEnergy, hfree, ← foldl_least, List.foldl_map, List.foldl_map]
    refine List.foldl_ext _ _ _ fun best x hx => ?_
    rw [energy_exact hk (covers_setAll hp (Vartype.mem_tuples.mp hx))]
  obtain ⟨e, he⟩ := energiesWith_nonempty (k.pinned pins) pins hk fun v hv hvk => by
    obtain ⟨y, hy⟩ := Option.isSome_iff_exists.mp (List.mem_filter.mp hv).2
    exact ⟨y, hp v hvk y hy, hy⟩
  obtain ⟨m, hm, hleast⟩ := exists_minimum (List.ne_nil_of_mem ((hmem e).mpr he))
  have hset : {x | x ∈ energies} = k.exact.energiesWith (k.pinned pins) pins := Set.ext hmem
  exact ⟨m, hfold.trans hm, hset ▸ hleast⟩

lemma groundEnergy_exact (hk : k.WellFormed) :
    ∃ e, k.exact.groundEnergy = finite e ∧ IsLeast (k.exact.energiesWith [] .empty) e := by
  have hpinned : k.pinned .empty = [] :=
    List.filter_eq_nil_iff.mpr fun v _ => by simp [Assignment.empty]
  have hground := leastEnergy_exact .empty hk fun v _ y hy => by cases hy
  rwa [hpinned] at hground

end QuadraticModel

end QuadraticPenalty
