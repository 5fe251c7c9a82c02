import QuadraticPenalty.Proofs.Grid.Answer
import QuadraticPenalty.Proofs.Model.Ground
import QuadraticPenalty.Proofs.Penalty.Additivity

namespace QuadraticPenalty

open Scalar Extended

/-- The oracles that may be relied on, and how far off their feasible energies may be. -/
inductive Oracle.Trusted : {σ : Type} → Oracle Extended σ → ℚ → Prop
  | sound {σ : Type} {ask : Oracle Extended σ} {δ : ℚ} (h : ask.Sound δ) : Trusted ask δ
  | none (δ : ℚ) : Trusted Oracle.none δ
  | grid {σ : Type} {g : Grid Extended} (hg : g.flaw = .none) (c : Chance Extended σ) :
      Trusted (g.oracle c) tolerance

lemma Oracle.Trusted.isSound {σ : Type} {ask : Oracle Extended σ} {δ : ℚ} (h : ask.Trusted δ) :
    ask.Sound δ := by
  cases h with
  | sound h => exact h
  | none => exact Oracle.none_sound δ
  | grid hg c => exact Grid.oracle_sound hg c

namespace Problem

def Satisfiable (p : Problem) : Prop :=
  ∃ a : Assignment, a.Covers p.vartype p.labels ∧ p.holds a = .ok true

def Solvable (p : Problem) : Prop :=
  ∃ a : Assignment, a.Covers p.vartype p.labels ∧
    ∀ c ∈ p.constraints, c.scope ≠ [] → c.holds a = .ok true

end Problem

namespace Compilation

variable {p : Problem}

lemma solvable_iff (hp : p.Coherent) : p.Solvable ↔
    ∃ a : Assignment, a.Covers p.vartype p.labels ∧ violations p.constraints a = 0 := by
  refine exists_congr fun a => and_congr_right fun ha => ?_
  rw [violations, List.countP_eq_zero]
  refine forall₂_congr fun c hc => ?_
  rw [Constraint.holds_eq (hp.covers ha hc)]
  simp

lemma satisfiable_iff (hp : p.Coherent) : p.Satisfiable ↔ p.Solvable ∧ NoContradiction p := by
  constructor
  · rintro ⟨a, ha, hholds⟩
    have hall := (hp.holds_iff ha).mp hholds
    refine ⟨⟨a, ha, fun c hc _ => ?_⟩, fun c hc hs => ?_⟩
    · rw [Constraint.holds_eq (hp.covers ha hc), hall c hc]
    · have hacc := hall c hc
      rwa [Constraint.tupleIn, hs] at hacc
  · rintro ⟨⟨a, ha, hsolves⟩, hz⟩
    refine ⟨a, ha, (hp.holds_iff ha).mpr fun c hc => ?_⟩
    by_cases hs : c.scope = []
    · rw [Constraint.tupleIn, hs]
      exact hz c hc hs
    · have hholds := hsolves c hc hs
      rw [Constraint.holds_eq (hp.covers ha hc)] at hholds
      exact Except.ok.inj hholds

lemma min_le_mul {γ : ℚ} {k n : ℕ} (hk : 0 < k) (hn : k ≤ n) : min γ (n * γ) ≤ k * γ := by
  have hk : (1 : ℚ) ≤ k := by exact_mod_cast hk
  have hn : (k : ℚ) ≤ n := by exact_mod_cast hn
  rcases le_or_gt 0 γ with h | h
  · exact (min_le_left _ _).trans (le_mul_of_one_le_left h hk)
  · exact (min_le_right _ _).trans (mul_le_mul_of_nonpos_right hn h.le)

/-- The ground energy tells whether the constraints that have variables can hold together. A
constraint without variables leaves no trace in it, even if nothing satisfies that constraint. -/
theorem run_groundEnergy {σ : Type} (ask : Oracle Extended σ) (s : Settings Extended) (p : Problem)
    (o : σ) (δ : ℚ) (m : QuadraticModel Extended) (hp : p.Reachable) (hs : s.flaw = none)
    (hδ : 0 ≤ δ) (hask : ask.Trusted δ) (h : (run ask s p o).result = .ok m) :
    (p.Satisfiable ↔ p.Solvable ∧ NoContradiction p) ∧
      ∃ g e, s.gap = finite g ∧ m.groundEnergy = finite e ∧
        IsLeast (m.energiesWith [] .empty) e ∧
        (p.Solvable → e ≤ p.constraints.length * δ) ∧
        (¬ p.Solvable → min (g - tolerance) (p.constraints.length * (g - tolerance)) ≤ e) ∧
        (p.constraints.length * δ < g - tolerance → (g - tolerance ≤ e ↔ ¬ p.Solvable)) := by
  have hcoherent := hp.coherent
  refine ⟨satisfiable_iff hcoherent, ?_⟩
  obtain ⟨g, r, k, hg, -, rfl, hk⟩ := sums_of_run hp hs hδ hask.isSound h
  obtain ⟨e, hground, hleast⟩ := QuadraticModel.groundEnergy_exact hk.wellFormed
  have hsolvable : p.Solvable → e ≤ p.constraints.length * δ := by
    intro hp
    obtain ⟨a, ha, hzero⟩ := (solvable_iff hcoherent).mp hp
    obtain ⟨y, -, hy, hle⟩ := hk.completion a ha hzero
    refine (hleast.2 ?_).trans hle
    exact (QuadraticModel.mem_energiesWith hk.wellFormed).mpr
      ⟨y, hk.vartype.symm ▸ hy, by simp, rfl⟩
  have hviolated : ¬ p.Solvable → 0 < p.constraints.length ∧
      min (g - tolerance) (p.constraints.length * (g - tolerance)) ≤ e := by
    intro hnot
    obtain ⟨x, hx, -, hxe⟩ := (QuadraticModel.mem_energiesWith hk.wellFormed).mp hleast.1
    rw [hk.vartype] at hx
    have hpos : 0 < violations p.constraints x := by
      by_contra hzero
      have hcovers : x.Covers p.vartype p.labels := fun v hv => hx v (hk.covers v hv)
      exact hnot ((solvable_iff hcoherent).mpr ⟨x, hcovers, by omega⟩)
    have hcount : violations p.constraints x ≤ p.constraints.length := List.countP_le_length
    have hlower := hk.lower x hx
    rw [hxe] at hlower
    exact ⟨hpos.trans_le hcount, (min_le_mul hpos hcount).trans hlower⟩
  refine ⟨g, e, hg, hground, hleast, hsolvable, fun hnot => (hviolated hnot).2, fun hsmall => ?_⟩
  constructor
  · intro hle hp
    exact absurd (hsolvable hp) (not_le.mpr (hsmall.trans_le hle))
  · intro hnot
    obtain ⟨hlen, hmin⟩ := hviolated hnot
    have hγ : 0 ≤ g - tolerance := (mul_nonneg (Nat.cast_nonneg _) hδ).trans hsmall.le
    have hone : (1 : ℚ) ≤ p.constraints.length := by exact_mod_cast hlen
    rwa [min_eq_left (le_mul_of_one_le_left hγ hone)] at hmin

def opposedSpin : Problem :=
  ((Problem.empty .spin).addConstraint ⟨"Constraint", .spin, ["a"], ⟨[[1]], by decide⟩⟩).addConstraint
    ⟨"Constraint", .spin, ["a"], ⟨[[-1]], by decide⟩⟩

lemma opposedSpin_reachable : opposedSpin.Reachable :=
  .add (.add (.empty .spin) (s := .configurations [[1]] ["a"]) trivial (by cbv))
    (s := .configurations [[-1]] ["a"]) trivial (by cbv)

lemma opposedSpin_not_solvable : ¬ opposedSpin.Solvable := by
  rintro ⟨a, ha, hsolves⟩
  have hlabels : opposedSpin.labels = ["a"] := by cbv
  rw [hlabels] at ha
  have hvalue : ∀ c ∈ opposedSpin.constraints, c.scope = ["a"] →
      [(a "a").getD 0] ∈ c.configurations := by
    intro c hc hs
    have hcovers : a.Covers opposedSpin.vartype c.scope := hs.symm ▸ ha
    have hholds := hsolves c hc (by simp [hs])
    rw [Constraint.holds_eq hcovers] at hholds
    have hacc := Constraint.accepts_iff.mp (Except.ok.inj hholds)
    rwa [Constraint.tupleIn, hs] at hacc
  have hup : [(a "a").getD 0] ∈ [[1]] := hvalue _ (List.mem_cons_self ..) rfl
  have hdown : [(a "a").getD 0] ∈ [[-1]] :=
    hvalue _ (List.mem_cons_of_mem _ (List.mem_cons_self ..)) rfl
  rw [List.mem_singleton] at hup hdown
  cases hup.symm.trans hdown

theorem run_groundEnergy_of_opposedSpin :
    ∃ m e, (run Oracle.none .default opposedSpin ()).result = .ok m ∧ m.groundEnergy = finite e ∧
      2 - tolerance ≤ e := by
  obtain ⟨m, hm⟩ : ∃ m, (run Oracle.none (.default : Settings Extended) opposedSpin ()).result =
      .ok m := by
    apply Exists.intro
    cbv
  obtain ⟨-, g, e, hg, he, -, -, -, hexact⟩ := run_groundEnergy Oracle.none .default opposedSpin () 0
    m opposedSpin_reachable (by decide) le_rfl (.none 0) hm
  obtain rfl : 2 = g := finite.inj hg
  refine ⟨m, e, hm, he, (hexact ?_).mpr opposedSpin_not_solvable⟩
  have htolerance : (tolerance : ℚ) = 1 / 1000000000 := rfl
  rw [mul_zero, htolerance]
  norm_num

def impossible : Problem :=
  ((Problem.empty .spin).addConstraint ⟨"Constraint", .spin, [], .empty⟩).addVariable "a"

theorem groundEnergy_of_impossible :
    impossible.Reachable ∧ ¬ impossible.Satisfiable ∧
      (Settings.default : Settings Extended).gap = finite 2 ∧
      ∃ m, (run Oracle.none .default impossible ()).result = .ok m ∧ m.groundEnergy = finite 0 := by
  refine ⟨?_, ?_, rfl, ?_⟩
  · exact .addVariable "a" (.add (.empty .spin) (s := .configurations [] []) trivial (by cbv))
  · rintro ⟨a, -, hholds⟩
    cases hholds
  · refine ⟨variablesModel impossible, ?_, ?_⟩
    · cbv
    · cbv

end Compilation

end QuadraticPenalty
