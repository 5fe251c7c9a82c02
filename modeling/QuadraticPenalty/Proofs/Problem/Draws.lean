import QuadraticPenalty.Problem.Random
import QuadraticPenalty.Proofs.Chance.Sample
import QuadraticPenalty.Proofs.Constraint.TwoInFour
import QuadraticPenalty.Proofs.Penalty.FreshLabels
import QuadraticPenalty.Proofs.Problem.Reachability

namespace QuadraticPenalty.RandomProblem

open TwoInFour

variable {σ : Type} {d : Dice σ} {s : Settings} {planted : Option (Array Bool)}
  {picked : List ℕ} {k l : Constraint} {seen : List Constraint} {n : ℕ}

lemma labelOf_inj : Function.Injective labelOf := Compilation.labelOf_injective "v"

section Clauses

structure Picks (n : ℕ) (picked : List ℕ) : Prop where
  length : picked.length = 4
  increasing : picked.Pairwise (· < ·)
  below : ∀ i ∈ picked, i < n

def Drawable (s : Settings) (planted : Option (Array Bool)) (k : Constraint) : Prop :=
  ∃ picked negated, Picks s.size picked ∧ negated.length = 4 ∧
    (∀ solution ∈ planted, ∃ pattern ∈ patterns, negated = negations solution picked pattern) ∧
    k = ofNegated (picked.map labelOf) negated s.vartype

lemma Picks.nodup_labels (h : Picks n picked) : (picked.map labelOf).Nodup :=
  List.Nodup.map labelOf_inj (h.increasing.imp ne_of_lt)

lemma Picks.length_labels (h : Picks n picked) : (picked.map labelOf).length = 4 :=
  (List.length_map _).trans h.length

lemma Drawable.wellFormed (h : Drawable s planted k) : k.WellFormed := by
  obtain ⟨picked, negated, hp, hn, -, rfl⟩ := h
  exact ofNegated_wellFormed hp.nodup_labels hp.length_labels hn

lemma Drawable.vartype (h : Drawable s planted k) : k.vartype = s.vartype := by
  obtain ⟨picked, negated, -, -, -, rfl⟩ := h
  rfl

lemma Drawable.name (h : Drawable s planted k) : k.name = label := by
  obtain ⟨picked, negated, -, -, -, rfl⟩ := h
  rfl

lemma Drawable.ext (hk : Drawable s planted k) (hl : Drawable s planted l) (hs : k.scope = l.scope)
    (hc : k.configurations = l.configurations) : k = l := by
  have hn := hk.name.trans hl.name.symm
  have ht := hk.vartype.trans hl.vartype.symm
  cases k
  cases l
  simp_all

lemma Drawable.same_iff (hk : Drawable s planted k) (hl : Drawable s planted l) :
    k.same l = true ↔ k = l := by
  rw [Constraint.same_iff]
  exact ⟨fun ⟨hs, hc, _⟩ => hk.ext hl hs hc, fun h => h ▸ ⟨rfl, rfl, rfl⟩⟩

lemma picks_sample (hd : d.Samples) (hs : 4 ≤ s.size) (c : σ) :
    Picks s.size (SortedSet.ofList (d.sample s.size 4 c).1).toList := by
  obtain ⟨hlength, hnodup, hlt⟩ := hd s.size 4 c hs
  have hmem : ∀ i, i ∈ (SortedSet.ofList (d.sample s.size 4 c).1).toList ↔ i ∈ (d.sample s.size 4 c).1 :=
    fun i => SortedSet.mem_ofList
  have hperm := (List.perm_ext_iff_of_nodup (SortedSet.toList_nodup _) hnodup).mpr hmem
  refine ⟨hperm.length_eq.trans hlength, ?_, fun i hi => hlt i ((hmem i).mp hi)⟩
  exact (SortedSet.ofList _).increasing.imp of_decide_eq_true

lemma drawNegated_spec (d : Dice σ) (planted : Option (Array Bool)) (hp : Picks n picked) (c : σ) :
    (drawNegated d planted picked c).1.length = 4 ∧ ∀ solution ∈ planted, ∃ pattern ∈ patterns,
      (drawNegated d planted picked c).1 = negations solution picked pattern := by
  cases planted with
  | none => exact ⟨(Array.length_toList).trans ((d.size_coins _ c).trans hp.length), by simp⟩
  | some solution =>
    have hmem : patterns.getD (d.upTo (patterns.length - 1) c).1.val [] ∈ patterns := by
      have hlt := (d.upTo (patterns.length - 1) c).1.isLt
      rw [List.getD_eq_getElem _ _ hlt]
      exact List.getElem_mem hlt
    have hlength := (mem_patterns.mp hmem).1
    refine ⟨?_, fun _ he => Option.some.inj he ▸ ⟨_, hmem, rfl⟩⟩
    change (negations solution picked _).length = 4
    rw [negations, List.length_zipWith, hp.length, hlength, Nat.min_self]

lemma drawClause_drawable (hd : d.Samples) (hs : 4 ≤ s.size) (planted : Option (Array Bool)) (c : σ) :
    ∃ k c', drawClause d s planted c = (.ok k, c') ∧ Drawable s planted k := by
  have hp := picks_sample hd hs c
  obtain ⟨hn, hfits⟩ := drawNegated_spec d planted hp (d.sample s.size 4 c).2
  refine ⟨_, _, Prod.ext (clause_eq_ok hp.nodup_labels hp.length_labels hn) rfl, _, _, hp, hn, hfits, rfl⟩

end Clauses

section Loop

structure Collected (s : Settings) (planted : Option (Array Bool)) (seen : List Constraint) : Prop where
  drawable : ∀ k ∈ seen, Drawable s planted k
  nodup : seen.Nodup
  length : seen.length ≤ s.clauses

def drawn (d : Dice σ) (s : Settings) (planted : Option (Array Bool)) : ℕ → σ → Finset Constraint
  | 0, _ => ∅
  | n + 1, c =>
    match drawClause d s planted c with
    | (.ok k, c) => insert k (drawn d s planted n c)
    | (.error _, c) => drawn d s planted n c

end Loop

end QuadraticPenalty.RandomProblem
