import QuadraticPenalty.Penalty.Oracle
import QuadraticPenalty.Proofs.Constraint.WellFormed

namespace QuadraticPenalty

open Scalar

structure Request.WellFormed {α : Type} (r : Request α) : Prop where
  nodes : r.graph.nodes.Nodup
  edges : ∀ e ∈ r.graph.edges, e.1 ∈ r.graph.nodes ∧ e.2 ∈ r.graph.nodes
  nodup : r.decision.Nodup
  decision : ∀ v ∈ r.decision, v ∈ r.graph.nodes
  nonempty : r.feasible.toList ≠ []
  tuples : ∀ c ∈ r.feasible, r.vartype.IsTuple r.decision.length c

def PenaltyModel.energiesAt (f : PenaltyModel Extended) (r : Request Extended) (c : List ℤ) : Set ℚ :=
  (f.model.toVartype r.vartype).energiesWith r.decision (.ofLists r.decision c)

/-- The least energy of a feasible configuration is at most `δ`, and that of any other tuple is at
least the gap of the answer. -/
structure PenaltyModel.Realizes (f : PenaltyModel Extended) (r : Request Extended) (δ : ℚ) : Prop where
  wellFormed : f.model.WellFormed
  isFinite : f.model.IsFinite
  labels : ∀ v ∈ f.model.labels, v ∈ r.graph.nodes
  feasible : ∀ c ∈ r.feasible, ∃ e, IsLeast (f.energiesAt r c) e ∧ 0 ≤ e ∧ e ≤ δ
  infeasible : ∀ c, r.vartype.IsTuple r.decision.length c → c ∉ r.feasible →
    ∃ e, IsLeast (f.energiesAt r c) e ∧ le f.gap (.finite e) = true

/-- Whatever it remembers, the oracle answers well-formed requests only with models that realize
them. -/
def Oracle.Sound {σ : Type} (ask : Oracle Extended σ) (δ : ℚ) : Prop :=
  ∀ (r : Request Extended) (s : σ) (found : PenaltyModel Extended), r.WellFormed →
    isFinite r.gap = true → (ask r s).1.penalty? = some found → found.Realizes r δ

lemma Oracle.none_sound (δ : ℚ) : Oracle.none.Sound δ := by
  intro r s found _ _ h
  cases h

lemma Graph.mem_of_mem_pairs {nodes : List String} {e : String × String}
    (h : e ∈ Graph.pairs nodes) : e.1 ∈ nodes ∧ e.2 ∈ nodes := by
  induction nodes with
  | nil => cases h
  | cons u us ih =>
    rcases List.mem_append.mp h with h | h
    · obtain ⟨v, hv, rfl⟩ := List.mem_map.mp h
      simp [hv]
    · obtain ⟨h₁, h₂⟩ := ih h
      simp [h₁, h₂]

end QuadraticPenalty
