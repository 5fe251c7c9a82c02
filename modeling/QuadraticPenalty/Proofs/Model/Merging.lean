import QuadraticPenalty.Model.Basic
import QuadraticPenalty.Proofs.Order.SortedMap
import QuadraticPenalty.Scalar.Extended
import QuadraticPenalty.Scalar.Rational

namespace QuadraticPenalty

open Scalar

instance : RightCommutative (HAdd.hAdd : Extended → Extended → Extended) where
  right_comm x a b := by
    change (x.add a).add b = (x.add b).add a
    cases x <;> cases a <;> cases b <;> simp [Extended.add, add_right_comm]

lemma Scalar.right_comm {α : Type} [Scalar α] [RightCommutative (HAdd.hAdd : α → α → α)] (x a b : α) :
    x + a + b = x + b + a := RightCommutative.right_comm x a b

namespace SortedMap

variable {κ α : Type} [Ordered κ] [Scalar α]

def addAt (m : SortedMap κ α) (e : κ × α) : SortedMap κ α :=
  m.update e.1 fun old => old.getD zero + e.2

def plus (m k : SortedMap κ α) : SortedMap κ α := k.entries.foldl addAt m

lemma mem_keys_addAll (es : List (κ × α)) (m : SortedMap κ α) (i : κ) :
    i ∈ (es.foldl addAt m).keys ↔ i ∈ es.map Prod.fst ∨ i ∈ m.keys := by
  induction es generalizing m with
  | nil => simp
  | cons e es ih =>
    rw [List.foldl_cons, ih, addAt, mem_keys_update, List.map_cons, List.mem_cons]
    tauto

lemma mem_keys_plus {m k : SortedMap κ α} {i : κ} : i ∈ (m.plus k).keys ↔ i ∈ m.keys ∨ i ∈ k.keys :=
  (mem_keys_addAll k.entries m i).trans Or.comm

lemma total_addAll (w : κ → ℚ) (es : List (κ × ℚ)) (m : SortedMap κ ℚ) :
    (es.foldl addAt m).total w = m.total w + (es.map fun e => e.2 * w e.1).sum := by
  induction es generalizing m with
  | nil => simp
  | cons e es ih =>
    have hadd : (m.addAt e).total w = m.total w + e.2 * w e.1 := total_update w m e.1 e.2
    rw [List.foldl_cons, ih, hadd, List.map_cons, List.sum_cons, add_assoc]

lemma total_plus (w : κ → ℚ) (m k : SortedMap κ ℚ) : (m.plus k).total w = m.total w + k.total w :=
  total_addAll w k.entries m

variable [RightCommutative (HAdd.hAdd : α → α → α)]

lemma addAt_right_comm (m : SortedMap κ α) (d e : κ × α) :
    (m.addAt d).addAt e = (m.addAt e).addAt d := by
  obtain ⟨k, a⟩ := d
  obtain ⟨l, b⟩ := e
  by_cases h : k = l
  · subst h
    simp only [addAt, update_update, Option.getD_some]
    congr 1
    funext old
    exact right_comm (old.getD zero) a b
  · exact update_comm m h _ _

instance : RightCommutative (addAt : SortedMap κ α → κ × α → SortedMap κ α) := ⟨addAt_right_comm⟩

lemma plus_right_comm (m k l : SortedMap κ α) : (m.plus k).plus l = (m.plus l).plus k := by
  simp only [plus, ← List.foldl_append]
  exact List.perm_append_comm.foldl_eq m

end SortedMap

namespace QuadraticModel

variable {α : Type} [Scalar α] {m k n a b : QuadraticModel α}

def plus (m k : QuadraticModel α) : QuadraticModel α :=
  ⟨m.vartype, m.linear.plus k.linear, m.couplings.plus k.couplings, m.offset + k.offset⟩

lemma addBiases_eq (es : List (String × α)) (m : QuadraticModel α) :
    es.foldl (fun m e => m.addBias e.1 e.2) m = { m with linear := es.foldl .addAt m.linear } := by
  induction es generalizing m with
  | nil => rfl
  | cons e es ih => exact ih _

lemma merge_eq_ok_iff : m.merge k = .ok n ↔ k.vartype = m.vartype ∧ n = m.plus k := by
  rw [merge]
  split
  · next h => simp [h]
  · next h =>
    rw [addBiases_eq, Except.ok.injEq]
    exact ⟨fun hn => ⟨not_not.mp h, hn.symm⟩, fun hn => hn.2.symm⟩

lemma merge_isOk (h : k.vartype = m.vartype) : ∃ n, m.merge k = .ok n :=
  ⟨_, merge_eq_ok_iff.mpr ⟨h, rfl⟩⟩

variable [RightCommutative (HAdd.hAdd : α → α → α)]

lemma plus_right_comm (m a b : QuadraticModel α) : (m.plus a).plus b = (m.plus b).plus a :=
  QuadraticModel.ext rfl (m.linear.plus_right_comm ..) (m.couplings.plus_right_comm ..)
    (right_comm m.offset a.offset b.offset)

lemma merge_right_comm (ha : m.merge a = .ok k) (hb : k.merge b = .ok n) :
    ∃ l, m.merge b = .ok l ∧ l.merge a = .ok n := by
  obtain ⟨hta, rfl⟩ := merge_eq_ok_iff.mp ha
  obtain ⟨htb, rfl⟩ := merge_eq_ok_iff.mp hb
  exact ⟨m.plus b, merge_eq_ok_iff.mpr ⟨htb, rfl⟩, merge_eq_ok_iff.mpr ⟨hta, plus_right_comm ..⟩⟩

end QuadraticModel

end QuadraticPenalty
