import QuadraticPenalty.Constraint.Cursor
import QuadraticPenalty.Proofs.Constraint.Factors

namespace QuadraticPenalty.Constraint

open Ordered

section Choose

variable {β : Type} {as : List ℕ} {a m n k : ℕ} {s : List ℕ}

lemma length_choose (as : List β) (k : ℕ) : (choose as k).length = as.length.choose k := by
  induction as generalizing k with
  | nil => cases k <;> rfl
  | cons a as ih =>
    cases k with
    | zero => simp [choose]
    | succ k => simp [choose, ih, Nat.choose_succ_succ]

lemma choose_eq_nil {as : List β} (h : as.length < k) : choose as k = [] :=
  List.length_eq_zero_iff.mp ((length_choose as k).trans (Nat.choose_eq_zero_of_lt h))

lemma choose_increasing (has : as.Pairwise (· < ·)) (k : ℕ) :
    (choose as k).Pairwise fun s t => before s t = true := by
  induction as generalizing k with
  | nil => cases k <;> simp [choose]
  | cons a as ih =>
    obtain ⟨ha, has⟩ := List.pairwise_cons.mp has
    cases k with
    | zero => simp [choose]
    | succ k =>
      refine List.pairwise_append.mpr ⟨?_, ih has (k + 1), fun s hs t ht => ?_⟩
      · exact List.pairwise_map.mpr ((ih has k).imp fun h => beforeList_cons_iff.mpr (.inr ⟨rfl, h⟩))
      · obtain ⟨s, -, rfl⟩ := List.mem_map.mp hs
        obtain ⟨hsub, hlen⟩ := mem_choose_iff.mp ht
        obtain ⟨b, t, rfl⟩ := List.exists_cons_of_length_eq_add_one hlen
        exact beforeList_cons_iff.mpr (.inl (decide_eq_true (ha b (hsub.subset (by simp)))))

lemma mem_combinations : s ∈ combinations n k ↔
    s.length = k ∧ s.Pairwise (· < ·) ∧ ∀ i ∈ s, i < n := by
  rw [combinations, mem_choose_iff]
  constructor
  · rintro ⟨hsub, hlen⟩
    exact ⟨hlen, List.pairwise_lt_range.sublist hsub, fun i hi => List.mem_range.mp (hsub.subset hi)⟩
  · rintro ⟨hlen, hincreasing, hbelow⟩
    have hsub : s.Subperm (List.range n) :=
      List.subperm_of_subset (hincreasing.imp ne_of_lt) fun i hi => List.mem_range.mpr (hbelow i hi)
    exact ⟨List.sublist_of_subperm_of_pairwise hsub hincreasing List.pairwise_lt_range, hlen⟩

def following (n : ℕ) : List ℕ → Option (List ℕ)
  | [] => none
  | d :: ds =>
    match following n ds with
    | some es => some (d :: es)
    | none => if d + ds.length + 1 < n then some (List.range' (d + 1) (ds.length + 1)) else none

lemma choose_isChain (h : k ≤ m) :
    (choose (List.range' a m) k).IsChain (fun s t => following (a + m) s = some t) ∧
      (choose (List.range' a m) k).head? = some (List.range' a k) ∧
      ∃ last, (choose (List.range' a m) k).getLast? = some last ∧ following (a + m) last = none := by
  induction m generalizing a k with
  | zero =>
    obtain rfl : k = 0 := by omega
    exact ⟨.singleton _, rfl, [], rfl, rfl⟩
  | succ m ih =>
    cases k with
    | zero => exact ⟨.singleton _, rfl, [], rfl, rfl⟩
    | succ k =>
      have hbound : a + 1 + m = a + (m + 1) := by omega
      obtain ⟨hchain, hhead, last, hlast, hnone⟩ := ih (a := a + 1) (k := k) (by omega)
      rw [hbound] at hchain hnone
      -- those that begin with `a`
      have hfirst : ((choose (List.range' (a + 1) m) k).map (a :: ·)).IsChain
          fun s t => following (a + (m + 1)) s = some t :=
        List.isChain_map_of_isChain (a :: ·) (fun s t hst => by simp [following, hst]) hchain
      have hlen : last.length = k := (mem_choose_iff.mp (List.mem_of_getLast? hlast)).2
      rw [List.range'_succ, choose, List.head?_append, List.getLast?_append, List.head?_map, hhead,
        List.getLast?_map, hlast]
      by_cases hk : k + 1 ≤ m
      · obtain ⟨hchain', hhead', last', hlast', hnone'⟩ := ih (a := a + 1) (k := k + 1) hk
        rw [hbound] at hchain' hnone'
        refine ⟨List.isChain_append.mpr ⟨hfirst, hchain', fun s hs t ht => ?_⟩, rfl, last', ?_, hnone'⟩
        · rw [List.getLast?_map, hlast] at hs
          rw [hhead'] at ht
          obtain rfl := Option.mem_some_iff.mp hs
          obtain rfl := Option.mem_some_iff.mp ht
          simp [following, hnone, hlen, show a + k + 1 < a + (m + 1) by omega]
        · rw [hlast']
          rfl
      · have hnil : choose (List.range' (a + 1) m) (k + 1) = [] := choose_eq_nil (by simp; omega)
        rw [hnil, List.append_nil]
        refine ⟨hfirst, rfl, a :: last, rfl, ?_⟩
        simp [following, hnone, hlen, show ¬ a + k + 1 < a + (m + 1) by omega]

end Choose

namespace Cursor

variable {n k : ℕ} {d i : ℕ} {s ds : List ℕ} {l : List (List ℕ)} {c : Cursor}

lemma foldl_follow_cons (d : ℕ) (s : List ℕ) (i m : ℕ) :
    (List.range' (i + 2) m).foldl follow (d :: s) = d :: (List.range' (i + 1) m).foldl follow s := by
  induction m generalizing i s with
  | zero => rfl
  | succ m ih =>
    rw [List.range'_succ, List.range'_succ, List.foldl_cons, List.foldl_cons]
    exact ih (follow s (i + 1)) (i + 1)

lemma closeUp_cons (d : ℕ) (s : List ℕ) (i : ℕ) : closeUp (d :: s) (i + 2) = d :: closeUp s (i + 1) := by
  rw [closeUp, List.length_cons, Nat.add_sub_add_right, foldl_follow_cons, closeUp]

lemma closeUp_one (d : ℕ) (s : List ℕ) : closeUp (d :: s) 1 = List.range' d (s.length + 1) := by
  rw [closeUp, List.length_cons, Nat.add_sub_cancel]
  induction s generalizing d with
  | nil => rfl
  | cons e s ih =>
    rw [List.length_cons, List.range'_succ, List.foldl_cons, List.range'_succ, ← ih (d + 1)]
    exact foldl_follow_cons d ((d + 1) :: s) 0 s.length

lemma moveUp_succ (n : ℕ) (s : List ℕ) (i : ℕ) : moveUp n s (i + 1) =
    if s.getD i 0 < n - s.length + i then some (closeUp (s.set i (s.getD i 0 + 1)) (i + 1))
    else moveUp n s i := rfl

lemma moveUp_cons (h : ds.length < n) (i : ℕ) : moveUp n (d :: ds) (i + 1) =
    match moveUp n ds i with
    | some es => some (d :: es)
    | none => moveUp n (d :: ds) 1 := by
  induction i with
  | zero => rfl
  | succ i ih =>
    have hroom : n - (d :: ds).length + (i + 1) = n - ds.length + i := by
      rw [List.length_cons]
      omega
    rw [moveUp_succ n (d :: ds), hroom, moveUp_succ n ds, List.getD_cons_succ, List.set_cons_succ,
      closeUp_cons, ih]
    split <;> rfl

lemma moveUp_eq_following (h : s.length ≤ n) : moveUp n s s.length = following n s := by
  induction s with
  | nil => rfl
  | cons d ds ih =>
    have hroom : d < n - (ds.length + 1) + 0 ↔ d + ds.length + 1 < n := by omega
    rw [List.length_cons, moveUp_cons h, ih (Nat.le_of_succ_le h), following]
    cases following n ds with
    | some es => rfl
    | none =>
      rw [moveUp_succ, List.getD_cons_zero, List.set_cons_zero, closeUp_one, List.length_cons]
      simp only [moveUp, hroom]

inductive Shows : Cursor → List (List ℕ) → Prop
  | nil {c d : Cursor} : c.next = (none, d) → Shows c []
  | cons {c d : Cursor} {s : List ℕ} {l : List (List ℕ)} : c.next = (some s, d) → Shows d l → Shows c (s :: l)

lemma Shows.unique {l' : List (List ℕ)} (h : c.Shows l) (h' : c.Shows l') : l = l' := by
  induction h generalizing l' with
  | nil hnext =>
    cases h' with
    | nil => rfl
    | cons hnext' => cases (Prod.mk.inj (hnext.symm.trans hnext')).1
  | cons hnext _ ih =>
    cases h' with
    | nil hnext' => cases (Prod.mk.inj (hnext.symm.trans hnext')).1
    | cons hnext' hrest =>
      obtain ⟨hs, rfl⟩ := Prod.mk.inj (hnext.symm.trans hnext')
      rw [Option.some.inj hs, ih hrest]

lemma shows_nil (n : ℕ) : Shows ⟨n, none⟩ [] := .nil rfl

lemma shows_of_isChain (hlen : ∀ t ∈ s :: l, t.length ≤ n)
    (hchain : (s :: l).IsChain fun s t => following n s = some t)
    (hlast : ∀ t ∈ (s :: l).getLast?, following n t = none) : Shows ⟨n, some s⟩ (s :: l) := by
  have hmove : moveUp n s s.length = following n s := moveUp_eq_following (hlen s (by simp))
  induction l generalizing s with
  | nil =>
    refine .cons rfl ?_
    change Shows ⟨n, moveUp n s s.length⟩ []
    rw [hmove, hlast s rfl]
    exact shows_nil n
  | cons t l ih =>
    obtain ⟨hstep, hchain⟩ := List.isChain_cons_cons.mp hchain
    refine .cons rfl ?_
    change Shows ⟨n, moveUp n s s.length⟩ (t :: l)
    rw [hmove, hstep]
    exact ih (fun u hu => hlen u (by simp [hu])) hchain (fun u hu => hlast u (by simpa using hu))
      (moveUp_eq_following (hlen t (by simp)))

lemma start_shows (n k : ℕ) : (start n k).Shows (combinations n k) := by
  rw [start, combinations]
  split
  · next h =>
    obtain ⟨hchain, hhead, last, hlast, hnone⟩ := choose_isChain (a := 0) h
    simp only [Nat.zero_add, ← List.range_eq_range'] at hchain hhead hlast hnone
    obtain ⟨l, hl⟩ := List.head?_eq_some_iff.mp hhead
    have hlen : ∀ t ∈ choose (List.range n) k, t.length ≤ n := fun t ht => (mem_choose_iff.mp ht).2.trans_le h
    rw [hl] at hchain hlast hlen ⊢
    refine shows_of_isChain hlen hchain fun t ht => ?_
    rw [hlast] at ht
    exact Option.mem_some_iff.mp ht ▸ hnone
  · next h =>
    rw [choose_eq_nil (by simpa using h)]
    exact shows_nil n

/-- The cursor comes to its end, and what it has shown by then are the increasing lists of `k` numbers
below `n`, each of them once and in lexicographic order. -/
theorem shows_combinations (n k : ℕ) :
    (∀ l, (start n k).Shows l ↔ l = combinations n k) ∧
    (∀ s, s ∈ combinations n k ↔ s.length = k ∧ s.Pairwise (· < ·) ∧ ∀ i ∈ s, i < n) ∧
    (combinations n k).Nodup ∧
    (combinations n k).Pairwise (fun s t => before s t = true) ∧
    (combinations n k).length = n.choose k := by
  have hincreasing : (combinations n k).Pairwise fun s t => before s t = true :=
    choose_increasing List.pairwise_lt_range k
  refine ⟨fun l => ⟨fun h => h.unique (start_shows n k), ?_⟩, fun s => mem_combinations,
    hincreasing.imp ne_of_before, hincreasing, ?_⟩
  · rintro rfl
    exact start_shows n k
  · rw [combinations, length_choose, List.length_range]

theorem shows_combinations_of_four :
    (start 4 2).Shows [[0, 1], [0, 2], [0, 3], [1, 2], [1, 3], [2, 3]] ∧ (start 2 3).Shows [] ∧
      [1, 3] ∈ combinations 4 2 ∧ [3, 1] ∉ combinations 4 2 := by
  obtain ⟨hshows, hmem, -⟩ := shows_combinations 4 2
  refine ⟨(hshows _).mpr (by decide), ((shows_combinations 2 3).1 []).mpr (by decide),
    (hmem [1, 3]).mpr (by decide), fun h => ?_⟩
  exact absurd ((hmem [3, 1]).mp h) (by decide)

end Cursor

end QuadraticPenalty.Constraint
