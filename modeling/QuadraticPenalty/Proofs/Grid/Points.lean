import Mathlib
import QuadraticPenalty.Grid.Scan

namespace QuadraticPenalty.Grid

open Ordered

def IsPoint (levels digits : List ℕ) : Prop := List.Forall₂ (· < ·) digits levels

def points : List ℕ → List (List ℕ)
  | [] => [[]]
  | n :: ns => (List.range n).flatMap fun d => (points ns).map (d :: ·)

lemma mem_points {ns ds : List ℕ} : ds ∈ points ns ↔ IsPoint ns ds := by
  induction ns generalizing ds with
  | nil => simp [points, IsPoint]
  | cons n ns ih =>
    simp only [points, List.mem_flatMap, List.mem_range, List.mem_map, ih]
    constructor
    · rintro ⟨d, hd, es, hes, rfl⟩
      exact .cons hd hes
    · rintro (_ | ⟨hd, hes⟩)
      exact ⟨_, hd, _, hes, rfl⟩

lemma length_of_mem_points {ns ds : List ℕ} (h : ds ∈ points ns) : ds.length = ns.length :=
  (mem_points.mp h).length_eq

lemma points_length (ns : List ℕ) : (points ns).length = ns.prod := by
  induction ns with
  | nil => rfl
  | cons n ns ih => simp [points, List.length_flatMap, ih]

lemma points_increasing (ns : List ℕ) : (points ns).Pairwise fun a b => before a b = true := by
  induction ns with
  | nil => simp [points]
  | cons n ns ih =>
    rw [points, List.pairwise_flatMap]
    refine ⟨fun d _ => ?_, ?_⟩
    · rw [List.pairwise_map]
      exact ih.imp fun h => beforeList_cons_iff.mpr (.inr ⟨rfl, h⟩)
    · refine List.pairwise_lt_range.imp fun {d e} hde a ha b hb => ?_
      obtain ⟨as, -, rfl⟩ := List.mem_map.mp ha
      obtain ⟨bs, -, rfl⟩ := List.mem_map.mp hb
      exact beforeList_cons_iff.mpr (.inl (decide_eq_true hde))

def visits (ns : List ℕ) : ℕ → List ℕ → List (List ℕ)
  | 0, _ => []
  | left + 1, ds =>
    ds :: match advance ds ns with
      | some es => visits ns left es
      | none => []

lemma visits_eq_of_isChain {ns ds : List ℕ} {dss : List (List ℕ)}
    (hchain : (ds :: dss).IsChain fun a b => advance a ns = some b)
    (hlast : ∀ a ∈ (ds :: dss).getLast?, advance a ns = none) :
    visits ns (dss.length + 1) ds = ds :: dss := by
  induction dss generalizing ds with
  | nil => simp [visits, hlast ds rfl]
  | cons es dss ih =>
    obtain ⟨hstep, hchain⟩ := List.isChain_cons_cons.mp hchain
    rw [List.length_cons, visits, hstep]
    exact congrArg (ds :: ·) (ih hchain fun a ha => hlast a (by simpa using ha))

lemma points_isChain {ns : List ℕ} (h : ∀ n ∈ ns, 0 < n) :
    (points ns).IsChain (fun a b => advance a ns = some b) ∧
      (points ns).head? = some (ns.map fun _ => 0) ∧
      ∃ last, (points ns).getLast? = some last ∧ advance last ns = none := by
  induction ns with
  | nil => exact ⟨.singleton _, rfl, [], rfl, rfl⟩
  | cons n ns ih =>
    obtain ⟨hchain, hhead, last, hlast, hnone⟩ := ih fun k hk => h k (by simp [hk])
    have hzeros : last.map (fun _ => 0) = ns.map fun _ => 0 := by
      have hlen := length_of_mem_points (List.mem_of_getLast? hlast)
      simp [List.map_const', hlen]
    -- the slices up to the first digit `k`, one after the other
    have hslices : ∀ k < n, ((List.range (k + 1)).flatMap fun d => (points ns).map (d :: ·)).IsChain
          (fun a b => advance a (n :: ns) = some b) ∧
        ((List.range (k + 1)).flatMap fun d => (points ns).map (d :: ·)).head? =
          some (0 :: ns.map fun _ => 0) ∧
        ((List.range (k + 1)).flatMap fun d => (points ns).map (d :: ·)).getLast? =
          some (k :: last) := by
      have hslice : ∀ d, ((points ns).map (d :: ·)).IsChain
          fun a b => advance a (n :: ns) = some b := fun d =>
        List.isChain_map_of_isChain (d :: ·) (fun a b hab => by simp [advance, hab]) hchain
      intro k hk
      induction k with
      | zero => exact ⟨by simpa using hslice 0, by simp [hhead], by simp [hlast]⟩
      | succ k ihk =>
        obtain ⟨hc, hh, hl⟩ := ihk (by omega)
        rw [List.range_succ, List.flatMap_append, List.flatMap_singleton]
        refine ⟨List.isChain_append.mpr ⟨hc, hslice (k + 1), ?_⟩, ?_, ?_⟩
        · intro a ha b hb
          rw [hl] at ha
          obtain rfl := Option.mem_some_iff.mp ha
          rw [List.head?_map, hhead] at hb
          obtain rfl := Option.mem_some_iff.mp hb
          simp [advance, hnone, hzeros, hk]
        · simp [List.head?_append, hh]
        · simp [List.getLast?_append, hlast]
    obtain ⟨m, rfl⟩ := Nat.exists_eq_succ_of_ne_zero (h n (by simp)).ne'
    obtain ⟨hc, hh, hl⟩ := hslices m (Nat.lt_succ_self m)
    exact ⟨hc, hh, m :: last, hl, by simp [advance, hnone]⟩

lemma visits_eq_points {ns : List ℕ} (h : ∀ n ∈ ns, 0 < n) :
    visits ns ns.prod (ns.map fun _ => 0) = points ns := by
  obtain ⟨hchain, hhead, last, hlast, hnone⟩ := points_isChain h
  obtain ⟨dss, hpoints⟩ := List.head?_eq_some_iff.mp hhead
  have hlen := points_length ns
  rw [hpoints] at hchain hlast hlen ⊢
  rw [← hlen]
  exact visits_eq_of_isChain hchain fun a ha => by
    rw [hlast] at ha
    exact Option.mem_some_iff.mp ha ▸ hnone

end QuadraticPenalty.Grid

namespace QuadraticPenalty.Landscape

variable {α : Type} {l : Landscape α}

lemma pointCount_eq (hpos : ∀ n ∈ l.levels, 0 < n) (h : l.levels.prod < 2 ^ 64) :
    l.pointCount = some l.levels.prod := by
  have hfold : ∀ (ns : List ℕ) (points : ℕ), (∀ n ∈ ns, 0 < n) → points * ns.prod < 2 ^ 64 →
      ns.foldlM (fun points n => if points * n < Nat.pow 2 64 then some (points * n) else none) points =
        some (points * ns.prod) := by
    intro ns points hns hlt
    induction ns generalizing points with
    | nil => simp
    | cons n ns ih =>
      obtain ⟨hn, hns⟩ := List.forall_mem_cons.mp hns
      rw [List.prod_cons, ← Nat.mul_assoc] at hlt ⊢
      have hstep : points * n < Nat.pow 2 64 :=
        (Nat.le_mul_of_pos_right _ (List.prod_pos hns)).trans_lt hlt
      rw [List.foldlM_cons, if_pos hstep]
      exact ih _ hns hlt
  rw [pointCount, hfold _ 1 hpos (by rwa [Nat.one_mul]), Nat.one_mul]

end QuadraticPenalty.Landscape
