import QuadraticPenalty.Proofs.Grid.Points
import QuadraticPenalty.Proofs.Scalar.Least

namespace QuadraticPenalty.Landscape

open Scalar Ordered Grid

variable {l : Landscape Extended} {a b c : List ℕ} {dss ess : List (List ℕ)}

def Prefers (l : Landscape Extended) (a b : List ℕ) : Prop :=
  Scalar.lt (l.qualityAt b).gap (l.qualityAt a).gap = true ∨
    (l.qualityAt b).gap = (l.qualityAt a).gap ∧ (a = b ∨ before a b = true)

structure IsOptimal (l : Landscape Extended) (a : List ℕ) : Prop where
  isPoint : IsPoint l.levels a
  isValid : (l.qualityAt a).isValid = true
  best : ∀ b, IsPoint l.levels b → (l.qualityAt b).isValid = true → l.Prefers a b

def HaveGaps (l : Landscape Extended) (dss : List (List ℕ)) : Prop :=
  ∀ a ∈ dss, (l.qualityAt a).gap.IsGap

lemma prefers_refl (a : List ℕ) : l.Prefers a a := .inr ⟨rfl, .inl rfl⟩

lemma Prefers.trans (ha : (l.qualityAt a).gap.IsGap) (hb : (l.qualityAt b).gap.IsGap)
    (hc : (l.qualityAt c).gap.IsGap) (hab : l.Prefers a b) (hbc : l.Prefers b c) :
    l.Prefers a c := by
  unfold Prefers at *
  rw [hb.lt_iff ha] at hab
  rw [hc.lt_iff hb] at hbc
  rw [hc.lt_iff ha]
  rcases hab with hab | ⟨hgab, hab⟩ <;> rcases hbc with hbc | ⟨hgbc, hbc⟩
  · exact .inl (hbc.trans hab)
  · exact .inl (hgbc ▸ hab)
  · exact .inl (hgab ▸ hbc)
  · refine .inr ⟨hgbc.trans hgab, ?_⟩
    rcases hab with rfl | hab <;> rcases hbc with rfl | hbc
    exacts [.inl rfl, .inr hbc, .inr hab, .inr (before_trans hab hbc)]

lemma Prefers.antisymm (ha : (l.qualityAt a).gap.IsGap) (hb : (l.qualityAt b).gap.IsGap)
    (hab : l.Prefers a b) (hba : l.Prefers b a) : a = b := by
  unfold Prefers at *
  rw [hb.lt_iff ha] at hab
  rw [ha.lt_iff hb] at hba
  rcases hab with hab | ⟨hg, hab⟩ <;> rcases hba with hba | ⟨hg', hba⟩
  · exact absurd hba hab.asymm
  · exact absurd hab (by simp [hg'])
  · exact absurd hba (by simp [hg])
  · rcases hab with rfl | hab
    · rfl
    · rcases hba with rfl | hba
      · rfl
      · simp [before_asymm hab] at hba

def BestOf (l : Landscape Extended) (dss : List (List ℕ)) : Option (Candidate Extended) → Prop
  | none => ∀ a ∈ dss, (l.qualityAt a).isValid = false
  | some b => (b.digits ∈ dss ∧ (l.qualityAt b.digits).isValid = true) ∧
      b.gap = (l.qualityAt b.digits).gap ∧
      ∀ a ∈ dss, (l.qualityAt a).isValid = true → l.Prefers b.digits a

lemma BestOf.append {best : Option (Candidate Extended)} (h : l.BestOf dss best)
    (ha : ∀ a ∈ ess, (l.qualityAt a).isValid = true → ∃ d, best = some d ∧ l.Prefers d.digits a) :
    l.BestOf (dss ++ ess) best := by
  cases best with
  | none =>
    intro a hm
    rcases List.mem_append.mp hm with hm | hm
    · exact h a hm
    · refine Bool.eq_false_iff.mpr fun hv => ?_
      obtain ⟨d, hd, -⟩ := ha a hm hv
      cases hd
  | some d =>
    obtain ⟨⟨hmem, hd⟩, hgap, hbest⟩ := h
    refine ⟨⟨List.mem_append.mpr (.inl hmem), hd⟩, hgap, fun a hm hv => ?_⟩
    rcases List.mem_append.mp hm with hm | hm
    · exact hbest a hm hv
    · obtain ⟨d', hd', hprefers⟩ := ha a hm hv
      obtain rfl : d = d' := Option.some.inj hd'
      exact hprefers

lemma BestOf.append_comm {best : Option (Candidate Extended)} (h : l.BestOf (dss ++ ess) best) :
    l.BestOf (ess ++ dss) best := by
  have hmem : ∀ a, a ∈ ess ++ dss ↔ a ∈ dss ++ ess := fun a => by
    rw [List.mem_append, List.mem_append, or_comm]
  cases best with
  | none => exact fun a ha => h a ((hmem a).mp ha)
  | some d => exact ⟨⟨(hmem _).mpr h.1.1, h.1.2⟩, h.2.1, fun a ha => h.2.2 a ((hmem a).mp ha)⟩

lemma bestOf_replace (hv : (l.qualityAt a).isValid = true)
    (ha : ∀ b ∈ dss, (l.qualityAt b).isValid = true → l.Prefers a b) :
    l.BestOf (dss ++ [a]) (some ⟨a, (l.qualityAt a).gap⟩) := by
  refine ⟨⟨by simp, hv⟩, rfl, fun b hb hbv => ?_⟩
  rcases List.mem_append.mp hb with hb | hb
  · exact ha b hb hbv
  · rw [List.mem_singleton.mp hb]
    exact prefers_refl a

lemma BestOf.keepBest {best : Option (Candidate Extended)} (hg : l.HaveGaps (dss ++ [a]))
    (hbefore : ∀ b ∈ dss, before b a = true) (h : l.BestOf dss best) :
    l.BestOf (dss ++ [a]) (l.keepBest best a) := by
  have hga := hg a (by simp)
  unfold Landscape.keepBest
  dsimp only
  cases hvalid : (l.qualityAt a).isValid with
  | false =>
    rw [Bool.false_and, if_neg Bool.false_ne_true]
    refine h.append fun b hb hv => ?_
    rw [List.mem_singleton.mp hb, hvalid] at hv
    cases hv
  | true =>
    rw [Bool.true_and]
    cases best with
    | none =>
      rw [Option.all_none, if_pos rfl]
      refine bestOf_replace hvalid fun b hb hbv => ?_
      rw [h b hb] at hbv
      cases hbv
    | some d =>
      obtain ⟨⟨hmem, -⟩, hgap, hbest⟩ := id h
      have hgd := hg d.digits (List.mem_append.mpr (.inl hmem))
      rw [Option.all_some, hgap]
      split
      · next hlt =>
        refine bestOf_replace hvalid fun b hb hbv => ?_
        exact Prefers.trans hga hgd (hg b (List.mem_append.mpr (.inl hb))) (.inl hlt) (hbest b hb hbv)
      · next hlt =>
        rw [hgd.lt_iff hga, not_lt] at hlt
        refine h.append fun b hb _ => ⟨d, rfl, ?_⟩
        rw [List.mem_singleton.mp hb]
        rcases hlt.lt_or_eq with hlt | heq
        · exact .inl ((hga.lt_iff hgd).mpr hlt)
        · exact .inr ⟨(hga.height_inj hgd).mp heq, .inr (hbefore _ hmem)⟩

lemma bestOf_foldl (hg : l.HaveGaps dss) (hinc : dss.Pairwise fun a b => before a b = true) :
    l.BestOf dss (dss.foldl l.keepBest none) := by
  induction dss using List.reverseRecOn with
  | nil => exact fun a ha => by cases ha
  | append_singleton dss a ih =>
    obtain ⟨hprev, -, hlast⟩ := List.pairwise_append.mp hinc
    rw [List.foldl_append]
    exact (ih (fun b hb => hg b (by simp [hb])) hprev).keepBest hg fun b hb => hlast b hb a (by simp)

lemma better_prefers {x y : Candidate Extended} (hx : x.gap = (l.qualityAt x.digits).gap)
    (hy : y.gap = (l.qualityAt y.digits).gap) (hgx : (l.qualityAt x.digits).gap.IsGap)
    (hgy : (l.qualityAt y.digits).gap.IsGap) :
    x.better y = x ∧ l.Prefers x.digits y.digits ∨ x.better y = y ∧ l.Prefers y.digits x.digits := by
  unfold Candidate.better Prefers
  rw [hx, hy]
  rcases lt_trichotomy (l.qualityAt x.digits).gap.height
    (l.qualityAt y.digits).gap.height with h | h | h
  · right
    have hlt := (hgx.lt_iff hgy).mpr h
    have hnlt : Scalar.lt (l.qualityAt y.digits).gap (l.qualityAt x.digits).gap = false :=
      Bool.eq_false_iff.mpr fun hm => h.asymm ((hgy.lt_iff hgx).mp hm)
    have hnle : Scalar.le (l.qualityAt y.digits).gap (l.qualityAt x.digits).gap = false :=
      Bool.eq_false_iff.mpr fun hm => h.not_ge ((hgy.le_iff hgx).mp hm)
    simp [hnlt, hnle, hlt]
  · have heq := (hgx.height_inj hgy).mp h
    have hnlt : Scalar.lt (l.qualityAt y.digits).gap (l.qualityAt y.digits).gap = false :=
      Bool.eq_false_iff.mpr fun hm => lt_irrefl _ ((hgy.lt_iff hgy).mp hm)
    have hle := (hgy.le_iff hgy).mpr le_rfl
    rw [heq, hnlt, hle]
    cases hb : before y.digits x.digits with
    | true => exact .inr ⟨by simp, .inr ⟨rfl, .inr rfl⟩⟩
    | false =>
      refine .inl ⟨by simp, .inr ⟨rfl, ?_⟩⟩
      cases hb' : before x.digits y.digits with
      | true => exact .inr rfl
      | false => exact .inl (before_connected hb' hb)
  · left
    have hlt := (hgy.lt_iff hgx).mpr h
    simp [hlt]

lemma BestOf.better {x y : Candidate Extended} (hg : l.HaveGaps (dss ++ ess))
    (hx : l.BestOf dss (some x)) (hy : l.BestOf ess (some y)) :
    l.BestOf (dss ++ ess) (some (x.better y)) := by
  obtain ⟨⟨hxm, hxv⟩, hxg, hxb⟩ := hx
  obtain ⟨⟨hym, hyv⟩, hyg, hyb⟩ := hy
  have hgx := hg x.digits (List.mem_append.mpr (.inl hxm))
  have hgy := hg y.digits (List.mem_append.mpr (.inr hym))
  rcases better_prefers hxg hyg hgx hgy with ⟨he, hp⟩ | ⟨he, hp⟩ <;> rw [he]
  · refine ⟨⟨List.mem_append.mpr (.inl hxm), hxv⟩, hxg, fun a ha hav => ?_⟩
    rcases List.mem_append.mp ha with ha' | ha'
    exacts [hxb a ha' hav, hp.trans hgx hgy (hg a ha) (hyb a ha' hav)]
  · refine ⟨⟨List.mem_append.mpr (.inr hym), hyv⟩, hyg, fun a ha hav => ?_⟩
    rcases List.mem_append.mp ha with ha' | ha'
    exacts [hp.trans hgy hgx (hg a ha) (hxb a ha' hav), hyb a ha' hav]

def slice (l : Landscape Extended) (first : ℕ) : List (List ℕ) :=
  (points l.levels.tail).map (first :: ·)

lemma walkSlice_eq (first left : ℕ) (rest : List ℕ) (best : Option (Candidate Extended)) :
    l.walkSlice first left rest best =
      ((visits l.levels.tail left rest).map (first :: ·)).foldl l.keepBest best := by
  induction left generalizing rest best with
  | zero => rfl
  | succ left ih =>
    unfold walkSlice visits
    dsimp only
    rw [List.map_cons, List.foldl_cons]
    cases advance rest l.levels.tail with
    | none => rfl
    | some next => exact ih next _

lemma scanSlice_bestOf (hpos : ∀ n ∈ l.levels, 0 < n) {first : ℕ} (hg : l.HaveGaps (l.slice first)) :
    l.BestOf (l.slice first) (l.scanSlice first) := by
  have htail : ∀ n ∈ l.levels.tail, 0 < n := fun n hn => hpos n (List.mem_of_mem_tail hn)
  have hcount : l.levels.tail.foldl (fun n k => n * max k 1) 1 = l.levels.tail.prod := by
    rw [List.prod_eq_foldl]
    refine List.foldl_ext _ _ _ fun n k hk => ?_
    rw [max_eq_left (htail k hk)]
  rw [scanSlice, hcount, walkSlice_eq, visits_eq_points htail]
  refine bestOf_foldl hg ?_
  rw [slice, List.pairwise_map]
  exact (points_increasing _).imp fun h => beforeList_cons_iff.mpr (.inr ⟨rfl, h⟩)

lemma bestOf_concat (cs : List (Candidate Extended)) (x : Candidate Extended) :
    bestOf (cs ++ [x]) = some (((bestOf cs).map fun b => b.better x).getD x) := by
  cases cs with
  | nil => rfl
  | cons c cs => simp [bestOf]

lemma slices_bestOf (hpos : ∀ n ∈ l.levels, 0 < n) (firsts : List ℕ)
    (hg : l.HaveGaps (firsts.flatMap l.slice)) :
    l.BestOf (firsts.flatMap l.slice) (bestOf (firsts.filterMap l.scanSlice)) := by
  induction firsts using List.reverseRecOn with
  | nil => exact fun a ha => by cases ha
  | append_singleton firsts first ih =>
    rw [List.flatMap_append, List.flatMap_singleton] at hg ⊢
    have ih := ih fun a ha => hg a (List.mem_append.mpr (.inl ha))
    have hslice := scanSlice_bestOf hpos fun a ha => hg a (List.mem_append.mpr (.inr ha))
    rw [List.filterMap_append]
    -- a slice without a valid point leaves the best of the others as it is
    have hinvalid : ∀ dss, l.BestOf dss none → ∀ best, ∀ a ∈ dss, (l.qualityAt a).isValid = true →
        ∃ d : Candidate Extended, best = some d ∧ l.Prefers d.digits a := fun dss hn best a ha hv => by
      rw [hn a ha] at hv
      cases hv
    cases hs : l.scanSlice first with
    | none =>
      rw [hs] at hslice
      simp only [List.filterMap_cons, hs, List.filterMap_nil, List.append_nil]
      exact ih.append (hinvalid _ hslice _)
    | some x =>
      rw [hs] at hslice
      simp only [List.filterMap_cons, hs, List.filterMap_nil, bestOf_concat]
      cases hb : bestOf (firsts.filterMap l.scanSlice) with
      | none =>
        rw [hb] at ih
        exact (hslice.append (hinvalid _ ih _)).append_comm
      | some b =>
        rw [hb] at ih
        exact ih.better hg hslice

lemma BestOf.isOptimal {b : Candidate Extended} (h : l.BestOf (points l.levels) (some b)) :
    l.IsOptimal b.digits := by
  obtain ⟨⟨hm, hv⟩, -, hbest⟩ := h
  exact ⟨mem_points.mp hm, hv, fun a ha hav => hbest a (mem_points.mpr ha) hav⟩

lemma scan_eq (hpos : ∀ n ∈ l.levels, 0 < n) (hg : l.HaveGaps (points l.levels)) :
    l.scan = none ∧ (∀ a, IsPoint l.levels a → (l.qualityAt a).isValid = false) ∨
      ∃ a, l.scan = some a ∧ l.IsOptimal a := by
  cases hl : l.levels with
  | nil =>
    have hpoint : ∀ a, IsPoint l.levels a ↔ a = [] := fun a => by
      rw [hl]
      exact List.forall₂_nil_right_iff
    unfold scan
    rw [hl]
    dsimp only
    cases hv : (l.qualityAt []).isValid with
    | false =>
      refine .inl ⟨rfl, fun a ha => ?_⟩
      rw [(hpoint a).mp (hl ▸ ha)]
      exact hv
    | true =>
      refine .inr ⟨[], rfl, (hpoint []).mpr rfl, hv, fun b hb _ => ?_⟩
      rw [(hpoint b).mp hb]
      exact prefers_refl []
  | cons n ns =>
    have hpoints : (List.range n).flatMap l.slice = points l.levels := by
      unfold slice
      rw [hl]
      rfl
    have hbest := slices_bestOf hpos (List.range n) (hpoints ▸ hg)
    rw [hpoints] at hbest
    unfold scan
    rw [hl]
    dsimp only
    cases hb : bestOf ((List.range n).filterMap l.scanSlice) with
    | none =>
      rw [hb] at hbest
      exact .inl ⟨rfl, fun a ha => hbest a (mem_points.mpr (hl ▸ ha))⟩
    | some b =>
      rw [hb] at hbest
      exact .inr ⟨b.digits, rfl, hbest.isOptimal⟩

lemma IsOptimal.unique (hg : l.HaveGaps (points l.levels)) (ha : l.IsOptimal a)
    (hb : l.IsOptimal b) : a = b :=
  Prefers.antisymm (hg a (mem_points.mpr ha.isPoint)) (hg b (mem_points.mpr hb.isPoint))
    (ha.best b hb.isPoint hb.isValid) (hb.best a ha.isPoint ha.isValid)

end QuadraticPenalty.Landscape
