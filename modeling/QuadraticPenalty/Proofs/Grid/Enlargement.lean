import QuadraticPenalty.Proofs.Grid.Answer
import QuadraticPenalty.Proofs.Penalty.Requests

/-!
A larger graph. Where zero is a level of both ranges, each point of the grid of a graph is carried
over to the larger one, with zero biases for what is new, and is judged there as it was before.
-/

namespace QuadraticPenalty

open Scalar Extended

namespace Graph

def links (g : Graph) : List (Sym2 String) := g.edges.map fun e => s(e.1, e.2)

def places (g : Graph) : List (String ⊕ Sym2 String) := g.nodes.map .inl ++ g.links.map .inr

variable {g : Graph} {nodes nodes' : List String} {u v : String} {l : Sym2 String}

@[simp] lemma inl_mem_places : .inl v ∈ g.places ↔ v ∈ g.nodes := by simp [places]

@[simp] lemma inr_mem_places : .inr l ∈ g.places ↔ l ∈ g.links := by simp [places]

lemma places_nodup (hn : g.nodes.Nodup) (hl : g.links.Nodup) : g.places.Nodup := by
  refine (hn.map Sum.inl_injective).append (hl.map Sum.inr_injective) fun k hk hk' => ?_
  obtain ⟨v, -, rfl⟩ := List.mem_map.mp hk
  simp at hk'

lemma links_complete_sublist (nodes : List String) :
    (complete nodes).links.Sublist nodes.sym2 := by
  induction nodes with
  | nil => exact .refl _
  | cons u us ih =>
    have hlinks : (complete (u :: us)).links = us.map (fun v => s(u, v)) ++ (complete us).links := by
      simp [links, complete, pairs]
    rw [hlinks, List.sym2]
    exact ((List.sublist_cons_self u us).map _).append ih

lemma mk_mem_links_complete (hn : nodes.Nodup) :
    s(u, v) ∈ (complete nodes).links ↔ (u ∈ nodes ∧ v ∈ nodes) ∧ u ≠ v := by
  constructor
  · intro h
    obtain ⟨e, he, heq⟩ := List.mem_map.mp h
    have hends := mem_of_mem_pairs he
    have hne := ne_of_mem_pairs hn he
    rcases Sym2.eq_iff.mp heq with ⟨rfl, rfl⟩ | ⟨rfl, rfl⟩
    exacts [⟨hends, hne⟩, ⟨hends.symm, hne.symm⟩]
  · rintro ⟨⟨hu, hv⟩, huv⟩
    have honce := count_pairs hn hu hv huv
    rcases Nat.eq_zero_or_pos ((pairs nodes).count (u, v)) with hzero | hpos
    · have hback : (v, u) ∈ pairs nodes := List.count_pos_iff.mp (by omega)
      exact List.mem_map.mpr ⟨_, hback, Sym2.eq_swap⟩
    · exact List.mem_map.mpr ⟨_, List.count_pos_iff.mp hpos, rfl⟩

lemma places_complete_nodup (hn : nodes.Nodup) : (complete nodes).places.Nodup :=
  places_nodup hn (hn.sym2.sublist (links_complete_sublist nodes))

structure Within (g h : Graph) : Prop where
  nodup : g.places.Nodup
  nodup' : h.places.Nodup
  subset : g.places ⊆ h.places

lemma Within.mem_nodes {h : Graph} (hgh : g.Within h) (hv : v ∈ g.nodes) : v ∈ h.nodes :=
  inl_mem_places.mp (hgh.subset (inl_mem_places.mpr hv))

lemma within_complete (hn : nodes.Nodup) (hn' : nodes'.Nodup) (h : nodes ⊆ nodes') :
    (complete nodes).Within (complete nodes') where
  nodup := places_complete_nodup hn
  nodup' := places_complete_nodup hn'
  subset := by
    rintro (v | l) hk
    · exact inl_mem_places.mpr (h (inl_mem_places.mp hk))
    · induction l using Sym2.ind with | _ u v
      obtain ⟨⟨hu, hv⟩, huv⟩ := (mk_mem_links_complete hn).mp (inr_mem_places.mp hk)
      exact inr_mem_places.mpr ((mk_mem_links_complete hn').mpr ⟨⟨h hu, h hv⟩, huv⟩)

end Graph

attribute [ext] Quality

def Request.onGraph {α : Type} (r : Request α) (H : Graph) : Request α := { r with graph := H }

def Grid.HasZero (g : Grid Extended) (range : Extended × Extended) : Prop :=
  ∃ d < Grid.levelsOf range g.step, range.1 + ofInt d * g.step = zero

namespace Landscape

open Grid

section Places

variable {g : Grid Extended} {r : Request Extended} {f : String ⊕ Sym2 String → ℚ}
  {p : String ⊕ Sym2 String → ℕ}

def rangeAt (g : Grid Extended) : String ⊕ Sym2 String → Extended × Extended :=
  Sum.elim (fun _ => g.linear) fun _ => g.coupling

def levelsAt (g : Grid Extended) (k : String ⊕ Sym2 String) : ℕ := levelsOf (rangeAt g k) g.step

lemma levels_eq_places (g : Grid Extended) (r : Request Extended) :
    (ofWellFormed g r).levels = r.graph.places.map (levelsAt g) := by
  simp only [ofWellFormed, Graph.places, Graph.links, List.map_append, List.map_map]
  congr 1 <;> exact (List.map_const' ..).symm

lemma lows_eq_places (g : Grid Extended) (r : Request Extended) :
    (ofWellFormed g r).lows = r.graph.places.map fun k => (rangeAt g k).1 := by
  simp only [ofWellFormed, Graph.places, Graph.links, List.map_append, List.map_map]
  congr 1 <;> exact (List.map_const' ..).symm

lemma isPoint_places : IsPoint (ofWellFormed g r).levels (r.graph.places.map p) ↔
    ∀ k ∈ r.graph.places, p k < levelsAt g k := by
  rw [levels_eq_places, IsPoint, List.forall₂_map_left_iff, List.forall₂_map_right_iff,
    List.forall₂_same]

lemma values_places (hf : ∀ k, (rangeAt g k).1 + ofInt (p k) * g.step = finite (f k)) :
    (ofWellFormed g r).values (r.graph.places.map p) = (r.graph.places.map f).map finite := by
  rw [values, lows_eq_places, List.zipWith_map_left, List.zipWith_map_right, List.zipWith_self,
    List.map_map]
  exact List.map_congr_left fun k _ => hf k

def factor (x : String → ℚ) : String ⊕ Sym2 String → ℚ :=
  Sum.elim x (Sym2.lift ⟨fun u v => x u * x v, fun u v => mul_comm (x u) (x v)⟩)

lemma stateEnergy_eq_zipWith (G : Graph) (biases : List ℚ) (x : String → ℚ) :
    stateEnergy G biases x = (List.zipWith (fun k b => b * factor x k) G.places biases).sum := by
  rw [Graph.places, Graph.links, zipWith_append_drop, List.sum_append, List.length_map,
    List.zipWith_map_left, List.zipWith_map_left, List.zipWith_map_left,
    ← List.map_uncurry_zip_eq_zipWith, ← List.map_uncurry_zip_eq_zipWith]
  rfl

lemma stateEnergy_places (G : Graph) (f : String ⊕ Sym2 String → ℚ) (x : String → ℚ) :
    stateEnergy G (G.places.map f) x = (G.places.map fun k => f k * factor x k).sum := by
  rw [stateEnergy_eq_zipWith, List.zipWith_map_right, List.zipWith_self]

end Places

lemma exists_map_eq {κ β : Type} [DecidableEq κ] {keys : List κ} {ds : List β} (hn : keys.Nodup)
    (hd : ds.length = keys.length) (z : κ → β) :
    ∃ p : κ → β, keys.map p = ds ∧ ∀ k ∉ keys, p k = z k :=
  ⟨_, map_getD_idxOf hn hd z, fun k hk =>
    List.getD_eq_default _ _ (by rw [List.idxOf_eq_length hk, hd])⟩

section Larger

variable {g : Grid Extended} {r : Request Extended} {G H : Graph} {γ : ℚ} {d d' : List ℕ}
  {f : String ⊕ Sym2 String → ℚ}

lemma stateEnergy_larger (h : G.Within H) (hf : ∀ k ∉ G.places, f k = 0) (x : String → ℚ) :
    stateEnergy H (H.places.map f) x = stateEnergy G (G.places.map f) x := by
  rw [stateEnergy_places, stateEnergy_places, ← List.sum_toFinset _ h.nodup,
    ← List.sum_toFinset _ h.nodup']
  refine (Finset.sum_subset (fun k hk => ?_) fun k _ hk => ?_).symm
  · simpa using h.subset (List.mem_toFinset.mp hk)
  · rw [hf k (by simpa using hk), zero_mul]

lemma energiesAt_larger (hr : r.WellFormed) (h : r.graph.Within H)
    (hf : ∀ k ∉ r.graph.places, f k = 0) (c : List ℤ) :
    energiesAt (r.onGraph H) (H.places.map f) c = energiesAt r (r.graph.places.map f) c := by
  ext e
  constructor
  · rintro ⟨x, hx, hxc, rfl⟩
    exact ⟨x, fun v hv => hx v (h.mem_nodes hv), hxc, (stateEnergy_larger h hf _).symm⟩
  · rintro ⟨x, hx, hxc, rfl⟩
    -- a new node has no bias, so any value will do for it
    let y : Assignment := fun v => if v ∈ r.graph.nodes then x v else some r.vartype.high
    have hy : ∀ v ∈ r.graph.nodes, y v = x v := fun v hv => if_pos hv
    have hcovers : y.Covers r.vartype H.nodes := fun v _ => by
      by_cases hv : v ∈ r.graph.nodes
      · rw [hy v hv]
        exact hx v hv
      · exact ⟨r.vartype.high, by simp, if_neg hv⟩
    refine ⟨y, hcovers, fun v hv => (hy v (hr.decision v hv)).trans (hxc v hv), ?_⟩
    refine (stateEnergy_larger h hf _).trans (stateEnergy_congr hr.edges fun v hv => ?_)
    rw [hy v hv]
    rfl

lemma loss_congr {ground : ℚ} {e e' : List ℤ → ℚ}
    (h : ∀ c, r.vartype.IsTuple r.decision.length c → e' c = e c) :
    loss r γ ground e' = loss r γ ground e := by
  have hmem : ∀ {p : List ℤ → Bool}, ∀ c ∈ (r.vartype.tuples r.decision.length).filter p, e' c = e c :=
    fun c hc => h c (Vartype.mem_tuples.mp (List.mem_filter.mp hc).1)
  have hinside : (feasibleTuples r).map (fun c => e' c - ground) =
      (feasibleTuples r).map fun c => e c - ground :=
    List.map_congr_left fun c hc => by rw [hmem c hc]
  have houtside : (infeasible r).map (fun c => max (ground + γ - e' c) 0) =
      (infeasible r).map fun c => max (ground + γ - e c) 0 :=
    List.map_congr_left fun c hc => by rw [hmem c hc]
  rw [loss, hinside, houtside, loss]

lemma qualityAt_congr {biases biases' : List ℚ} (hr : r.WellFormed)
    (hr' : (r.onGraph H).WellFormed) (hγ : r.gap = finite γ)
    (hd : (ofWellFormed g r).values d = biases.map finite)
    (hd' : (ofWellFormed g (r.onGraph H)).values d' = biases'.map finite)
    (h : ∀ c, energiesAt (r.onGraph H) biases' c = energiesAt r biases c) :
    (ofWellFormed g (r.onGraph H)).qualityAt d' = (ofWellFormed g r).qualityAt d := by
  obtain ⟨ground, e, hleast, hground, hgr, hgap, hcost⟩ := exists_quality hr hγ hd
  obtain ⟨ground', e', hleast', hground', hgr', hgap', hcost'⟩ := exists_quality hr' hγ hd'
  have hsame : ∀ c, r.vartype.IsTuple r.decision.length c → e' c = e c := fun c hc =>
    (h c ▸ hleast' c hc).unique (hleast c hc)
  have himage : e' '' {c | c ∈ r.feasible} = e '' {c | c ∈ r.feasible} :=
    Set.image_congr fun c hc => hsame c (hr.tuples c hc)
  obtain rfl : ground' = ground := (himage ▸ hground').unique hground
  have hgaps : (infeasible r).map (fun c => e' c - ground') =
      (infeasible r).map fun c => e c - ground' :=
    List.map_congr_left fun c hc => by rw [hsame c (mem_infeasible.mp hc).1]
  have hloss : loss (r.onGraph H) γ ground' e' = loss r γ ground' e := loss_congr hsame
  rw [hloss] at hcost'
  exact Quality.ext (hgr'.trans hgr.symm) (hgap'.trans ((congrArg minimum hgaps).trans hgap.symm))
    (hcost'.trans hcost.symm)

lemma exists_carried (hg : g.flaw = none) (hlinear : g.HasZero g.linear)
    (hcoupling : g.HasZero g.coupling) (hr : r.WellFormed) (hr' : (r.onGraph H).WellFormed)
    (hγ : r.gap = finite γ) (h : r.graph.Within H) (hd : IsPoint (ofWellFormed g r).levels d) :
    ∃ d', IsPoint (ofWellFormed g (r.onGraph H)).levels d' ∧
      (ofWellFormed g (r.onGraph H)).qualityAt d' = (ofWellFormed g r).qualityAt d := by
  have hzero : ∀ k, ∃ z < levelsAt g k, (rangeAt g k).1 + ofInt z * g.step = zero := by
    rintro (v | l)
    exacts [hlinear, hcoupling]
  choose z hz hzero using hzero
  have hlength : d.length = r.graph.places.length := by
    rw [hd.length_eq, levels_eq_places, List.length_map]
  -- the digits of the point, and those of zero at the places that are new
  obtain ⟨p, rfl, hp⟩ := exists_map_eq h.nodup hlength z
  have hvalue : ∀ k, ∃ q, (rangeAt g k).1 + ofInt (p k) * g.step = finite q := by
    obtain ⟨⟨s, hs⟩, ⟨a, ha⟩, b, hb⟩ := exists_rational_ends hg
    rintro (v | l)
    · exact ⟨a + (p (.inl v) : ℤ) * s, by rw [hs, rangeAt, Sum.elim_inl, ha]; rfl⟩
    · exact ⟨b + (p (.inr l) : ℤ) * s, by rw [hs, rangeAt, Sum.elim_inr, hb]; rfl⟩
  choose f hf using hvalue
  refine ⟨H.places.map p, isPoint_places.mpr fun k _ => ?_, qualityAt_congr hr hr' hγ
    (values_places hf) (values_places hf) (energiesAt_larger hr h fun k hk => ?_)⟩
  · by_cases hk : k ∈ r.graph.places
    · exact isPoint_places.mp hd k hk
    · rw [hp k hk]
      exact hz k
  · have hnull : finite (f k) = zero := by rw [← hf k, hp k hk, hzero k]
    exact Extended.finite.inj hnull

lemma levelsAt_pos (hlinear : g.HasZero g.linear) (hcoupling : g.HasZero g.coupling)
    (k : String ⊕ Sym2 String) : 0 < levelsAt g k := by
  obtain ⟨⟨d, hd, -⟩, e, he, -⟩ := And.intro hlinear hcoupling
  cases k with
  | inl v => exact Nat.zero_lt_of_lt hd
  | inr l => exact Nat.zero_lt_of_lt he

lemma levels_pos_of_hasZero (hlinear : g.HasZero g.linear) (hcoupling : g.HasZero g.coupling)
    (r : Request Extended) : ∀ n ∈ (ofWellFormed g r).levels, 0 < n := by
  rw [levels_eq_places]
  intro n hn
  obtain ⟨k, -, rfl⟩ := List.mem_map.mp hn
  exact levelsAt_pos hlinear hcoupling k

lemma prod_levels_le (hpos : ∀ k, 0 < levelsAt g k) (h : r.graph.Within H) :
    (ofWellFormed g r).levels.prod ≤ (ofWellFormed g (r.onGraph H)).levels.prod := by
  obtain ⟨ks, hperm, hks⟩ := h.nodup.subperm h.subset
  have hle : (ks.map (levelsAt g)).prod ≤ (H.places.map (levelsAt g)).prod :=
    (hks.map _).prod_le_prod' fun n hn => by
      obtain ⟨k, -, rfl⟩ := List.mem_map.mp hn
      exact hpos k
  rwa [levels_eq_places, levels_eq_places, ← (hperm.map _).prod_eq]

end Larger

end Landscape

namespace Grid

open Landscape

section Larger

variable {σ σ' : Type} {g : Grid Extended} {r : Request Extended} {H : Graph} {γ : ℚ}
  {found : PenaltyModel Extended} {events : List (Event Extended)}

lemma exists_answer_onGraph (c : Chance Extended σ) (c' : Chance Extended σ') (hg : g.flaw = none)
    (hlinear : g.HasZero g.linear) (hcoupling : g.HasZero g.coupling) (hγ : r.gap = finite γ)
    (hr' : (r.onGraph H).WellFormed) (hn : H.nodes.length ≤ maxNodes)
    (hlim : (ofWellFormed g (r.onGraph H)).levels.prod ≤ g.scanLimit) (hu : g.scanLimit < 2 ^ 64)
    (hH : r.graph.Within H) (h : g.answer c r = some ⟨some found, events⟩) :
    ∃ found' events', g.answer c' (r.onGraph H) = some ⟨some found', events'⟩ ∧
      Scalar.le found.gap found'.gap = true := by
  obtain ⟨⟨hr, hnr⟩, -⟩ := answer_eq_some h
  have hle := prod_levels_le (levelsAt_pos hlinear hcoupling) hH
  have hpos := levels_pos_of_hasZero hlinear hcoupling
  obtain ⟨reply, hreply, hcases⟩ := answer_cases c hg hr hnr hγ (hpos r) (hle.trans hlim) hu
  obtain rfl := Option.some.inj (h.symm.trans hreply)
  obtain ⟨hnone, -⟩ | ⟨d, hopt, hsome⟩ := hcases
  · cases hnone
  obtain rfl := Option.some.inj hsome
  obtain ⟨d', hd', hquality⟩ := exists_carried hg hlinear hcoupling hr hr' hγ hH hopt.isPoint
  have hvalid : ((ofWellFormed g (r.onGraph H)).qualityAt d').isValid = true :=
    hquality ▸ hopt.isValid
  obtain ⟨found', events', hfound', hgap⟩ :=
    exists_answer_of_valid c' hg hr' hn hγ (hpos _) hlim hu hd' hvalid
  exact ⟨found', events', hfound', hquality ▸ hgap⟩

end Larger

/-- Where zero is a level of both ranges, a complete graph with one more node, wherever that is listed,
is answered whenever the one without it is, and the gap is no smaller. -/
theorem answer_onGraph_of_fresh {σ σ' : Type} (g : Grid Extended) (c : Chance Extended σ)
    (c' : Chance Extended σ') (r : Request Extended) (γ : ℚ) (nodes nodes' : List String) (v : String)
    (found : PenaltyModel Extended) (events : List (Event Extended)) (hg : g.flaw = none)
    (hlinear : g.HasZero g.linear) (hcoupling : g.HasZero g.coupling) (hγ : r.gap = finite γ) (hv : v ∉ nodes)
    (hnodes : nodes'.Perm (v :: nodes)) (hn : nodes'.length ≤ maxNodes)
    (hlim : g.linearLevels ^ nodes'.length *
      g.couplingLevels ^ (Graph.complete nodes').edges.length ≤ g.scanLimit)
    (hu : g.scanLimit < 2 ^ 64)
    (h : g.answer c (r.onGraph (.complete nodes)) = some ⟨some found, events⟩) :
    ∃ found' events', g.answer c' (r.onGraph (.complete nodes')) = some ⟨some found', events'⟩ ∧
      Scalar.le found.gap found'.gap = true := by
  obtain ⟨⟨hr, -⟩, -⟩ := answer_eq_some h
  have hnodup : nodes.Nodup := hr.nodes
  have hnodup' : nodes'.Nodup := hnodes.nodup_iff.mpr (List.nodup_cons.mpr ⟨hv, hnodup⟩)
  have hsub : nodes ⊆ nodes' := fun u hu => hnodes.symm.subset (List.mem_cons_of_mem v hu)
  have hr' : (r.onGraph (.complete nodes')).WellFormed :=
    { nodes := hnodup'
      edges := fun _ he => Graph.mem_of_mem_pairs he
      nodup := hr.nodup
      decision := fun u hu => hsub (hr.decision u hu)
      nonempty := hr.nonempty
      tuples := hr.tuples }
  exact exists_answer_onGraph (r := r.onGraph (.complete nodes)) c c' hg hlinear hcoupling hγ hr' hn
    ((prod_levels g _).trans_le hlim) hu (Graph.within_complete hnodup hnodup' hsub) h

def roomy : Grid Extended := { coarse with scanLimit := 27 }

lemma roomy_hasZero : roomy.HasZero roomy.linear ∧ roomy.HasZero roomy.coupling := by
  have hlinear : levelsOf roomy.linear roomy.step = 1 := coarse_levels.1
  have hcoupling : levelsOf roomy.coupling roomy.step = 3 := coarse_levels.2
  exact ⟨⟨0, by rw [hlinear]; decide, by cbv⟩, ⟨1, by rw [hcoupling]; decide, by cbv⟩⟩

lemma roomy_points : roomy.linearLevels ^ ["c", "a", "b"].length *
    roomy.couplingLevels ^ (Graph.complete ["c", "a", "b"]).edges.length ≤ roomy.scanLimit := by
  change coarse.linearLevels ^ 3 * coarse.couplingLevels ^ 3 ≤ 27
  rw [coarse_levels.1, coarse_levels.2]
  decide

theorem answer_onGraph_of_third_bit : ∃ found found' events events',
    roomy.answer still (equalBits.onGraph (.complete ["a", "b"])) = some ⟨some found, events⟩ ∧
      roomy.answer still (equalBits.onGraph (.complete ["c", "a", "b"])) = some ⟨some found', events'⟩ ∧
      Scalar.le found.gap found'.gap = true := by
  have hflaw : roomy.flaw = none := by cbv
  have hlevels : (ofWellFormed roomy equalBits).levels = [1, 1, 3] := coarse_levels_of_graph rfl
  obtain ⟨found, events, hfound, -⟩ := exists_answer_of_valid (g := roomy) still hflaw
    equalBits_wellFormed (by decide) rfl (by rw [hlevels]; decide) (by rw [hlevels]; decide) (by decide)
    coarse_valid.1 coarse_valid.2
  obtain ⟨found', events', hfound', hle⟩ := answer_onGraph_of_fresh roomy still still equalBits 2
    ["a", "b"] ["c", "a", "b"] "c" found events hflaw roomy_hasZero.1 roomy_hasZero.2 rfl (by decide)
    (.refl _) (by decide) roomy_points (by decide) hfound
  exact ⟨found, found', events, events', hfound, hfound', hle⟩

end Grid

end QuadraticPenalty
