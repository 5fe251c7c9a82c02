import QuadraticPenalty.Proofs.Annealing.Stages
import QuadraticPenalty.Proofs.Grid.Answer
import QuadraticPenalty.Proofs.Grid.Shift

namespace QuadraticPenalty

open Scalar Extended

namespace Landscape

structure Exact (l : Landscape Extended) : Prop where
  levels_pos : ∀ n ∈ l.levels, 0 < n
  biases : ∃ lows step, l.HasLevels lows step ∧ lows.length = l.levels.length
  cost : ∀ d, Grid.IsPoint l.levels d → ∃ q, (l.qualityAt d).cost = finite q

lemma exact_ofWellFormed {g : Grid Extended} {r : Request Extended} {γ : ℚ} (hg : g.flaw = none)
    (hr : r.WellFormed) (hγ : r.gap = finite γ) (hlevels : ∀ n ∈ (ofWellFormed g r).levels, 0 < n) :
    (ofWellFormed g r).Exact := by
  obtain ⟨lows, step, h, hlength⟩ := exists_hasLevels hg r
  exact ⟨hlevels, ⟨lows, step, h, by rw [hlength, levels_length]⟩,
    fun d hd => exists_cost hg hr hγ hd.length_eq⟩

variable {l : Landscape Extended} {digits : List ℕ} {k : ℕ}

lemma Exact.shift_set (h : l.Exact) (hd : Grid.IsPoint l.levels digits) (hk : k < l.levels.length)
    (d : ℕ) : l.shift k ((ofInt d - ofInt (digits.getD k 0)) * l.step) (l.energies digits) =
      l.energies (digits.set k d) := by
  obtain ⟨lows, step, hlevels, hlength⟩ := h.biases
  have hdelta : (ofInt d - ofInt (digits.getD k 0 : ℕ)) * l.step =
      finite (((d : ℚ) - (digits.getD k 0 : ℕ)) * step) := by
    rw [hlevels.step_eq, sub_eq_add_neg (d : ℚ)]
    rfl
  rw [hdelta]
  exact hlevels.shift_energies (hd.length_eq ▸ hk) (hlength ▸ hk) rfl

lemma Exact.shift_back (h : l.Exact) (hd : Grid.IsPoint l.levels digits) (hk : k < l.levels.length)
    (d : ℕ) : l.shift k (-((ofInt d - ofInt (digits.getD k 0)) * l.step))
      (l.energies (digits.set k d)) = l.energies digits := by
  obtain ⟨lows, step, hlevels, hlength⟩ := h.biases
  have hlt : k < digits.length := hd.length_eq ▸ hk
  have hdelta : -((ofInt d - ofInt (digits.getD k 0 : ℕ)) * l.step) =
      finite (-(((d : ℚ) - (digits.getD k 0 : ℕ)) * step)) := by
    rw [hlevels.step_eq, sub_eq_add_neg (d : ℚ)]
    rfl
  have hset : k < (digits.set k d).length := by simpa using hlt
  have hback := hlevels.shift_energies (δ := -(((d : ℚ) - (digits.getD k 0 : ℕ)) * step))
    (d := digits.getD k 0) hset (hlength ▸ hk) (by
      rw [List.getD_eq_getElem (digits.set k d) _ hset, List.getElem_set_self]
      ring)
  rw [hdelta, hback, List.set_set, List.getD_eq_getElem _ _ hlt, List.set_getElem_self]

end Landscape

namespace Annealing

variable {σ : Type} {l : Landscape Extended} {c : Chance Extended σ} {s : Schedule Extended}
  {past : List (List ℕ)} {r : Record Extended} {digits : List ℕ} {w w' : Walk Extended σ}

structure Record.Leads (l : Landscape Extended) (past : List (List ℕ)) (r : Record Extended) : Prop where
  points : ∀ d ∈ past, Grid.IsPoint l.levels d
  best : r.best ∈ past
  cost : r.bestCost = (l.qualityAt r.best).cost
  least : ∀ d ∈ past, Scalar.le r.bestCost (l.qualityAt d).cost = true

def Record.Ready (l : Landscape Extended) (past : List (List ℕ)) (r : Record Extended) : Prop :=
  past = [] ∧ r.bestCost = infinity ∨ r.Leads l past

lemma Record.Leads.congr {r' : Record Extended} (h : r.Leads l past) (hbest : r'.best = r.best)
    (hcost : r'.bestCost = r.bestCost) : r'.Leads l past where
  points := h.points
  best := hbest ▸ h.best
  cost := by rw [hcost, hbest, h.cost]
  least d hd := hcost ▸ h.least d hd

lemma Record.Ready.consider (hl : l.Exact) (h : r.Ready l past) (hd : Grid.IsPoint l.levels digits) :
    (r.consider digits (l.qualityAt digits).cost).Leads l (digits :: past) := by
  obtain ⟨q, hq⟩ := hl.cost digits hd
  have hself : Scalar.le (finite q) (finite q) = true := decide_eq_true (le_refl q)
  rcases h with ⟨rfl, hinfinity⟩ | h
  · have hlt : Scalar.lt (l.qualityAt digits).cost r.bestCost = true := by rw [hq, hinfinity]; rfl
    rw [Record.consider, if_pos hlt]
    exact ⟨by simpa using hd, by simp, rfl, by simpa [hq] using hself⟩
  · obtain ⟨p, hp⟩ := hl.cost r.best (h.points _ h.best)
    have hcost : r.bestCost = finite p := h.cost.trans hp
    have hlt : Scalar.lt (l.qualityAt digits).cost r.bestCost = decide (q < p) := by rw [hq, hcost]; rfl
    rw [Record.consider, hlt]
    by_cases hqp : q < p
    · rw [if_pos (decide_eq_true hqp)]
      refine ⟨List.forall_mem_cons.mpr ⟨hd, h.points⟩, by simp, rfl,
        List.forall_mem_cons.mpr ⟨by simpa [hq] using hself, fun d hmem => ?_⟩⟩
      obtain ⟨x, hx⟩ := hl.cost d (h.points d hmem)
      have hle := h.least d hmem
      rw [hcost, hx] at hle
      have hpx : p ≤ x := of_decide_eq_true hle
      simp only [hq, hx]
      exact decide_eq_true (hqp.le.trans hpx)
    · rw [if_neg (by simpa using hqp)]
      refine ⟨List.forall_mem_cons.mpr ⟨hd, h.points⟩, List.mem_cons_of_mem _ h.best, h.cost,
        List.forall_mem_cons.mpr ⟨?_, h.least⟩⟩
      rw [hcost, hq]
      exact decide_eq_true (not_lt.mp hqp)

/-- All that a walk carries along is what the points that it has seen would tell. -/
structure Walk.Sound (l : Landscape Extended) (past : List (List ℕ)) (w : Walk Extended σ) : Prop where
  point : Grid.IsPoint l.levels w.digits
  energies : w.energies = l.energies w.digits
  cost : w.cost = (l.qualityAt w.digits).cost
  current : w.digits ∈ past
  record : w.record.Leads l past
  improving : w.record.improving ≤ w.record.accepted
  accepted : w.record.accepted ≤ w.record.moves + w.moves

lemma Record.consider_counts (r : Record Extended) (digits : List ℕ) (cost : Extended) :
    (r.consider digits cost).accepted = r.accepted ∧
      (r.consider digits cost).improving = r.improving := by
  unfold Record.consider
  split <;> exact ⟨rfl, rfl⟩

lemma Walk.Sound.start (hl : l.Exact) (number : ℕ) (hr : r.Ready l past)
    (himproving : r.improving ≤ r.accepted) (haccepted : r.accepted ≤ r.moves) :
    (Walk.start l c number r).Sound l ((Walk.start l c number r).digits :: past) := by
  have hpoint : Grid.IsPoint l.levels (Walk.start l c number r).digits :=
    drawDigits_isPoint c.toDice (c.start number) hl.levels_pos
  obtain ⟨ha, hi⟩ := r.consider_counts (Walk.start l c number r).digits
    (l.qualityAt (Walk.start l c number r).digits).cost
  exact ⟨hpoint, rfl, rfl, List.mem_cons_self, hr.consider hl hpoint, hi.le.trans (himproving.trans ha.ge),
    ha.le.trans (haccepted.trans (Record.consider_moves ..).ge)⟩

/-- An improvement is counted before the move that makes it, hence the looser bound. -/
lemma Walk.settle_sound (hl : l.Exact) (hpoint : Grid.IsPoint l.levels w.digits)
    (henergies : w.energies = l.energies w.digits) (hrecord : w.record.Leads l past)
    (himproving : w.record.improving ≤ w.record.accepted + 1)
    (haccepted : w.record.accepted ≤ w.record.moves + w.moves) {k digit : ℕ}
    (hk : k < l.levels.length) (hdigit : digit < l.levels.getD k 0) (chance : σ) :
    (w.settle k digit (w.shifted l k digit) (l.quality (w.shifted l k digit)).cost chance).Sound l
      (w.digits.set k digit :: past) := by
  have hnext := isPoint_set hpoint hdigit
  have hshifted : w.shifted l k digit = l.energies (w.digits.set k digit) := by
    rw [Walk.shifted, henergies, hl.shift_set hpoint hk]
  have hcost : (l.quality (w.shifted l k digit)).cost = (l.qualityAt (w.digits.set k digit)).cost := by
    rw [hshifted, Landscape.qualityAt]
  let accepted : Record Extended := { w.record with accepted := w.record.accepted + 1 }
  have hready : accepted.Ready l past := .inr (hrecord.congr rfl rfl)
  obtain ⟨ha, hi⟩ := accepted.consider_counts (w.digits.set k digit)
    (l.qualityAt (w.digits.set k digit)).cost
  have hm := accepted.consider_moves (w.digits.set k digit) (l.qualityAt (w.digits.set k digit)).cost
  rw [Walk.settle, hcost]
  refine ⟨hnext, hshifted, rfl, List.mem_cons_self, hready.consider hl hnext,
    hi.le.trans (himproving.trans ha.ge), ?_⟩
  change (accepted.consider _ _).accepted ≤ (accepted.consider _ _).moves + (w.moves + 1)
  rw [ha, hm]
  change w.record.accepted + 1 ≤ w.record.moves + (w.moves + 1)
  omega

lemma Walk.Sound.reject (hl : l.Exact) (h : w.Sound l past) {k digit : ℕ} (hk : k < l.levels.length)
    (chance : σ) : (w.reject l k digit chance).Sound l (w.digits :: past) := by
  have hback : (w.reject l k digit chance).energies = l.energies w.digits := by
    rw [Walk.reject, Walk.shifted, h.energies, hl.shift_set h.point hk, hl.shift_back h.point hk]
  have hrecord : w.record.Leads l (w.digits :: past) :=
    ⟨List.forall_mem_cons.mpr ⟨h.point, h.record.points⟩, List.mem_cons_of_mem _ h.record.best,
      h.record.cost, List.forall_mem_cons.mpr ⟨h.record.least _ h.current, h.record.least⟩⟩
  exact ⟨h.point, hback, h.cost, List.mem_cons_self, hrecord, h.improving,
    h.accepted.trans (Nat.add_le_add_left (Nat.le_succ _) _)⟩

lemma Walk.Sound.move (hl : l.Exact) (h : w.Sound l past) {t : Extended}
    (hm : w.move l c t = some w') : w'.Sound l (w'.digits :: past) := by
  cases Walk.move_eq_some_iff.mp hm with
  | falls hpropose =>
    obtain ⟨hk, hdigit⟩ := propose_eq_some h.point hpropose
    exact Walk.settle_sound (w := w.improve) hl h.point h.energies (h.record.congr rfl rfl)
      (Nat.succ_le_succ h.improving) h.accepted hk hdigit _
  | climbs hpropose =>
    obtain ⟨hk, hdigit⟩ := propose_eq_some h.point hpropose
    exact Walk.settle_sound hl h.point h.energies h.record (h.improving.trans (Nat.le_succ _))
      h.accepted hk hdigit _
  | stays hpropose => exact h.reject hl (propose_eq_some h.point hpropose).1 _

lemma Stage.Step.sound (hl : l.Exact) {a b : Stage Extended σ} (h : a.walk.Sound l a.past)
    (hstep : Stage.Step l c s a b) : b.walk.Sound l b.past := by
  cases hstep with
  | move hot left goes hm => exact h.move hl hm
  | cool hot done => exact h
  | restart =>
    have hready : a.walk.total.Ready l a.past := .inr (h.record.congr rfl rfl)
    exact Walk.Sound.start hl _ hready h.improving h.accepted

lemma Stage.Reached.sound (hl : l.Exact) {a : Stage Extended σ} (h : Stage.Reached l c s a) :
    a.walk.Sound l a.past := by
  induction h with
  | first => exact Walk.Sound.start hl 0 (.inl ⟨rfl, rfl⟩) le_rfl le_rfl
  | next _ hstep ih => exact hstep.sound hl ih

/-- At every stage of a search what it carries along is what summing anew would give, and its best point
is the cheapest so far. So a point that it reports as valid is never turned down. All that a restart
passes through are such stages, one proposal after the other. -/
theorem reached_recomputes {σ : Type} (g : Grid Extended) (r : Request Extended)
    (l : Landscape Extended) (γ : ℚ) (c : Chance Extended σ) (s : Schedule Extended)
    (hg : g.flaw = none) (hl : Landscape.ofRequest g r = .ok l) (hlevels : ∀ n ∈ l.levels, 0 < n)
    (hγ : r.gap = finite γ) :
    (∀ a, Stage.Reached l c s a →
      Grid.IsPoint l.levels a.walk.digits ∧ a.walk.energies = l.energies a.walk.digits ∧
      a.walk.cost = (l.quality a.walk.energies).cost ∧ a.walk.digits ∈ a.past ∧
      Grid.IsPoint l.levels a.walk.record.best ∧ a.walk.record.best ∈ a.past ∧
      a.walk.record.bestCost = (l.qualityAt a.walk.record.best).cost ∧
      (∀ d ∈ a.past, Scalar.le a.walk.record.bestCost (l.qualityAt d).cost = true) ∧
      a.walk.record.improving ≤ a.walk.record.accepted ∧
      a.walk.record.accepted ≤ a.walk.record.moves + a.walk.moves) ∧
    (∀ m, ∀ o ∈ courses l c s m (max s.restarts 1) 0 (.initial l),
      (∃ w, Walk.Path l c o.start o.trail w) ∧ ∀ p ∈ (s.initial, o.start) :: o.trail,
        ∃ a, Stage.Reached l c s a ∧ a.temperature = p.1 ∧ a.walk = p.2) ∧
    (∀ number record w, restart l c s number record = some w → ∃ m, Walk.Path l c
      (course l c s m number record).start (course l c s m number record).trail w) ∧
    (∀ out, run l c s = some out → ∃ a, Stage.Reached l c s a ∧ out.1 = a.walk.total) ∧
    ∀ nodes points digits events, Grid.anneal l c s nodes points = some (some digits, events) →
      ∃ found, Grid.accept l r digits = some found := by
  obtain ⟨⟨hr, -⟩, rfl⟩ := Landscape.ofRequest_eq_ok_iff.mp hl
  have hexact := Landscape.exact_ofWellFormed hg hr hγ hlevels
  refine ⟨fun a ha => ?_, fun m o ho => ⟨exists_path_of_mem_courses ho, fun p hp => ?_⟩,
    fun number record w hw => exists_path_of_restart hw, fun out hrun => run_reached hrun,
    fun nodes points digits events h => ?_⟩
  · have hsound := ha.sound hexact
    refine ⟨hsound.point, hsound.energies, ?_, hsound.current, hsound.record.points _ hsound.record.best,
      hsound.record.best, hsound.record.cost, hsound.record.least, hsound.improving, hsound.accepted⟩
    rw [hsound.cost, hsound.energies, Landscape.qualityAt]
  · obtain ⟨number, hpassed⟩ := courses_reached m _ .first o ho
    obtain ⟨a, ha, -, htemperature, hwalk⟩ := hpassed p hp
    exact ⟨a, ha, htemperature, hwalk⟩
  · obtain ⟨out, hrun, hsucceeded, rfl⟩ := Grid.anneal_eq_some h
    obtain ⟨b, hb, hout⟩ := run_reached hrun
    rw [hout] at hsucceeded ⊢
    have hrecord := (hb.sound hexact).record
    have hvalid : ((Landscape.ofWellFormed g r).qualityAt b.walk.record.best).isValid = true := by
      rw [Quality.isValid, ← hrecord.cost]
      exact hsucceeded
    obtain ⟨biases, ground, e, hjudged⟩ :=
      Landscape.exists_judged hg hr hγ (hrecord.points _ hrecord.best).length_eq
    exact ⟨_, (hjudged.accept_eq hγ).trans (if_pos hvalid)⟩

def topmost : Chance Extended Unit where
  upTo top state := (Fin.last top, state)
  coin state := (true, state)
  sample _ k state := (List.range k, state)
  start _ := ()
  climbs _ _ state := (false, state)

def equalBitsLandscape : Landscape Extended := .ofWellFormed Grid.coarse Grid.equalBits

theorem reached_recomputes_of_equalBits : ∃ a : Stage Extended Unit,
    Stage.Reached equalBitsLandscape topmost .default a ∧ a.walk.digits = [0, 0, 1] ∧
      a.walk.energies = equalBitsLandscape.energies [0, 0, 1] ∧ a.walk.record.improving = 1 := by
  have hlevels : ∀ n ∈ equalBitsLandscape.levels, 0 < n := by
    rw [equalBitsLandscape, Grid.coarse_levels_of_graph rfl]
    decide
  obtain ⟨hsound, -⟩ := reached_recomputes Grid.coarse Grid.equalBits equalBitsLandscape 2 topmost
    .default Grid.coarse_flaw
    (Landscape.ofRequest_eq_ok_iff.mpr ⟨⟨Grid.equalBits_wellFormed, by decide⟩, rfl⟩) hlevels rfl
  have hmove : ((Walk.start equalBitsLandscape topmost 0 (.initial equalBitsLandscape)).move
      equalBitsLandscape topmost one).map (fun w => (w.digits, w.record.improving)) =
        some ([0, 0, 1], 1) := by
    simp only [equalBitsLandscape, Landscape.ofWellFormed, Grid.coarse_levels]
    cbv
  have hgoes : (Walk.start equalBitsLandscape topmost 0 (.initial equalBitsLandscape)).ended .default =
      false := by
    simp only [equalBitsLandscape, Landscape.ofWellFormed, Grid.coarse_levels]
    cbv
  obtain ⟨w, hw, hseen⟩ := Option.map_eq_some_iff.mp hmove
  obtain ⟨hdigits, himproving⟩ := Prod.mk.inj hseen
  have hot : Scalar.lt (.default : Schedule Extended).final one = true := by cbv
  have hreached := Stage.Reached.first.next
    (Stage.Step.move (s := .default) hot (Nat.succ_pos 499) hgoes hw)
  obtain ⟨-, henergies, -⟩ := hsound _ hreached
  exact ⟨_, hreached, hdigits, hdigits ▸ henergies, himproving⟩

end Annealing

end QuadraticPenalty
