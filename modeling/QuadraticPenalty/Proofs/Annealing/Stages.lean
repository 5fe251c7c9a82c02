import QuadraticPenalty.Proofs.Annealing.Digits

namespace QuadraticPenalty.Annealing

open Scalar

/-- Where a search stands: after `moves` moves at the present temperature. The points that have been
current so far, in all restarts, are kept in `past`. -/
structure Stage (α σ : Type) where
  restart : ℕ
  level : ℕ
  temperature : α
  moves : ℕ
  walk : Walk α σ
  past : List (List ℕ)

variable {α σ : Type}

def Walk.total (w : Walk α σ) : Record α := { w.record with moves := w.record.moves + w.moves }

variable [ExtendedScalar α]

namespace Stage

def begin (l : Landscape α) (c : Chance α σ) (s : Schedule α) (number : ℕ) (r : Record α)
    (past : List (List ℕ)) : Stage α σ :=
  ⟨number, 0, s.initial, 0, Walk.start l c number r, (Walk.start l c number r).digits :: past⟩

def afterMove (a : Stage α σ) (w : Walk α σ) : Stage α σ :=
  { a with moves := a.moves + 1, walk := w, past := w.digits :: a.past }

def afterLevel (s : Schedule α) (a : Stage α σ) : Stage α σ :=
  { a with level := a.level + 1, temperature := s.next a.temperature a.level, moves := 0 }

/-- One turn of the loops. A restart may be given up at any stage, so all stages of a search are among
those that the steps lead to. -/
inductive Step (l : Landscape α) (c : Chance α σ) (s : Schedule α) : Stage α σ → Stage α σ → Prop
  | move {a : Stage α σ} {w : Walk α σ} : lt s.final a.temperature = true →
      a.moves < s.movesPerLevel → a.walk.ended s = false →
      a.walk.move l c a.temperature = some w → Step l c s a (a.afterMove w)
  | cool {a : Stage α σ} : lt s.final a.temperature = true → a.moves = s.movesPerLevel →
      Step l c s a (a.afterLevel s)
  | restart {a : Stage α σ} : Step l c s a (begin l c s (a.restart + 1) a.walk.total a.past)

inductive Reached (l : Landscape α) (c : Chance α σ) (s : Schedule α) : Stage α σ → Prop
  | first : Reached l c s (begin l c s 0 (Record.initial l) [])
  | next {a b : Stage α σ} : Reached l c s a → Step l c s a b → Reached l c s b

end Stage

open Stage

variable {l : Landscape α} {c : Chance α σ} {s : Schedule α}

def Passed (l : Landscape α) (c : Chance α σ) (s : Schedule α) (number : ℕ) (p : α × Walk α σ) : Prop :=
  ∃ a, Reached l c s a ∧ a.restart = number ∧ a.temperature = p.1 ∧ a.walk = p.2

lemma level_reached (n : ℕ) {a : Stage α σ} (ha : Reached l c s a)
    (hot : lt s.final a.temperature = true) (hn : a.moves + n = s.movesPerLevel) :
    (∀ p ∈ a.walk.levelTrail l c s a.temperature n, Passed l c s a.restart p) ∧
      ∀ w, a.walk.level l c s a.temperature n = (w, true) → ∃ b, Reached l c s b ∧ b.walk = w ∧
        b.restart = a.restart ∧ b.level = a.level ∧ b.temperature = a.temperature ∧
        b.moves = s.movesPerLevel := by
  induction n generalizing a with
  | zero =>
    exact ⟨List.forall_mem_nil _, fun w hw => ⟨a, ha, congrArg Prod.fst hw, rfl, rfl, rfl, hn⟩⟩
  | succ n ih =>
    unfold Walk.levelTrail Walk.level
    split
    · exact ⟨List.forall_mem_nil _, fun w hw => by cases hw⟩
    · next hgoes =>
      cases hv : a.walk.move l c a.temperature with
      | none => exact ⟨List.forall_mem_nil _, fun w hw => by cases hw⟩
      | some v =>
        have hnext := ha.next (Step.move hot (by omega) (Bool.eq_false_iff.mpr hgoes) hv)
        obtain ⟨htrail, hend⟩ := ih hnext hot ((Nat.succ_add_eq_add_succ a.moves n).trans hn)
        exact ⟨List.forall_mem_cons.mpr ⟨⟨_, hnext, rfl, rfl, rfl⟩, htrail⟩, hend⟩

lemma trail_reached (m : ℕ) {a : Stage α σ} (ha : Reached l c s a) (hmoves : a.moves = 0) :
    ∀ p ∈ a.walk.trail l c s m a.level a.temperature, Passed l c s a.restart p := by
  induction m generalizing a with
  | zero => exact List.forall_mem_nil _
  | succ m ih =>
    unfold Walk.trail
    split
    · next hot =>
      obtain ⟨htrail, hend⟩ := level_reached s.movesPerLevel ha hot (by omega)
      refine List.forall_mem_append.mpr ⟨htrail, ?_⟩
      split
      · exact List.forall_mem_nil _
      · next v hv =>
        obtain ⟨b, hb, rfl, hrestart, hlevel, htemperature, hdone⟩ := hend v hv
        have hcool := ih (hb.next (Step.cool (htemperature ▸ hot) hdone)) rfl
        simp only [Stage.afterLevel, hrestart, hlevel, htemperature] at hcool
        exact hcool
    · exact List.forall_mem_nil _

lemma course_reached (m : ℕ) {number : ℕ} {r : Record α} {past : List (List ℕ)}
    (h : Reached l c s (begin l c s number r past)) :
    ∀ p ∈ (s.initial, (course l c s m number r).start) :: (course l c s m number r).trail,
      Passed l c s number p :=
  List.forall_mem_cons.mpr ⟨⟨_, h, rfl, rfl, rfl⟩, trail_reached m h rfl⟩

lemma restart_reached {number : ℕ} {r : Record α} {past : List (List ℕ)} {w : Walk α σ}
    (h : Reached l c s (begin l c s number r past)) (hw : restart l c s number r = some w) :
    ∃ b, Reached l c s b ∧ b.walk = w ∧ b.restart = number := by
  obtain ⟨m, hpath⟩ := exists_path_of_restart hw
  have hpassed := course_reached m h
  obtain hstart | ⟨t, ht⟩ := hpath.eq_or_mem
  · obtain ⟨b, hb, hnumber, -, hwalk⟩ := hpassed _ List.mem_cons_self
    exact ⟨b, hb, hwalk.trans hstart.symm, hnumber⟩
  · obtain ⟨b, hb, hnumber, -, hwalk⟩ := hpassed _ (List.mem_cons_of_mem _ ht)
    exact ⟨b, hb, hwalk, hnumber⟩

lemma Walk.Tries.record_moves {w v : Walk α σ} {t : α} (h : w.Tries l c t v) :
    v.record.moves = w.record.moves := by
  cases h with
  | falls => exact Record.consider_moves ..
  | climbs => exact Record.consider_moves ..
  | stays => rfl

lemma total_of_restart {number : ℕ} {r : Record α} {w : Walk α σ}
    (hw : restart l c s number r = some w) : w.total = r.after w := by
  have hmoves := restart_induction (P := fun w => w.record.moves = r.moves)
    (fun _ _ _ hw h => h.record_moves.trans hw) (Record.consider_moves ..) hw
  rw [Walk.total, Record.after, hmoves]

lemma courses_reached (m n : ℕ) {number : ℕ} {r : Record α} {past : List (List ℕ)}
    (h : Reached l c s (begin l c s number r past)) :
    ∀ o ∈ courses l c s m n number r, ∃ number, ∀ p ∈ (s.initial, o.start) :: o.trail,
      Passed l c s number p := by
  induction n generalizing number r past with
  | zero => exact List.forall_mem_nil _
  | succ n ih =>
    refine List.forall_mem_cons.mpr ⟨⟨number, course_reached m h⟩, ?_⟩
    split
    · exact List.forall_mem_nil _
    · next w hw =>
      obtain ⟨a, ha, rfl, hnumber⟩ := restart_reached h hw
      dsimp only
      rw [← Record.after, ← total_of_restart hw]
      split
      · exact List.forall_mem_nil _
      · exact ih (hnumber ▸ ha.next .restart)

lemma restarts_reached {n number : ℕ} {r : Record α} {past : List (List ℕ)}
    {out : Record α × List (Event α)} (h : Reached l c s (begin l c s number r past))
    (hrun : restarts l c s (n + 1) number r = some out) :
    ∃ a, Reached l c s a ∧ out.1 = a.walk.total := by
  induction n generalizing number r past out with
  | zero =>
    obtain ⟨w, hw, ⟨-, hout⟩ | ⟨-, rest, hrest, hout⟩⟩ := restarts_succ_eq_some hrun
    · obtain ⟨a, ha, rfl, -⟩ := restart_reached h hw
      exact ⟨a, ha, hout.trans (total_of_restart hw).symm⟩
    · obtain ⟨a, ha, rfl, -⟩ := restart_reached h hw
      cases hrest
      exact ⟨a, ha, hout.trans (total_of_restart hw).symm⟩
  | succ n ih =>
    obtain ⟨w, hw, hcases⟩ := restarts_succ_eq_some hrun
    obtain ⟨a, ha, rfl, hnumber⟩ := restart_reached h hw
    rw [← total_of_restart hw] at hcases
    obtain ⟨-, hout⟩ | ⟨-, rest, hrest, hout⟩ := hcases
    · exact ⟨a, ha, hout⟩
    · exact hout ▸ ih (hnumber ▸ ha.next .restart) hrest

lemma run_reached {out : Record α × List (Event α)} (h : run l c s = some out) :
    ∃ a, Reached l c s a ∧ out.1 = a.walk.total := by
  obtain ⟨n, hn⟩ : ∃ n, max s.restarts 1 = n + 1 := ⟨max s.restarts 1 - 1, by omega⟩
  rw [run, hn] at h
  exact restarts_reached .first h

end QuadraticPenalty.Annealing
