import QuadraticPenalty.Proofs.Annealing.Trails

namespace QuadraticPenalty.Annealing

variable {α σ : Type} [ExtendedScalar α] {l : Landscape α} {c : Chance α σ} {s : Schedule α}

lemma restart_induction {P : Walk α σ → Prop} (htries : ∀ t w v, P w → w.Tries l c t v → P v)
    {number : ℕ} {r : Record α} {w : Walk α σ} (hw : P (Walk.start l c number r))
    (h : restart l c s number r = some w) : P w := by
  obtain ⟨m, hpath⟩ := exists_path_of_restart h
  exact hpath.keeps htries hw

def Record.after (r : Record α) (w : Walk α σ) : Record α :=
  { w.record with moves := r.moves + w.moves }

lemma restarts_succ_eq_some {n number : ℕ} {r : Record α} {out : Record α × List (Event α)}
    (h : restarts l c s (n + 1) number r = some out) : ∃ w, restart l c s number r = some w ∧
      ((r.after w).succeeded = true ∧ out.1 = r.after w ∨
        (r.after w).succeeded = false ∧
          ∃ rest, restarts l c s n (number + 1) (r.after w) = some rest ∧ out.1 = rest.1) := by
  obtain ⟨w, hw, h⟩ := Option.bind_eq_some_iff.mp h
  refine ⟨w, hw, ?_⟩
  dsimp only at h
  split at h
  · next hsucceeded =>
    cases h
    exact .inl ⟨hsucceeded, rfl⟩
  · next hfails =>
    obtain ⟨rest, hrest, h⟩ := Option.bind_eq_some_iff.mp h
    cases h
    exact .inr ⟨Bool.eq_false_iff.mpr hfails, rest, hrest, rfl⟩

lemma exists_restarts (h : ∀ number r, ∃ w, restart l c s number r = some w) (n number : ℕ)
    (r : Record α) : ∃ out, restarts l c s n number r = some out := by
  induction n generalizing number r with
  | zero => exact ⟨_, rfl⟩
  | succ n ih =>
    obtain ⟨w, hw⟩ := h number r
    obtain ⟨rest, hrest⟩ := ih (number + 1) (r.after w)
    rw [restarts, hw, Option.bind_eq_bind, Option.bind_some]
    dsimp only
    split
    · exact ⟨_, rfl⟩
    · rw [← Record.after, hrest]
      exact ⟨_, rfl⟩

lemma restarts_induction {P : Record α → Prop} (hmoves : ∀ r n, P r → P { r with moves := n })
    (hrestart : ∀ number r w, P r → restart l c s number r = some w → P w.record) {n number : ℕ}
    {r : Record α} {out : Record α × List (Event α)} (hr : P r)
    (h : restarts l c s n number r = some out) : P out.1 := by
  induction n generalizing number r out with
  | zero => exact congrArg Prod.fst (Option.some.inj h) ▸ hr
  | succ n ih =>
    obtain ⟨w, hw, ⟨-, hout⟩ | ⟨-, rest, hrest, hout⟩⟩ := restarts_succ_eq_some h
    · exact hout ▸ hmoves _ _ (hrestart number r w hr hw)
    · exact hout ▸ ih (hmoves _ _ (hrestart number r w hr hw)) hrest

def Walk.Fits (l : Landscape α) (w : Walk α σ) : Prop :=
  w.digits.length = l.levels.length ∧ w.record.best.length = l.levels.length

lemma Record.consider_best {n : ℕ} {r : Record α} {digits : List ℕ} (cost : α)
    (hr : r.best.length = n) (hd : digits.length = n) : (r.consider digits cost).best.length = n := by
  unfold Record.consider
  split
  exacts [hd, hr]

lemma Record.consider_moves (r : Record α) (digits : List ℕ) (cost : α) :
    (r.consider digits cost).moves = r.moves := by
  unfold Record.consider
  split <;> rfl

lemma Walk.Fits.settle {w : Walk α σ} (h : w.Fits l) (k digit : ℕ) (energies : List α) (cost : α)
    (chance : σ) : (w.settle k digit energies cost chance).Fits l := by
  have hdigits : (w.digits.set k digit).length = l.levels.length := by simpa using h.1
  exact ⟨hdigits, Record.consider_best cost h.2 hdigits⟩

lemma Walk.Fits.tries {w v : Walk α σ} {t : α} (h : w.Fits l) (ht : w.Tries l c t v) : v.Fits l := by
  cases ht with
  | falls => exact Walk.Fits.settle (w := w.improve) h _ _ _ _ _
  | climbs => exact h.settle _ _ _ _ _
  | stays => exact h

lemma drawDigits_length (d : Dice σ) (levels : List ℕ) (state : σ) :
    (drawDigits d levels state).1.length = levels.length := by
  induction levels generalizing state with
  | nil => rfl
  | cons n levels ih => simp [drawDigits, ih]

lemma Walk.start_fits (number : ℕ) {r : Record α} (hr : r.best.length = l.levels.length) :
    (Walk.start l c number r).Fits l :=
  ⟨drawDigits_length _ _ _, Record.consider_best _ hr (drawDigits_length _ _ _)⟩

lemma run_best_length {out : Record α × List (Event α)} (h : run l c s = some out) :
    out.1.best.length = l.levels.length :=
  restarts_induction (P := fun r => r.best.length = l.levels.length) (fun _ _ h => h)
    (fun number r _ hr hw => (restart_induction (P := Walk.Fits l) (fun _ _ _ h ht => h.tries ht)
      (Walk.start_fits number hr) hw).2) (by simp [Record.initial]) h

end QuadraticPenalty.Annealing
