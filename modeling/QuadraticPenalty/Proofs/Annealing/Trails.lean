import QuadraticPenalty.Proofs.Annealing.Moves

namespace QuadraticPenalty.Annealing

open Scalar

variable {α σ : Type} [ExtendedScalar α]

/-- Proposals are judged one after the other. Each is listed as its temperature and the walk after it. -/
inductive Walk.Path (l : Landscape α) (c : Chance α σ) :
    Walk α σ → List (α × Walk α σ) → Walk α σ → Prop
  | nil {w : Walk α σ} : Path l c w [] w
  | cons {t : α} {w v w' : Walk α σ} {ps : List (α × Walk α σ)} :
      w.Tries l c t v → Path l c v ps w' → Path l c w ((t, v) :: ps) w'

def Walk.levelTrail (l : Landscape α) (c : Chance α σ) (s : Schedule α) (t : α) :
    ℕ → Walk α σ → List (α × Walk α σ)
  | 0, _ => []
  | n + 1, w =>
    if w.ended s then []
    else
      match w.move l c t with
      | none => []
      | some v => (t, v) :: v.levelTrail l c s t n

def Walk.trail (l : Landscape α) (c : Chance α σ) (s : Schedule α) :
    ℕ → ℕ → α → Walk α σ → List (α × Walk α σ)
  | 0, _, _, _ => []
  | m + 1, k, t, w =>
    if lt s.final t then
      w.levelTrail l c s t s.movesPerLevel ++
        match w.level l c s t s.movesPerLevel with
        | (_, false) => []
        | (v, true) => v.trail l c s m (k + 1) (s.next t k)
    else []

structure Course (α σ : Type) where
  start : Walk α σ
  trail : List (α × Walk α σ)

def course (l : Landscape α) (c : Chance α σ) (s : Schedule α) (m number : ℕ) (r : Record α) :
    Course α σ where
  start := Walk.start l c number r
  trail := (Walk.start l c number r).trail l c s m 0 s.initial

/-- The first `m` levels of each restart. A restart that does not end is the last one. -/
def courses (l : Landscape α) (c : Chance α σ) (s : Schedule α) (m : ℕ) :
    ℕ → ℕ → Record α → List (Course α σ)
  | 0, _, _ => []
  | n + 1, number, r =>
    course l c s m number r ::
      match restart l c s number r with
      | none => []
      | some w =>
        let r := { w.record with moves := r.moves + w.moves }
        if r.succeeded then [] else courses l c s m n (number + 1) r

variable {l : Landscape α} {c : Chance α σ} {s : Schedule α} {t : α} {k m n number : ℕ}
  {w v w' : Walk α σ} {ps qs : List (α × Walk α σ)} {ts : List α} {r : Record α}

namespace Walk

lemma Path.append (h : Path l c w ps v) (h' : Path l c v qs w') : Path l c w (ps ++ qs) w' := by
  induction h with
  | nil => exact h'
  | cons htry _ ih => exact .cons htry (ih h')

lemma Path.keeps {P : Walk α σ → Prop}
    (hmove : ∀ t w v, P w → w.Tries l c t v → P v) (h : Path l c w ps w') (hw : P w) : P w' := by
  induction h with
  | nil => exact hw
  | cons htry _ ih => exact ih (hmove _ _ _ hw htry)

lemma Path.eq_or_mem (h : Path l c w ps w') : w' = w ∨ ∃ t, (t, w') ∈ ps := by
  induction h with
  | nil => exact .inl rfl
  | cons _ _ ih =>
    obtain rfl | ⟨t, ht⟩ := ih
    exacts [.inr ⟨_, List.mem_cons_self⟩, .inr ⟨t, List.mem_cons_of_mem _ ht⟩]

lemma Tries.moves_eq (h : w.Tries l c t v) : v.moves = w.moves + 1 := by
  cases h <;> rfl

lemma Path.moves_eq (h : Path l c w ps w') : w'.moves = w.moves + ps.length := by
  induction h with
  | nil => rfl
  | cons htry _ ih => rw [ih, htry.moves_eq, List.length_cons, Nat.add_right_comm, Nat.add_assoc]

lemma levelTrail_path (t : α) (n : ℕ) (w : Walk α σ) :
    Path l c w (w.levelTrail l c s t n) (w.level l c s t n).1 := by
  induction n generalizing w with
  | zero => exact .nil
  | succ n ih =>
    unfold levelTrail level
    split
    · exact .nil
    · cases hv : w.move l c t with
      | none => exact .nil
      | some v => exact .cons (move_eq_some_iff.mp hv) (ih v)

/-- From the level number `k` at `t` on, the walk makes moves at the temperatures `ts` and ends. The
level that it ends in may be broken off. -/
inductive Cools (l : Landscape α) (c : Chance α σ) (s : Schedule α) :
    ℕ → α → Walk α σ → List α → Walk α σ → Prop
  | cold {k : ℕ} {t : α} {w : Walk α σ} : lt s.final t = false → Cools l c s k t w [] w
  | broken {k : ℕ} {t : α} {w w' : Walk α σ} : lt s.final t = true →
      w.level l c s t s.movesPerLevel = (w', false) → Cools l c s k t w [t] w'
  | next {k : ℕ} {t : α} {w v w' : Walk α σ} {ts : List α} : lt s.final t = true →
      w.level l c s t s.movesPerLevel = (v, true) →
      Cools l c s (k + 1) (s.next t k) v ts w' → Cools l c s k t w (t :: ts) w'

lemma cool_eq_some_iff : w.cool l c s k t = some w' ↔ ∃ ts, Cools l c s k t w ts w' := by
  constructor
  · intro h
    refine cool.partial_correctness l c s
      (fun k t w w' => ∃ ts, Cools l c s k t w ts w') ?_ k t w w' h
    intro cool ih k t w w' h
    split at h
    · next hot =>
      split at h
      · next v hv =>
        obtain rfl := Option.some.inj h
        exact ⟨_, .broken hot hv⟩
      · next v hv =>
        obtain ⟨ts, hts⟩ := ih _ _ _ _ h
        exact ⟨_, .next hot hv hts⟩
    · next hcold =>
      obtain rfl := Option.some.inj h
      exact ⟨_, .cold (Bool.eq_false_iff.mpr hcold)⟩
  · rintro ⟨ts, h⟩
    induction h with
    | cold hcold =>
      rw [cool, hcold]
      rfl
    | broken hot hw =>
      rw [cool, if_pos hot, hw]
    | next hot hv _ ih =>
      rw [cool, if_pos hot, hv]
      exact ih

lemma exists_path_trail (m k : ℕ) (t : α) (w : Walk α σ) :
    ∃ w', Path l c w (w.trail l c s m k t) w' := by
  induction m generalizing k t w with
  | zero => exact ⟨w, .nil⟩
  | succ m ih =>
    have hlevel := levelTrail_path (l := l) (c := c) (s := s) t s.movesPerLevel w
    unfold trail
    split
    · split
      · next v hv =>
        rw [hv] at hlevel
        exact ⟨v, hlevel.append .nil⟩
      · next v hv =>
        rw [hv] at hlevel
        obtain ⟨w', hw'⟩ := ih (k + 1) (s.next t k) v
        exact ⟨w', hlevel.append hw'⟩
    · exact ⟨w, .nil⟩

lemma Cools.path (h : Cools l c s k t w ts w') (hm : ts.length ≤ m) :
    Path l c w (w.trail l c s m k t) w' := by
  induction h generalizing m with
  | cold hcold =>
    cases m with
    | zero => exact .nil
    | succ m =>
      rw [trail, hcold]
      exact .nil
  | @broken k t w w' hot hw =>
    obtain ⟨m, rfl⟩ := Nat.exists_eq_add_one_of_ne_zero (Nat.one_le_iff_ne_zero.mp hm)
    have hlevel := levelTrail_path (l := l) (c := c) (s := s) t s.movesPerLevel w
    rw [hw] at hlevel
    rw [trail, if_pos hot, hw]
    exact hlevel.append .nil
  | @next k t w v w' ts hot hv _ ih =>
    obtain ⟨m, rfl⟩ := Nat.exists_eq_add_one_of_ne_zero (Nat.ne_zero_of_lt hm)
    have hlevel := levelTrail_path (l := l) (c := c) (s := s) t s.movesPerLevel w
    rw [hv] at hlevel
    rw [trail, if_pos hot, hv]
    exact hlevel.append (ih (Nat.le_of_succ_le_succ hm))

end Walk

lemma exists_path_of_mem_courses {o : Course α σ} (h : o ∈ courses l c s m n number r) :
    ∃ w, Walk.Path l c o.start o.trail w := by
  induction n generalizing number r with
  | zero => cases h
  | succ n ih =>
    obtain rfl | h := List.mem_cons.mp h
    · exact Walk.exists_path_trail m 0 s.initial _
    · dsimp only at h
      split at h
      · cases h
      · split at h
        · cases h
        · exact ih h

lemma exists_path_of_restart (h : restart l c s number r = some w) : ∃ m,
    Walk.Path l c (course l c s m number r).start (course l c s m number r).trail w := by
  obtain ⟨ts, hts⟩ := Walk.cool_eq_some_iff.mp h
  exact ⟨ts.length, hts.path le_rfl⟩

end QuadraticPenalty.Annealing
