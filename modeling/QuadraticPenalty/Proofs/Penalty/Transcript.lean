import QuadraticPenalty.Proofs.Penalty.Growth

namespace QuadraticPenalty

variable {α σ τ : Type}

namespace Oracle

def replies (ask : Oracle α σ) : List (Request α) → σ → List (Option (PenaltyModel α))
  | [], _ => []
  | q :: qs, o => (ask q o).1.penalty? :: replies ask qs (ask q o).2

def after (ask : Oracle α σ) (qs : List (Request α)) (o : σ) : σ :=
  qs.foldl (fun o q => (ask q o).2) o

def recorded (ask : Oracle α σ) : Oracle α (List (Request α) × σ) := fun q o =>
  ((ask q o.2).1, o.1 ++ [q], (ask q o.2).2)

def Forgets (f : τ → σ) (full : Oracle α τ) (ask : Oracle α σ) : Prop :=
  ∀ q o, ask q (f o) = ((full q o).1, f (full q o).2)

variable {ask : Oracle α σ} {full : Oracle α τ} {f : τ → σ}

lemma after_append (qs rs : List (Request α)) (o : σ) :
    ask.after (qs ++ rs) o = ask.after rs (ask.after qs o) := List.foldl_append

def IsQuiet (ask : Oracle α σ) : Prop := ∀ q o, (ask q o).1.events.filterMap Event.request? = []

lemma forgets_recorded (ask : Oracle α σ) : Forgets Prod.snd ask.recorded ask := fun _ _ => rfl

end Oracle

namespace Compilation

open Oracle

def Progress.forget (f : τ → σ) (r : Progress α τ) : Progress α σ :=
  ⟨r.nextNumber, r.labels, f r.oracle, r.events⟩

variable {ask : Oracle α σ} {full : Oracle α τ} {f : τ → σ} {s : Settings α} {p : Problem}
  {c : Constraint}

@[simp] lemma Progress.forget_report (r : Progress α τ) (es : List (Event α)) :
    (r.forget f).report es = (r.report es).forget f := rfl

@[simp] lemma Progress.forget_freshLabel (r : Progress α τ) (stem : String) :
    (r.forget f).freshLabel p stem = ((r.freshLabel p stem).1, (r.freshLabel p stem).2.forget f) := rfl

lemma Progress.forget_ask (h : Forgets f full ask) (nodes : List String) (r : Progress α τ) :
    ((r.forget f).ask ask s c nodes).2 = (r.ask full s c nodes).2.forget f := by
  have hq := h (requestFor s c nodes) r.oracle
  simp only [Progress.ask, Progress.forget, hq]
  rfl

variable [Scalar α]

lemma grow_forget (h : Forgets f full ask) (left : ℕ) (nodes : List String) (r : Progress α τ) :
    grow ask s p c left nodes (r.forget f) =
      ((grow full s p c left nodes r).1, (grow full s p c left nodes r).2.forget f) := by
  have hreply : ∀ nodes (r : Progress α τ),
      (ask (requestFor s c nodes) (r.forget f).oracle).1.penalty? =
        (full (requestFor s c nodes) r.oracle).1.penalty? := fun nodes r => by
    rw [Progress.forget, h]
  have hrefused : ∀ nodes (r : Progress α τ),
      (r.forget f).refused ask s c nodes = (r.refused full s c nodes).forget f := fun nodes r => by
    rw [Progress.refused, Progress.refused, Progress.forget_ask h, hreply, Progress.forget_report]
  induction left generalizing nodes r with
  | zero =>
    cases hf : (full (requestFor s c nodes) r.oracle).1.penalty?.filter (meetsGap s) with
    | some found =>
      rw [grow_eq_of_some full p 0 hf, grow_eq_of_some ask p 0 ((congrArg _ (hreply nodes r)).trans hf),
        Progress.forget_ask h, Progress.forget_report]
    | none =>
      rw [grow_zero_eq full p hf, grow_zero_eq ask p ((congrArg _ (hreply nodes r)).trans hf), hrefused,
        Progress.forget_report]
  | succ left ih =>
    cases hf : (full (requestFor s c nodes) r.oracle).1.penalty?.filter (meetsGap s) with
    | some found =>
      rw [grow_eq_of_some full p _ hf, grow_eq_of_some ask p _ ((congrArg _ (hreply nodes r)).trans hf),
        Progress.forget_ask h, Progress.forget_report]
    | none =>
      rw [grow_succ_eq full p _ hf, grow_succ_eq ask p _ ((congrArg _ (hreply nodes r)).trans hf),
        hrefused, Progress.forget_freshLabel, ih]

lemma penalty_forget (h : Forgets f full ask) (r : Progress α τ) :
    penalty ask s p c (r.forget f) = ((penalty full s p c r).1, (penalty full s p c r).2.forget f) := by
  have hsearch : search ask s p c (r.forget f) =
      ((search full s p c r).1, (search full s p c r).2.forget f) := by
    rw [search, Progress.forget_report]
    exact grow_forget h _ _ _
  rw [penalty, penalty]
  split
  · rfl
  · split
    · rfl
    · split
      · split
        · exact hsearch
        · rfl
        · rfl
      · exact hsearch

lemma addPenalties_forget (h : Forgets f full ask) (cs : List Constraint) (m : QuadraticModel α)
    (r : Progress α τ) : addPenalties ask s p cs m (r.forget f) =
      ((addPenalties full s p cs m r).1, (addPenalties full s p cs m r).2.forget f) := by
  induction cs generalizing m r with
  | nil => rfl
  | cons c cs ih =>
    rw [addPenalties, addPenalties, penalty_forget h]
    split
    · rw [Progress.forget_report]
      exact ih _ _
    · obtain ⟨x, r'⟩ := penalty full s p c r
      cases x with
      | error fault => rfl
      | ok part =>
        dsimp only
        cases m.merge part with
        | error fault => rfl
        | ok n => exact ih _ _

lemma run_forget (h : Forgets f full ask) (o : τ) : run ask s p (f o) =
    ⟨(run full s p o).result, (run full s p o).labels, (run full s p o).events,
      f (run full s p o).oracle⟩ := by
  have hadd := addPenalties_forget (s := s) (p := p) h p.constraints (variablesModel p) ⟨0, [], o, []⟩
  change addPenalties ask s p p.constraints (variablesModel p) ⟨0, [], f o, []⟩ = _ at hadd
  rw [run, run, hadd]
  cases s.flaw with
  | some m => rfl
  | none =>
    obtain ⟨x, r⟩ := addPenalties full s p p.constraints (variablesModel p) ⟨0, [], o, []⟩
    cases x <;> rfl

def asked (ask : Oracle α σ) (s : Settings α) (p : Problem) (o : σ) : List (Request α) :=
  (run ask.recorded s p ([], o)).oracle.1

lemma run_recorded (ask : Oracle α σ) (s : Settings α) (p : Problem) (o : σ) :
    run ask s p o = ⟨(run ask.recorded s p ([], o)).result, (run ask.recorded s p ([], o)).labels,
      (run ask.recorded s p ([], o)).events, (run ask.recorded s p ([], o)).oracle.2⟩ :=
  run_forget (forgets_recorded ask) ([], o)

end Compilation

end QuadraticPenalty
