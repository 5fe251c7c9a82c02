import QuadraticPenalty.Proofs.Model.Merging
import QuadraticPenalty.Proofs.Penalty.Auxiliaries
import QuadraticPenalty.Proofs.Problem.Reachability

/-! Without auxiliary labels, the model of a problem does not depend on the order of its constraints:
each of them adds the same part wherever it stands, and the parts are summed key by key. -/

namespace QuadraticPenalty

open Scalar

def Oracle.IsFunction {α σ : Type} (ask : Oracle α σ) : Prop :=
  ∀ q o o', (ask q o).1.penalty? = (ask q o').1.penalty?

namespace Compilation

section Parts

variable {α σ : Type} [Scalar α] {ask : Oracle α σ} {s : Settings α} {p : Problem} {c : Constraint}
  {r r' : Progress α σ} {part : QuadraticModel α} {nodes : List String} {left : ℕ}
  {cs ds : List Constraint} {m n : QuadraticModel α}

omit [Scalar α] in
lemma labels_freshLabel (r : Progress α σ) (stem : String) :
    r.labels <+: (r.freshLabel p stem).2.labels := List.prefix_append ..

lemma grow_labels (h : grow ask s p c left nodes r = (.ok part, r')) : r.labels <+: r'.labels := by
  induction left using Nat.strong_induction_on generalizing nodes r with
  | _ left ih =>
    obtain ⟨-, -, -, -, hlabels, -⟩ | ⟨n, q, rfl, hlabels, -, hgrow⟩ := grow_eq_ok h
    · rw [hlabels]
    · rw [← hlabels]
      exact (labels_freshLabel q s.stem).trans (ih n n.lt_succ_self hgrow)

lemma penalty_labels (h : penalty ask s p c r = (.ok part, r')) : r.labels <+: r'.labels := by
  obtain ⟨-, hpart⟩ := penalty_eq_ok_iff.mp h
  cases hpart with
  | blank => exact List.prefix_rfl
  | closedForm => exact List.prefix_rfl
  | searched hfull hnone hsearch => exact grow_labels (r := r.report _) hsearch

lemma addPenalties_labels (h : addPenalties ask s p cs m r = (.ok n, r')) :
    r.labels <+: r'.labels :=
  addPenalties_induction (motive := fun _ _ q => r.labels <+: q.labels) (fun _ _ _ _ _ _ hq => hq)
    (fun _ _ _ _ _ _ _ _ _ hq hpart _ => hq.trans (penalty_labels hpart)) List.prefix_rfl h

def Settles (ask : Oracle α σ) (s : Settings α) (c : Constraint) (part : QuadraticModel α) : Prop :=
  ∀ (p : Problem) (r : Progress α σ), ∃ r', penalty ask s p c r = (.ok part, r') ∧
    r'.labels = r.labels

lemma grow_settles (hask : ask.IsFunction) (h : grow ask s p c left nodes r = (.ok part, r'))
    (hl : r'.labels = r.labels) (q : Problem) (x : Progress α σ) :
    ∃ x', grow ask s q c left nodes x = (.ok part, x') ∧ x'.labels = x.labels := by
  obtain ⟨found, hanswer, hgap, rfl, -, -⟩ | ⟨n, y, rfl, hlabels, -, hgrow⟩ := grow_eq_ok h
  · have hf : (ask (requestFor s c nodes) x.oracle).1.penalty?.filter (meetsGap s) = some found := by
      rw [hask _ _ r.oracle, hanswer, Option.filter_some, if_pos hgap]
    obtain ⟨x', hx', haligned⟩ := grow_of_some ask q left hf
    exact ⟨x', hx', haligned.labels⟩
  · -- a search that went on has made a label
    have hlonger := (grow_labels hgrow).length_le
    rw [hl, ← hlabels] at hlonger
    simp [Progress.freshLabel] at hlonger

lemma penalty_settles (hask : ask.IsFunction) (h : penalty ask s p c r = (.ok part, r'))
    (hl : r'.labels = r.labels) : Settles ask s c part := by
  intro q x
  obtain ⟨hfits, hpart⟩ := penalty_eq_ok_iff.mp h
  cases hpart with
  | blank hfull => exact ⟨_, penalty_eq_ok_iff.mpr ⟨hfits, .blank hfull⟩, rfl⟩
  | closedForm hfull hgap hpart =>
    exact ⟨_, penalty_eq_ok_iff.mpr ⟨hfits, .closedForm hfull hgap hpart⟩, rfl⟩
  | searched hfull hnone hsearch =>
    obtain ⟨x', hx', hlabels⟩ := grow_settles hask hsearch hl q (x.report _)
    exact ⟨x', penalty_eq_ok_iff.mpr ⟨hfits, .searched hfull hnone hx'⟩, hlabels⟩

inductive Adds (ask : Oracle α σ) (s : Settings α) :
    List Constraint → QuadraticModel α → QuadraticModel α → Prop
  | done (m : QuadraticModel α) : Adds ask s [] m m
  | vacuous {c : Constraint} {cs : List Constraint} {m n : QuadraticModel α} : c.scope = [] →
      Adds ask s cs m n → Adds ask s (c :: cs) m n
  | settled {c : Constraint} {cs : List Constraint} {m k n part : QuadraticModel α} : c.scope ≠ [] →
      Settles ask s c part → m.merge part = .ok k → Adds ask s cs k n → Adds ask s (c :: cs) m n

lemma addPenalties_adds (hask : ask.IsFunction) (h : addPenalties ask s p cs m r = (.ok n, r'))
    (hl : r'.labels = r.labels) : Adds ask s cs m n := by
  induction cs generalizing m r with
  | nil =>
    cases h
    exact .done _
  | cons c cs ih =>
    by_cases hs : c.scope = []
    · rw [addPenalties_vacuous hs] at h
      exact .vacuous hs (ih h hl)
    · obtain ⟨part, q, k, hpart, hmerge, hrest⟩ := (addPenalties_cons_eq_ok_iff hs).mp h
      have hq : q.labels = r.labels :=
        ((hl ▸ addPenalties_labels hrest).eq_of_length_le (penalty_labels hpart).length_le)
      exact .settled hs (penalty_settles hask hpart hq) hmerge (ih hrest (hl.trans hq.symm))

lemma Adds.addPenalties (h : Adds ask s cs m n) (p : Problem) (r : Progress α σ) :
    ∃ r', addPenalties ask s p cs m r = (.ok n, r') ∧ r'.labels = r.labels := by
  induction h generalizing r with
  | done m => exact ⟨r, rfl, rfl⟩
  | vacuous hs _ ih =>
    rw [addPenalties_vacuous hs]
    exact ih _
  | settled hs hpart hmerge _ ih =>
    obtain ⟨q, hq, hql⟩ := hpart p r
    obtain ⟨r', hr', hrl⟩ := ih q
    exact ⟨r', (addPenalties_cons_eq_ok_iff hs).mpr ⟨_, q, _, hq, hmerge, hr'⟩, hrl.trans hql⟩

lemma Adds.perm [RightCommutative (HAdd.hAdd : α → α → α)] (hp : cs.Perm ds)
    (h : Adds ask s cs m n) : Adds ask s ds m n := by
  induction hp generalizing m with
  | nil => exact h
  | cons c _ ih =>
    cases h with
    | vacuous hs h => exact .vacuous hs (ih h)
    | settled hs hpart hmerge h => exact .settled hs hpart hmerge (ih h)
  | swap c d cs =>
    cases h with
    | vacuous hd h =>
      cases h with
      | vacuous hc h => exact .vacuous hc (.vacuous hd h)
      | settled hc hpart hmerge h => exact .settled hc hpart hmerge (.vacuous hd h)
    | settled hd hd' hmerge h =>
      cases h with
      | vacuous hc h => exact .vacuous hc (.settled hd hd' hmerge h)
      | settled hc hc' hmerge' h =>
        obtain ⟨l, hl, hl'⟩ := QuadraticModel.merge_right_comm hmerge hmerge'
        exact .settled hc hc' hl (.settled hd hd' hl' h)
  | trans _ _ ih ih' => exact ih' (ih h)

end Parts

lemma variablesModel_congr {α : Type} [Scalar α] {p q : Problem} (ht : q.vartype = p.vartype)
    (hl : q.labels = p.labels) : (variablesModel q : QuadraticModel α) = variablesModel p := by
  have hentries (p : Problem) : (p.index.map fun _ _ => (zero : α)).entries =
      p.labels.map fun v => (v, zero) := by
    simp [SortedMap.map, Problem.labels, SortedMap.keys]
  refine QuadraticModel.ext ht (SortedMap.ext ?_) rfl rfl
  exact (hentries q).trans (hl ▸ (hentries p).symm)

/-- If a run makes no labels, then with the same variables and the constraints in any other order there
is a problem, and its runs give the same model and make no labels either. -/
theorem run_reordered {σ : Type} (ask : Oracle Extended σ) (s : Settings Extended) (p : Problem)
    (o : σ) (m : QuadraticModel Extended) (cs : List Constraint) (hp : p.Reachable)
    (hask : ask.IsFunction) (h : (run ask s p o).result = .ok m) (hl : (run ask s p o).labels = [])
    (hcs : cs.Perm p.constraints) :
    (∃ q : Problem, q.Reachable ∧ q.vartype = p.vartype ∧ q.constraints = cs ∧
      q.labels = p.labels) ∧
    ∀ q : Problem, q.vartype = p.vartype → q.constraints = cs → q.labels = p.labels → ∀ o',
      (run ask s q o').result = .ok m ∧ (run ask s q o').labels = [] := by
  refine ⟨hp.coherent.exists_reordered hcs, fun q hqt hqc hql o' => ?_⟩
  obtain ⟨hs, r, hadd, hlabels⟩ := run_eq_ok h
  have hadds : Adds ask s p.constraints (variablesModel p) m :=
    addPenalties_adds hask hadd (hlabels.symm.trans hl)
  obtain ⟨r', hadd', hmade⟩ := (hadds.perm hcs.symm).addPenalties q ⟨0, [], o', []⟩
  rw [← variablesModel_congr hqt hql, ← hqc] at hadd'
  rw [run_of_addPenalties hs hadd']
  exact ⟨rfl, hmade⟩

def differ (u v : String) : Constraint := ⟨"Constraint", .spin, [u, v], ⟨[[-1, 1], [1, -1]], by decide⟩⟩

def alternating : Problem :=
  ((Problem.empty .spin).addConstraint (differ "a" "b")).addConstraint (differ "b" "c")

def alternatingBack : Problem :=
  ((Problem.empty .spin).addConstraint (differ "b" "c")).addConstraint (differ "a" "b")

lemma alternating_reachable : alternating.Reachable := by
  have hfirst : (differ "a" "b").WellFormed := Constraint.flaw_eq_none_iff.mp (by decide)
  have hsecond : (differ "b" "c").WellFormed := Constraint.flaw_eq_none_iff.mp (by decide)
  have hlink := (Problem.Reachable.empty .spin).addConstraint hfirst fun _ => rfl
  exact hlink.addConstraint hsecond fun _ => rfl

def strong : Grid Extended where
  linear := (zero, zero)
  coupling := (two, two)
  step := one
  scanLimit := 1
  schedule := .default

theorem run_reordered_of_alternating :
    ∃ m, (run (strong.oracle Grid.still) narrow alternating ()).result = .ok m ∧
      (run (strong.oracle Grid.still) narrow alternatingBack ()).result = .ok m ∧
      (run (strong.oracle Grid.still) narrow alternatingBack ()).labels = [] := by
  obtain ⟨m, hm⟩ := Outcome.exists_model (o := run (strong.oracle Grid.still) narrow alternating ())
    (by decide +kernel)
  have hmade : (run (strong.oracle Grid.still) narrow alternating ()).labels = [] := by
    decide +kernel
  obtain ⟨-, hsame⟩ := run_reordered (strong.oracle Grid.still) narrow alternating () m
    alternatingBack.constraints alternating_reachable (fun _ _ _ => rfl) hm hmade (.swap ..)
  obtain ⟨hback, hnone⟩ := hsame alternatingBack rfl rfl (by decide) ()
  exact ⟨m, hm, hback, hnone⟩

end Compilation

end QuadraticPenalty
