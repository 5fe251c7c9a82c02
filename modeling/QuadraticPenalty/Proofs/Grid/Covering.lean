import QuadraticPenalty.Grid.Oracle
import QuadraticPenalty.Proofs.Annealing.Digits
import QuadraticPenalty.Proofs.Grid.Model

namespace QuadraticPenalty

variable {α σ : Type}

def Oracle.Covers (ask : Oracle α σ) : Prop :=
  ∀ q o, ∀ found ∈ (ask q o).1.penalty?,
    found.model.WellFormed ∧ ∀ v, v ∈ found.model.labels ↔ v ∈ q.graph.nodes

variable [ExtendedScalar α]

namespace Landscape

open Grid

variable {l : Landscape α} {best : Option (Candidate α)} {digits rest : List ℕ}

lemma advance_length {ds ns es : List ℕ} (h : advance ds ns = some es) : es.length = ds.length := by
  induction ds generalizing ns es with
  | nil => simp [advance] at h
  | cons d ds ih =>
    cases ns with
    | nil => simp [advance] at h
    | cons n ns =>
      rw [advance] at h
      split at h
      · next fs hfs =>
        cases h
        simp [ih hfs]
      · split at h
        · cases h
          simp
        · cases h

def Keeps (l : Landscape α) (best : Option (Candidate α)) : Prop :=
  ∀ b ∈ best, b.digits.length = l.levels.length

lemma Keeps.keepBest (h : l.Keeps best) (hd : digits.length = l.levels.length) :
    l.Keeps (l.keepBest best digits) := by
  rw [Landscape.keepBest]
  split
  · intro b hb
    obtain rfl := Option.mem_some_iff.mp hb
    exact hd
  · exact h

lemma Keeps.walkSlice (first left : ℕ) (h : l.Keeps best) (hr : rest.length + 1 = l.levels.length) :
    l.Keeps (l.walkSlice first left rest best) := by
  induction left generalizing rest best with
  | zero => exact h
  | succ left ih =>
    have hkept : l.Keeps (l.keepBest best (first :: rest)) := h.keepBest hr
    rw [Landscape.walkSlice]
    split
    · next next hnext => exact ih hkept (by rw [advance_length hnext, hr])
    · exact hkept

lemma keeps_scanSlice (hne : l.levels ≠ []) (first : ℕ) : l.Keeps (l.scanSlice first) := by
  have hpos := List.length_pos_iff.mpr hne
  refine Keeps.walkSlice first _ (fun b hb => by cases hb) ?_
  rw [List.length_map, List.length_tail]
  omega

lemma mem_of_bestOf {cs : List (Candidate α)} {b : Candidate α} (h : bestOf cs = some b) : b ∈ cs := by
  cases cs with
  | nil => cases h
  | cons c cs =>
    obtain rfl := Option.some.inj h
    refine List.foldlRecOn (motive := fun b => b ∈ c :: cs) cs Candidate.better (by simp)
      fun a ha d hd => ?_
    rw [Candidate.better]
    split
    exacts [ha, List.mem_cons_of_mem c hd]

lemma scan_length (h : l.scan = some digits) : digits.length = l.levels.length := by
  rw [scan] at h
  split at h
  · next hl =>
    split at h
    · cases h
      rw [hl]
    · cases h
  · next n ns hl =>
    obtain ⟨b, hb, rfl⟩ := Option.map_eq_some_iff.mp h
    obtain ⟨first, -, hfirst⟩ := List.mem_filterMap.mp (mem_of_bestOf hb)
    exact keeps_scanSlice (by simp [hl]) first b hfirst

lemma levels_length (g : Grid α) (r : Request α) :
    (ofWellFormed g r).levels.length = r.graph.nodes.length + r.graph.edges.length := by
  simp [ofWellFormed]

lemma modelAt_frame {g : Grid α} {r : Request α} (hr : r.WellFormed) (ground : α)
    (hd : digits.length = (ofWellFormed g r).levels.length) :
    ((ofWellFormed g r).modelAt r.graph digits ground).WellFormed ∧
      ∀ v, v ∈ ((ofWellFormed g r).modelAt r.graph digits ground).labels ↔ v ∈ r.graph.nodes := by
  rw [levels_length] at hd
  have hsize : r.graph.nodes.length ≤ ((ofWellFormed g r).values digits).length := by
    simp only [values, ofWellFormed, List.length_zipWith, List.length_append, List.length_replicate]
    omega
  obtain ⟨hw, -, hl, -⟩ := spinModel_frame ground hr.edges hsize
  exact ⟨hw, hl⟩

end Landscape

namespace Grid

open Landscape

variable {g : Grid α} {c : Chance α σ} {l : Landscape α} {r : Request α} {digits : List ℕ}
  {events : List (Event α)} {found : PenaltyModel α}

lemma anneal_eq_some {s : Schedule α} {nodes : ℕ} {points : Option ℕ}
    (h : anneal l c s nodes points = some (some digits, events)) :
    ∃ out, Annealing.run l c s = some out ∧ out.1.succeeded = true ∧ out.1.best = digits := by
  obtain ⟨out, hout, h⟩ := Option.bind_eq_some_iff.mp h
  obtain ⟨hbest, -⟩ := Prod.mk.inj (Option.some.inj h)
  obtain ⟨hsucceeded, hbest⟩ := Option.ite_none_right_eq_some.mp hbest
  exact ⟨out, hout, hsucceeded, Option.some.inj hbest⟩

lemma search_length {nodes : ℕ} (h : g.search c l nodes = some (some digits, events)) :
    digits.length = l.levels.length := by
  have hanneal : ∀ points, anneal l c g.schedule nodes points = some (some digits, events) →
      digits.length = l.levels.length := by
    intro points h
    obtain ⟨out, hout, -, rfl⟩ := anneal_eq_some h
    exact Annealing.run_best_length hout
  unfold search at h
  split at h
  · split at h
    · exact scan_length (Prod.mk.inj (Option.some.inj h)).1
    · exact hanneal _ h
  · exact hanneal _ h

lemma answer_eq_some (h : g.answer c r = some ⟨some found, events⟩) :
    (r.WellFormed ∧ r.graph.nodes.length ≤ maxNodes) ∧ ∃ digits,
      g.search c (ofWellFormed g r) r.graph.nodes.length = some (some digits, events) ∧
      accept (ofWellFormed g r) r digits = some found := by
  unfold answer at h
  split at h
  · cases h
  · next l hl =>
    obtain ⟨hw, rfl⟩ := ofRequest_eq_ok_iff.mp hl
    obtain ⟨⟨digits?, events'⟩, hsearch, h⟩ := Option.bind_eq_some_iff.mp h
    obtain ⟨hfound, rfl⟩ := Reply.mk.inj (Option.some.inj h)
    obtain ⟨digits, rfl, hf⟩ := Option.bind_eq_some_iff.mp hfound
    exact ⟨hw, digits, hsearch, hf⟩

lemma answer_of_oracle {t : Unit} (h : (g.oracle c r t).1.penalty? = some found) :
    ∃ events, g.answer c r = some ⟨some found, events⟩ := by
  change ((g.answer c r).getD ⟨none, []⟩).penalty? = some found at h
  cases hanswer : g.answer c r with
  | none =>
    rw [hanswer] at h
    cases h
  | some reply =>
    rw [hanswer] at h
    exact ⟨reply.events, congrArg some (congrArg (Reply.mk · reply.events) h)⟩

lemma oracle_covers (g : Grid α) (c : Chance α σ) : (g.oracle c).Covers := by
  intro r _ found h
  obtain ⟨events, h⟩ := answer_of_oracle h
  obtain ⟨⟨hr, -⟩, digits, hd, hf⟩ := answer_eq_some h
  rw [accept] at hf
  split at hf
  · cases hf
  · obtain ⟨hw, hlabels⟩ := modelAt_frame (g := g) hr
      ((ofWellFormed g r).qualityAt digits).ground (search_length hd)
    obtain rfl := Option.some.inj hf
    exact ⟨hw.toVartype _, fun v =>
      ((QuadraticModel.toVartype_frame hw _).2.1 v).trans (hlabels v)⟩

end Grid

end QuadraticPenalty
