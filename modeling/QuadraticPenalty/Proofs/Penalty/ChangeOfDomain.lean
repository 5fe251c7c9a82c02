import QuadraticPenalty.Proofs.Grid.Bits
import QuadraticPenalty.Proofs.Penalty.Additivity
import QuadraticPenalty.Proofs.Penalty.Transcript
import QuadraticPenalty.Proofs.Problem.Reachability

namespace QuadraticPenalty

open Scalar QuadraticModel

def Problem.inBits (p : Problem) : Problem :=
  { p with vartype := .binary, constraints := p.constraints.map Constraint.inBits }

lemma Problem.Coherent.inBits {p : Problem} (hp : p.Coherent) (hs : p.vartype = .spin) :
    p.inBits.Coherent := by
  have hmentions : ∀ v i, Mentions p.inBits.constraints v i ↔ Mentions p.constraints v i := by
    intro v i
    simp only [Mentions, Problem.inBits, List.getElem?_map, Option.map_eq_some_iff]
    constructor
    · rintro ⟨_, ⟨c, hc, rfl⟩, hv⟩
      exact ⟨c, hc, hv⟩
    · rintro ⟨c, hc, hv⟩
      exact ⟨c.inBits, ⟨c, hc, rfl⟩, hv⟩
  refine ⟨fun d hd => ?_, fun d hd _ => ?_, fun d hd => ?_, hp.increasing, fun v is his i => ?_⟩
  · obtain ⟨c, hc, rfl⟩ := List.mem_map.mp hd
    exact (hp.wellFormed c hc).inBits fun hne => (hp.vartype c hc hne).trans hs
  · obtain ⟨c, -, rfl⟩ := List.mem_map.mp hd
    rfl
  · obtain ⟨c, hc, rfl⟩ := List.mem_map.mp hd
    exact hp.labelled c hc
  · rw [hmentions]
    exact hp.indexed v is his i

namespace Compilation

variable {σ : Type} {g : Grid Extended} {ch : Chance Extended σ} {s : Settings Extended} {p : Problem}
  {c : Constraint} {r r' : Progress Extended Unit} {m m' : QuadraticModel Extended} {γ : ℚ}

inductive Agree :
    Except Fault (QuadraticModel Extended) → Except Fault (QuadraticModel Extended) → Prop
  | fault (f : Fault) : Agree (.error f) (.error f)
  | model {m m' : QuadraticModel Extended} (h : Mirrors m m') : Agree (.ok m) (.ok m')

structure Lockstep (x x' : Except Fault (QuadraticModel Extended) × Progress Extended Unit) : Prop where
  agree : Agree x.1 x'.1
  aligned : Aligned x.2 x'.2

lemma Aligned.freshLabel (h : Aligned r r') (stem : String) :
    (r'.freshLabel p.inBits stem).1 = (r.freshLabel p stem).1 ∧
      Aligned (r.freshLabel p stem).2 (r'.freshLabel p.inBits stem).2 := by
  have hfree : freeNumber p.inBits stem r'.nextNumber = freeNumber p stem r.nextNumber := by
    rw [h.number]
    rfl
  refine ⟨congrArg (labelOf stem) hfree, congrArg (· + 1) hfree, ?_⟩
  simp only [Progress.freshLabel, hfree, h.labels]

lemma filter_oracle_inBits (g : Grid Extended) (ch : Chance Extended σ) (s : Settings Extended)
    (hc : c.WellFormed) (hs : c.vartype = .spin) (nodes : List String) (t t' : Unit) :
    (g.oracle ch (requestFor s c.inBits nodes) t').1.penalty?.filter (meetsGap s) =
      ((g.oracle ch (requestFor s c nodes) t).1.penalty?.filter (meetsGap s)).map
        PenaltyModel.inBits := by
  have hfit : ∀ x ∈ (requestFor s c nodes).feasible, Vartype.spin.IsTuple c.scope.length x :=
    fun _ hx => hc.spins (fun _ => hs) hx
  have hanswer := Grid.oracle_inBits (r := requestFor s c nodes) hs hfit g ch t
  change (g.oracle ch (requestFor s c nodes).inBits t).1.penalty?.filter (meetsGap s) = _
  rw [hanswer]
  cases (g.oracle ch (requestFor s c nodes) t).1.penalty? with
  | none => rfl
  | some found =>
    have hgap : meetsGap s found.inBits = meetsGap s found := rfl
    simp only [Option.map_some, Option.filter_some, hgap]
    split <;> rfl

lemma grow_inBits_of_some (hg : g.flaw = none) (hγ : s.gap = .finite γ) (hc : c.WellFormed)
    (hs : c.vartype = .spin) {left : ℕ} {nodes : List String} (h : Aligned r r')
    {found : PenaltyModel Extended}
    (hspins : (g.oracle ch (requestFor s c nodes) r.oracle).1.penalty?.filter (meetsGap s) = some found) :
    Lockstep (grow (g.oracle ch) s p c left nodes r)
      (grow (g.oracle ch) s p.inBits c.inBits left nodes r') := by
  have hbits := filter_oracle_inBits g ch s hc hs nodes r.oracle r'.oracle
  rw [hspins] at hbits
  obtain ⟨q, hq, hrq⟩ := grow_of_some (g.oracle ch) p left hspins
  obtain ⟨q', hq', hrq'⟩ := grow_of_some (g.oracle ch) p.inBits left hbits
  have hanswer := (Option.filter_eq_some_iff.mp hspins).1
  rw [hq, hq', hs]
  exact ⟨.model (Grid.mirrors_of_oracle (r := requestFor s c nodes) hs hg hγ hanswer),
    h.after hrq hrq'⟩

lemma grow_inBits (hg : g.flaw = none) (hγ : s.gap = .finite γ) (hc : c.WellFormed)
    (hs : c.vartype = .spin) (left : ℕ) (nodes : List String) (h : Aligned r r') :
    Lockstep (grow (g.oracle ch) s p c left nodes r)
      (grow (g.oracle ch) s p.inBits c.inBits left nodes r') := by
  induction left generalizing nodes r r' with
  | zero =>
    have hbits := filter_oracle_inBits g ch s hc hs nodes r.oracle r'.oracle
    cases hspins : (g.oracle ch (requestFor s c nodes) r.oracle).1.penalty?.filter (meetsGap s) with
    | none =>
      rw [hspins] at hbits
      obtain ⟨q, hq, hrq⟩ := grow_zero_of_none (g.oracle ch) p hspins
      obtain ⟨q', hq', hrq'⟩ := grow_zero_of_none (g.oracle ch) p.inBits hbits
      rw [hq, hq']
      exact ⟨.fault _, h.after hrq hrq'⟩
    | some found => exact grow_inBits_of_some hg hγ hc hs h hspins
  | succ left ih =>
    have hbits := filter_oracle_inBits g ch s hc hs nodes r.oracle r'.oracle
    cases hspins : (g.oracle ch (requestFor s c nodes) r.oracle).1.penalty?.filter (meetsGap s) with
    | none =>
      rw [hspins] at hbits
      obtain ⟨q, hq, hrq⟩ := grow_succ_of_none (g.oracle ch) p left hspins
      obtain ⟨q', hq', hrq'⟩ := grow_succ_of_none (g.oracle ch) p.inBits left hbits
      obtain ⟨hlabel, hfresh⟩ := (h.after hrq hrq').freshLabel (p := p) s.stem
      rw [hq, hq', hlabel]
      exact ih _ hfresh
    | some found => exact grow_inBits_of_some hg hγ hc hs h hspins

lemma penalty_inBits (hg : g.flaw = none) (hγ : s.gap = .finite γ) (hc : c.WellFormed)
    (hs : c.vartype = .spin) (h : Aligned r r') :
    Lockstep (penalty (g.oracle ch) s p c r) (penalty (g.oracle ch) s p.inBits c.inBits r') := by
  have hsearch : Lockstep (search (g.oracle ch) s p c r)
      (search (g.oracle ch) s p.inBits c.inBits r') :=
    grow_inBits hg hγ hc hs _ _ (h.report _ _)
  rw [penalty, penalty, Constraint.isFull_inBits hc hs]
  change Lockstep _ (if s.maxNodes < c.arity then _ else _)
  split
  · exact ⟨.fault _, h.report _ _⟩
  · split
    · exact ⟨.model (Constraint.mirrors_blankModel hs), h.report _ _⟩
    · split
      · by_cases hlen : c.scope.length = 1 ∨ c.scope.length = 2
        · obtain ⟨m, m', hm, hm', hmirrors⟩ := Constraint.mirrors_closedForm? hc hs hlen
          rw [hm, hm']
          exact ⟨.model hmirrors, h.report _ _⟩
        · have hlen' : ¬ (c.inBits.scope.length = 1 ∨ c.inBits.scope.length = 2) := hlen
          rw [Constraint.closedForm?_eq_none hlen, Constraint.closedForm?_eq_none hlen']
          exact hsearch
      · exact hsearch

lemma addPenalties_inBits (hg : g.flaw = none) (hγ : s.gap = .finite γ) (cs : List Constraint)
    (hcs : ∀ c ∈ cs, c.WellFormed ∧ (c.scope ≠ [] → c.vartype = .spin)) (hm : Mirrors m m')
    (h : Aligned r r') : Lockstep (addPenalties (g.oracle ch) s p cs m r)
      (addPenalties (g.oracle ch) s p.inBits (cs.map Constraint.inBits) m' r') := by
  induction cs generalizing m m' r r' with
  | nil => exact ⟨.model hm, h⟩
  | cons c cs ih =>
    obtain ⟨hc, hs⟩ := hcs c (by simp)
    have hrest := fun d hd => hcs d (List.mem_cons_of_mem c hd)
    rw [List.map_cons, addPenalties, addPenalties]
    change Lockstep _ (if c.scope.isEmpty = true then _ else _)
    split
    · exact ih hrest hm (h.report _ _)
    · next hne =>
      have hspin := hs fun he => hne (List.isEmpty_iff.mpr he)
      have hpenalty : Lockstep (penalty (g.oracle ch) s p c r)
          (penalty (g.oracle ch) s p.inBits c.inBits r') := penalty_inBits hg hγ hc hspin h
      generalize penalty (g.oracle ch) s p c r = x at hpenalty
      generalize penalty (g.oracle ch) s p.inBits c.inBits r' = x' at hpenalty
      obtain ⟨part, q⟩ := x
      obtain ⟨part', q'⟩ := x'
      obtain ⟨hagree, hq⟩ := hpenalty
      cases hagree with
      | fault f => exact ⟨.fault f, hq⟩
      | model hpart =>
        obtain ⟨n, n', hn, hn', hmirrors⟩ := hm.merge hpart
        dsimp only
        rw [hn, hn']
        exact ih hrest hmirrors hq

lemma mirrors_variablesModel (p : Problem) (hs : p.vartype = .spin) :
    Mirrors (variablesModel p) (variablesModel p.inBits) := by
  have hw := wellFormed_variablesModel p
  refine ⟨variablesModel p, hw, hs, (exact_variablesModel p).symm, ?_⟩
  rw [← exact_variablesModel p.inBits]
  refine congrArg exact (eq_toVartype hw hs (wellFormed_variablesModel p.inBits) rfl (fun v => ?_)
    (fun d => Iff.rfl) fun a _ => ?_)
  · rw [labels_variablesModel, labels_variablesModel]
    rfl
  · rw [value_variablesModel, value_variablesModel]

/-- Over bits a problem over spins is compiled to the model of its spins, changed to bits, or it fails
with the same error. -/
theorem run_inBits {σ : Type} (g : Grid Extended) (ch : Chance Extended σ) (s : Settings Extended)
    (p : Problem) (hp : p.Reachable) (hs : p.vartype = .spin) (hg : g.flaw = none) :
    p.inBits.Reachable ∧
      (run (g.oracle ch) s p.inBits ()).result =
        (run (g.oracle ch) s p ()).result.map (·.toVartype .binary) ∧
      (run (g.oracle ch) s p.inBits ()).labels = (run (g.oracle ch) s p ()).labels ∧
      ∀ m, (run (g.oracle ch) s p ()).result = .ok m →
        (∀ v, v ∈ (m.toVartype .binary).labels ↔ v ∈ m.labels) ∧
        ∀ d, d ∈ (m.toVartype .binary).couplings.keys ↔ d ∈ m.couplings.keys := by
  have hcoherent := hp.coherent
  refine ⟨Problem.reachable_iff_coherent.mpr (hcoherent.inBits hs), ?_⟩
  cases hflaw : s.flaw with
  | some f =>
    rw [run, run, hflaw]
    exact ⟨rfl, rfl, fun m hm => by cases hm⟩
  | none =>
    obtain ⟨γ, hγ, -⟩ := exists_gap hflaw
    have hcs : ∀ c ∈ p.constraints, c.WellFormed ∧ (c.scope ≠ [] → c.vartype = .spin) := fun c hc =>
      ⟨hcoherent.wellFormed c hc, fun hne => (hcoherent.vartype c hc hne).trans hs⟩
    have hlock : Lockstep
        (addPenalties (g.oracle ch) s p p.constraints (variablesModel p) ⟨0, [], (), []⟩)
        (addPenalties (g.oracle ch) s p.inBits p.inBits.constraints (variablesModel p.inBits)
          ⟨0, [], (), []⟩) :=
      addPenalties_inBits hg hγ p.constraints hcs (mirrors_variablesModel p hs) ⟨rfl, rfl⟩
    rw [run, run, hflaw]
    dsimp only
    generalize addPenalties (g.oracle ch) s p p.constraints _ _ = x at hlock
    generalize addPenalties (g.oracle ch) s p.inBits p.inBits.constraints _ _ = x' at hlock
    obtain ⟨m, q⟩ := x
    obtain ⟨m', q'⟩ := x'
    obtain ⟨hagree, -, hlabels⟩ := hlock
    cases hagree with
    | fault f => exact ⟨rfl, hlabels, fun m hm => by cases hm⟩
    | model hmirrors =>
      refine ⟨congrArg Except.ok hmirrors.eq_toVartype, hlabels, fun m hm => ?_⟩
      cases hm
      exact hmirrors.frame

theorem run_inBits_of_fourEqual :
    (asked (uniform.oracle Grid.still) narrow fourEqual ()).map (·.graph.nodes) =
        [["a", "b", "c"], ["c", "d"], ["c", "d", "aux1"]] ∧
      ∃ m, (run (uniform.oracle Grid.still) narrow fourEqual ()).result = .ok m ∧
        (run (uniform.oracle Grid.still) narrow fourEqual.inBits ()).result =
          .ok (m.toVartype .binary) := by
  obtain ⟨m, hm⟩ := Outcome.exists_model (o := run (uniform.oracle Grid.still) narrow fourEqual ())
    (by decide +kernel)
  obtain ⟨-, hbits, -⟩ := run_inBits uniform Grid.still narrow fourEqual fourEqual_reachable rfl (by cbv)
  exact ⟨by decide +kernel, m, hm, hbits.trans (congrArg (Except.map _) hm)⟩

end Compilation

end QuadraticPenalty
