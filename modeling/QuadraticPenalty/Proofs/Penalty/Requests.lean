import QuadraticPenalty.Proofs.Penalty.Additivity
import QuadraticPenalty.Proofs.Penalty.Transcript

namespace QuadraticPenalty

namespace Graph

structure IsComplete (g : Graph) : Prop where
  edges : ∀ e ∈ g.edges, e.1 ∈ g.nodes ∧ e.2 ∈ g.nodes ∧ e.1 ≠ e.2
  once : ∀ u ∈ g.nodes, ∀ v ∈ g.nodes, u ≠ v → g.edges.count (u, v) + g.edges.count (v, u) = 1

variable {nodes us : List String} {u v : String}

lemma ne_of_mem_pairs (hn : nodes.Nodup) {e : String × String} (h : e ∈ pairs nodes) : e.1 ≠ e.2 := by
  induction nodes with
  | nil => cases h
  | cons w us ih =>
    obtain ⟨hw, hn⟩ := List.nodup_cons.mp hn
    obtain h | h := List.mem_append.mp h
    · obtain ⟨v, hv, rfl⟩ := List.mem_map.mp h
      rintro (rfl : w = v)
      exact hw hv
    · exact ih hn h

lemma count_pairs_cons (hu : u ∉ us) (hn : us.Nodup) (hv : v ∈ us) :
    (pairs (u :: us)).count (u, v) + (pairs (u :: us)).count (v, u) = 1 := by
  have huv : u ≠ v := fun he => hu (he ▸ hv)
  have hout : (pairs us).count (u, v) = 0 ∧ (pairs us).count (v, u) = 0 :=
    ⟨List.count_eq_zero.mpr fun h => hu (mem_of_mem_pairs h).1,
      List.count_eq_zero.mpr fun h => hu (mem_of_mem_pairs h).2⟩
  have hback : (us.map (u, ·)).count (v, u) = 0 := by
    apply List.count_eq_zero.mpr
    simp [huv]
  have hthere : (us.map (u, ·)).count (u, v) = 1 := by
    rw [List.count_map_of_injective us (u, ·) (Prod.mk_right_injective u)]
    exact List.count_eq_one_of_mem hn hv
  rw [pairs, List.count_append, List.count_append, hout.1, hout.2, hback, hthere]

lemma count_pairs (hn : nodes.Nodup) (hu : u ∈ nodes) (hv : v ∈ nodes) (huv : u ≠ v) :
    (pairs nodes).count (u, v) + (pairs nodes).count (v, u) = 1 := by
  induction nodes with
  | nil => cases hu
  | cons w us ih =>
    obtain ⟨hw, hus⟩ := List.nodup_cons.mp hn
    obtain rfl | hu' := List.mem_cons.mp hu
    · exact count_pairs_cons hw hus ((List.mem_cons.mp hv).resolve_left huv.symm)
    · obtain rfl | hv' := List.mem_cons.mp hv
      · rw [Nat.add_comm]
        exact count_pairs_cons hw hus hu'
      · have hne : ∀ x ∈ us, w ≠ x := fun x hx he => hw (he ▸ hx)
        have hnot : ∀ x ∈ us, ∀ y, (us.map (w, ·)).count (x, y) = 0 := fun x hx y => by
          apply List.count_eq_zero.mpr
          simp [hne x hx]
        rw [pairs, List.count_append, List.count_append, hnot u hu', hnot v hv', Nat.zero_add,
          Nat.zero_add]
        exact ih hus hu' hv'

lemma isComplete_complete (hn : nodes.Nodup) : (complete nodes).IsComplete where
  edges _ he := ⟨(mem_of_mem_pairs he).1, (mem_of_mem_pairs he).2, ne_of_mem_pairs hn he⟩
  once _ hu _ hv huv := count_pairs hn hu hv huv

end Graph

namespace Compilation

open Scalar

section Protocol

variable {α σ : Type}

def growing (s : Settings α) (c : Constraint) (nodes made : List String) : List (Request α) :=
  made.inits.map fun labels => requestFor s c (nodes ++ labels)

@[simp] lemma growing_nil (s : Settings α) (c : Constraint) (nodes : List String) :
    growing s c nodes [] = [requestFor s c nodes] := by simp [growing]

lemma growing_cons (s : Settings α) (c : Constraint) (nodes : List String) (l : String)
    (made : List String) : growing s c nodes (l :: made) =
      requestFor s c nodes :: growing s c (nodes ++ [l]) made := by
  simp [growing, Function.comp_def]

variable [Scalar α]

def Refuses (s : Settings α) (answer : Option (PenaltyModel α)) : Prop :=
  ∀ found ∈ answer, meetsGap s found = false

structure IsSearched (s : Settings α) (c : Constraint) : Prop where
  nonempty : c.scope ≠ []
  fits : c.arity ≤ s.maxNodes
  restricts : c.isFull = false
  noClosedForm : ¬ (c.arity ≤ 2 ∧ le s.gap (two + tolerance) = true)

/-- The search from the given nodes on: the labels that it adds to them, and the fault in which it
ends. -/
inductive Search (ask : Oracle α σ) (s : Settings α) (c : Constraint) (nodes : List String) (o : σ) :
    List String → Option Fault → Prop
  | granted {made : List String} {refused : List (Option (PenaltyModel α))} {found : PenaltyModel α} :
      nodes.length + made.length ≤ s.maxNodes →
      ask.replies (growing s c nodes made) o = refused ++ [some found] →
      (∀ answer ∈ refused, Refuses s answer) → meetsGap s found = true → Search ask s c nodes o made none
  | exhausted {made : List String} : nodes.length + made.length = s.maxNodes →
      (∀ answer ∈ ask.replies (growing s c nodes made) o, Refuses s answer) →
      Search ask s c nodes o made (some (.noPenalty c.name c.arity s.maxNodes s.maxNodes))

/-- What is made and asked for one constraint, and the fault in which that ends. -/
inductive Course (ask : Oracle α σ) (s : Settings α) (c : Constraint) (o : σ) :
    List String → List (Request α) → Option Fault → Prop
  | oversized : s.maxNodes < c.arity →
      Course ask s c o [] [] (some (.noPenalty c.name c.arity c.arity s.maxNodes))
  | unasked : c.arity ≤ s.maxNodes → ¬ IsSearched s c → Course ask s c o [] [] none
  | searched {made : List String} {fault : Option Fault} : IsSearched s c →
      Search ask s c c.scope o made fault → Course ask s c o made (growing s c c.scope made) fault

/-- Constraints are taken in their order, up to the first that ends in a fault. -/
inductive Conducts (ask : Oracle α σ) (s : Settings α) :
    List Constraint → σ → List (List String) → List (List (Request α)) → Option Fault → Prop
  | done (o : σ) : Conducts ask s [] o [] [] none
  | stops {c : Constraint} {cs : List Constraint} {o : σ} {made : List String}
      {talk : List (Request α)} {fault : Fault} : Course ask s c o made talk (some fault) →
      Conducts ask s (c :: cs) o [made] [talk] (some fault)
  | goes {c : Constraint} {cs : List Constraint} {o : σ} {made : List String}
      {talk : List (Request α)} {mades : List (List String)} {talks : List (List (Request α))}
      {fault : Option Fault} : Course ask s c o made talk none →
      Conducts ask s cs (ask.after talk o) mades talks fault →
      Conducts ask s (c :: cs) o (made :: mades) (talk :: talks) fault

end Protocol

variable {α σ : Type} {ask : Oracle α σ} {s : Settings α} {p : Problem} {c : Constraint}
  {cs : List Constraint} {stem l : String} {made made' nodes : List String} {o : σ}
  {talk talk' : List (Request α)} {fault : Option Fault}

def Progress.requests (r : Progress α σ) : List (Request α) := r.events.filterMap Event.request?

structure Logs (ask : Oracle α σ) (p : Problem) (stem : String) (made : List String)
    (talk : List (Request α)) (r r' : Progress α (List (Request α) × σ)) : Prop where
  oracle : r'.oracle = (r.oracle.1 ++ talk, ask.after talk r.oracle.2)
  labels : r'.labels = r.labels ++ made
  minted : r.Minted p stem → r'.Minted p stem
  reported : ask.IsQuiet → r'.requests = r.requests ++ talk

lemma filterMap_refusals (c : Constraint) (answer : Option (PenaltyModel α)) :
    (refusals c answer).filterMap Event.request? = [] := by
  cases answer <;> rfl

section Logs

variable {r r₁ r' : Progress α (List (Request α) × σ)}

lemma Logs.trans (h : Logs ask p stem made talk r r₁) (h' : Logs ask p stem made' talk' r₁ r') :
    Logs ask p stem (made ++ made') (talk ++ talk') r r' := by
  refine ⟨?_, ?_, fun hr => h'.minted (h.minted hr), fun hq => ?_⟩
  · rw [h'.oracle, h.oracle, Oracle.after_append, List.append_assoc]
  · rw [h'.labels, h.labels, List.append_assoc]
  · rw [h'.reported hq, h.reported hq, List.append_assoc]

lemma logs_refl (r : Progress α (List (Request α) × σ)) : Logs ask p stem [] [] r r :=
  ⟨by rw [List.append_nil]; rfl, (List.append_nil _).symm, id, fun _ => (List.append_nil _).symm⟩

lemma logs_report (r : Progress α (List (Request α) × σ)) {es : List (Event α)}
    (hes : es.filterMap Event.request? = []) : Logs ask p stem [] [] r (r.report es) := by
  refine ⟨by rw [List.append_nil]; rfl, (List.append_nil _).symm, id, fun _ => ?_⟩
  rw [Progress.requests, Progress.report, List.filterMap_append, hes]
  rfl

lemma logs_ask (r : Progress α (List (Request α) × σ)) (nodes : List String) :
    Logs ask p stem [] [requestFor s c nodes] r (r.ask ask.recorded s c nodes).2 := by
  refine ⟨rfl, (List.append_nil _).symm, id, fun hq => ?_⟩
  have hevents : (r.ask ask.recorded s c nodes).2.events = r.events ++
      .asked c.name (requestFor s c nodes) :: (ask (requestFor s c nodes) r.oracle.2).1.events := rfl
  rw [Progress.requests, hevents, List.filterMap_append, List.filterMap_cons, hq]
  rfl

lemma logs_freshLabel (r : Progress α (List (Request α) × σ)) :
    Logs ask p stem [(r.freshLabel p stem).1] [] r (r.freshLabel p stem).2 := by
  refine ⟨by rw [List.append_nil]; rfl, rfl, fun hr => ?_, fun _ => (List.append_nil _).symm⟩
  obtain ⟨l, r', he, -, hminted, -⟩ := hr.freshLabel
  rwa [he]

end Logs

variable [Scalar α]

def Yields (t : Vartype) (x : Except Fault (QuadraticModel α)) : Option Fault → Prop
  | none => ∃ m, x = .ok m ∧ m.vartype = t
  | some fault => x = .error fault

lemma refuses_iff {answer : Option (PenaltyModel α)} :
    Refuses s answer ↔ answer.filter (meetsGap s) = none := by
  simp [Refuses, Option.filter_eq_none_iff]

lemma logs_refused (r : Progress α (List (Request α) × σ)) (nodes : List String) :
    Logs ask p stem [] [requestFor s c nodes] r (r.refused ask.recorded s c nodes) :=
  (logs_ask r nodes).trans (logs_report _ (filterMap_refusals c _))

lemma grow_granted (p : Problem) (left : ℕ) {r : Progress α (List (Request α) × σ)}
    {found : PenaltyModel α} (hroom : nodes.length ≤ s.maxNodes)
    (hf : (ask (requestFor s c nodes) r.oracle.2).1.penalty?.filter (meetsGap s) = some found) :
    ∃ made fault, Search ask s c nodes r.oracle.2 made fault ∧
      Logs ask p s.stem made (growing s c nodes made) r (grow ask.recorded s p c left nodes r).2 ∧
      Yields c.vartype (grow ask.recorded s p c left nodes r).1 fault := by
  obtain ⟨hanswer, hgap⟩ := Option.filter_eq_some_iff.mp hf
  have hreplies : ask.replies (growing s c nodes []) r.oracle.2 = [] ++ [some found] := by
    rw [growing_nil, List.nil_append, ← hanswer]
    rfl
  rw [grow_eq_of_some ask.recorded p left hf]
  refine ⟨[], none, .granted hroom hreplies (by simp) hgap, ?_, _, rfl,
    QuadraticModel.vartype_toVartype _ _⟩
  rw [growing_nil]
  exact (logs_ask r nodes).trans (logs_report _ rfl)

lemma Search.grow (hrefused : Refuses s (ask (requestFor s c nodes) o).1.penalty?)
    (h : Search ask s c (nodes ++ [l]) (ask (requestFor s c nodes) o).2 made fault) :
    Search ask s c nodes o (l :: made) fault := by
  have hreplies : ask.replies (growing s c nodes (l :: made)) o =
      (ask (requestFor s c nodes) o).1.penalty? ::
        ask.replies (growing s c (nodes ++ [l]) made) (ask (requestFor s c nodes) o).2 := by
    rw [growing_cons]
    rfl
  have hlength : nodes.length + (l :: made).length = (nodes ++ [l]).length + made.length := by
    simp only [List.length_cons, List.length_append, List.length_nil]
    omega
  cases h with
  | @granted refused found hroom hfound hall hgap =>
    rw [hfound, ← List.cons_append] at hreplies
    refine .granted (hlength.trans_le hroom) hreplies (fun answer ha => ?_) hgap
    obtain rfl | ha := List.mem_cons.mp ha
    exacts [hrefused, hall answer ha]
  | exhausted hroom hall =>
    refine .exhausted (hlength.trans hroom) fun answer ha => ?_
    rw [hreplies] at ha
    obtain rfl | ha := List.mem_cons.mp ha
    exacts [hrefused, hall answer ha]

lemma grow_search (left : ℕ) (nodes : List String) (r : Progress α (List (Request α) × σ))
    (h : nodes.length + left = s.maxNodes) : ∃ made fault,
      Search ask s c nodes r.oracle.2 made fault ∧
      Logs ask p s.stem made (growing s c nodes made) r (grow ask.recorded s p c left nodes r).2 ∧
      Yields c.vartype (grow ask.recorded s p c left nodes r).1 fault := by
  induction left generalizing nodes r with
  | zero =>
    cases hf : (ask (requestFor s c nodes) r.oracle.2).1.penalty?.filter (meetsGap s) with
    | some found => exact grow_granted p 0 (by omega) hf
    | none =>
      have hfull : nodes.length = s.maxNodes := h
      rw [grow_zero_eq ask.recorded p hf, hfull]
      refine ⟨[], _, .exhausted h fun answer ha => ?_, ?_, rfl⟩
      · rw [growing_nil] at ha
        rw [List.mem_singleton.mp ha]
        exact refuses_iff.mpr hf
      · rw [growing_nil]
        exact (logs_refused r nodes).trans (logs_report _ rfl)
  | succ left ih =>
    cases hf : (ask (requestFor s c nodes) r.oracle.2).1.penalty?.filter (meetsGap s) with
    | some found => exact grow_granted p (left + 1) (by omega) hf
    | none =>
      obtain ⟨made, fault, hsearch, hlogs, hyields⟩ :=
        ih (nodes ++ [((r.refused ask.recorded s c nodes).freshLabel p s.stem).1])
          ((r.refused ask.recorded s c nodes).freshLabel p s.stem).2
          (by simp only [List.length_append, List.length_singleton]; omega)
      rw [grow_succ_eq ask.recorded p left hf]
      refine ⟨_, fault, hsearch.grow (refuses_iff.mpr hf), ?_, hyields⟩
      rw [growing_cons]
      exact ((logs_refused r nodes).trans (logs_freshLabel _)).trans hlogs

lemma penalty_course (ask : Oracle α σ) (s : Settings α) (p : Problem) (hc : c.WellFormed)
    (hne : c.scope ≠ []) (r : Progress α (List (Request α) × σ)) : ∃ made talk fault,
      Course ask s c r.oracle.2 made talk fault ∧
      Logs ask p s.stem made talk r (penalty ask.recorded s p c r).2 ∧
      Yields c.vartype (penalty ask.recorded s p c r).1 fault := by
  have hsearched (h : IsSearched s c) : ∃ made talk fault, Course ask s c r.oracle.2 made talk fault ∧
      Logs ask p s.stem made talk r (search ask.recorded s p c r).2 ∧
      Yields c.vartype (search ask.recorded s p c r).1 fault := by
    obtain ⟨made, fault, hsearch, hlogs, hyields⟩ := grow_search (s.maxNodes - c.arity) c.scope
      (r.report [.searching c.name c.arity s.gap]) (Nat.add_sub_of_le h.fits)
    exact ⟨made, _, fault, .searched h hsearch, (logs_report _ rfl).trans hlogs, hyields⟩
  rw [penalty]
  split
  · next hlarge => exact ⟨[], [], _, .oversized hlarge, logs_report _ rfl, rfl⟩
  · next hfits =>
    have hfits : c.arity ≤ s.maxNodes := Nat.le_of_not_lt hfits
    split
    · next hfull =>
      refine ⟨[], [], none, .unasked hfits fun h => ?_, logs_report _ rfl, _, rfl,
        (Constraint.frames_blankModel c).vartype⟩
      rw [h.restricts] at hfull
      cases hfull
    · next hfull =>
      rw [Bool.not_eq_true] at hfull
      split
      · next hgap =>
        by_cases htwo : c.arity ≤ 2
        · have hpos := List.length_pos_iff.mpr hne
          have hsize : c.scope.length = 1 ∨ c.scope.length = 2 := by
            change c.scope.length ≤ 2 at htwo
            omega
          obtain ⟨k, hk, hframes⟩ := Constraint.closedForm?_frames (α := α) hc hsize
          have hquiet : (splitEvents c ++ [.closedForm c.name c.arity] : List (Event α)).filterMap
              Event.request? = [] := by
            rw [splitEvents]
            split <;> rfl
          rw [hk]
          exact ⟨[], [], none, .unasked hfits fun h => h.noClosedForm ⟨htwo, hgap⟩,
            logs_report _ hquiet, k, rfl, hframes.vartype⟩
        · have hsize : ¬ (c.scope.length = 1 ∨ c.scope.length = 2) := by
            change ¬ c.scope.length ≤ 2 at htwo
            omega
          rw [Constraint.closedForm?_eq_none hsize]
          exact hsearched ⟨hne, hfits, hfull, fun h => htwo h.1⟩
      · next hgap => exact hsearched ⟨hne, hfits, hfull, fun h => hgap h.2⟩

lemma addPenalties_conducts (ask : Oracle α σ) (s : Settings α) {m : QuadraticModel α}
    {r : Progress α (List (Request α) × σ)}
    (hcs : ∀ c ∈ cs, c.WellFormed ∧ (c.scope ≠ [] → c.vartype = p.vartype))
    (hm : m.vartype = p.vartype) : ∃ mades talks fault,
      Conducts ask s cs r.oracle.2 mades talks fault ∧
      Logs ask p s.stem mades.flatten talks.flatten r (addPenalties ask.recorded s p cs m r).2 ∧
      Yields p.vartype (addPenalties ask.recorded s p cs m r).1 fault := by
  induction cs generalizing m r with
  | nil => exact ⟨[], [], none, .done _, logs_refl r, m, rfl, hm⟩
  | cons c cs ih =>
    obtain ⟨hc, ht⟩ := hcs c (by simp)
    have ih {m : QuadraticModel α} {r} := @ih m r fun d hd => hcs d (by simp [hd])
    rw [addPenalties]
    split
    · next hempty =>
      have hscope := List.isEmpty_iff.mp hempty
      have hskipped : Course ask s c r.oracle.2 [] [] none := by
        refine .unasked ?_ fun h => h.nonempty hscope
        simp [Constraint.arity, hscope]
      obtain ⟨mades, talks, fault, hconducts, hlogs, hyields⟩ :=
        ih (r := r.report [.vacuous c.name]) hm
      exact ⟨[] :: mades, [] :: talks, fault, .goes hskipped hconducts,
        (logs_report _ rfl).trans hlogs, hyields⟩
    · next hempty =>
      have hne : c.scope ≠ [] := fun h => hempty (List.isEmpty_iff.mpr h)
      obtain ⟨made, talk, fault, hcourse, hlogs, hyields⟩ := penalty_course ask s p hc hne r
      obtain ⟨x, r', hpenalty⟩ : ∃ x r', penalty ask.recorded s p c r = (x, r') := ⟨_, _, rfl⟩
      rw [hpenalty] at hlogs hyields ⊢
      cases fault with
      | some fault =>
        obtain rfl : x = .error fault := hyields
        exact ⟨[made], [talk], some fault, .stops hcourse, by simpa using hlogs, rfl⟩
      | none =>
        obtain ⟨part, rfl : x = .ok part, hpart⟩ := hyields
        obtain ⟨n, hn⟩ := QuadraticModel.merge_isOk (hpart.trans ((ht hne).trans hm.symm))
        have hnt : n.vartype = p.vartype := (QuadraticModel.merge_frame hn).2.1.trans hm
        dsimp only
        rw [hn]
        obtain ⟨mades, talks, fault, hconducts, hlogs', hyields⟩ := ih hnt
        rw [hlogs.oracle] at hconducts
        exact ⟨made :: mades, talk :: talks, fault, .goes hcourse hconducts, hlogs.trans hlogs', hyields⟩

lemma Course.exists_request {q : Request α} (h : Course ask s c o made talk fault) (hq : q ∈ talk) :
    ∃ aux, aux <+: made ∧ q = requestFor s c (c.scope ++ aux) := by
  cases h with
  | oversized => cases hq
  | unasked => cases hq
  | searched =>
    obtain ⟨aux, haux, rfl⟩ := List.mem_map.mp hq
    exact ⟨aux, (List.mem_inits aux _).mp haux, rfl⟩

lemma Course.isSearched {q : Request α} (h : Course ask s c o made talk fault) (hq : q ∈ talk) :
    IsSearched s c := by
  cases h with
  | oversized => cases hq
  | unasked => cases hq
  | searched hc => exact hc

lemma Conducts.exists_searched {mades : List (List String)} {talks : List (List (Request α))}
    {q : Request α} (h : Conducts ask s cs o mades talks fault) (hq : q ∈ talks.flatten) :
    ∃ c ∈ cs, IsSearched s c ∧ ∃ aux, aux.Sublist mades.flatten ∧
      q = requestFor s c (c.scope ++ aux) := by
  induction h with
  | done => cases hq
  | @stops c cs o made talk fault hcourse =>
    have hq : q ∈ talk := by simpa using hq
    obtain ⟨aux, haux, he⟩ := hcourse.exists_request hq
    exact ⟨c, by simp, hcourse.isSearched hq, aux, by simpa using haux.sublist, he⟩
  | @goes c cs o made talk mades talks fault hcourse _ ih =>
    obtain hq | hq := List.mem_append.mp hq
    · obtain ⟨aux, haux, he⟩ := hcourse.exists_request hq
      exact ⟨c, by simp, hcourse.isSearched hq, aux,
        haux.sublist.trans (List.sublist_append_left _ _), he⟩
    · obtain ⟨d, hd, hsearched, aux, haux, he⟩ := ih hq
      exact ⟨d, by simp [hd], hsearched, aux, haux.trans (List.sublist_append_right _ _), he⟩

lemma Conducts.exists_request {mades : List (List String)} {talks : List (List (Request α))}
    {q : Request α} (h : Conducts ask s cs o mades talks fault) (hq : q ∈ talks.flatten) :
    ∃ c ∈ cs, ∃ aux, aux.Sublist mades.flatten ∧ q = requestFor s c (c.scope ++ aux) := by
  obtain ⟨c, hc, -, haux⟩ := h.exists_searched hq
  exact ⟨c, hc, haux⟩

lemma run_conducts (ask : Oracle α σ) (o : σ) (hp : p.Reachable) (hs : s.flaw = none) :
    ∃ (r : Progress α (List (Request α) × σ)) (mades : List (List String))
      (talks : List (List (Request α))) (fault : Option Fault),
      r.Minted p s.stem ∧ r.labels = mades.flatten ∧
      Conducts ask s p.constraints o mades talks fault ∧
      (run ask s p o).labels = mades.flatten ∧ asked ask s p o = talks.flatten ∧
      (ask.IsQuiet → (run ask s p o).requests = talks.flatten) ∧
      ((fault = none ∧ ∃ m, (run ask s p o).result = .ok m) ∨
        ∃ f, fault = some f ∧ (run ask s p o).result = .error (.fault f)) := by
  have hcoherent := hp.coherent
  obtain ⟨mades, talks, fault, hconducts, hlogs, hyields⟩ := addPenalties_conducts ask s
    (r := ⟨0, [], ([], o), []⟩) (m := variablesModel p)
    (fun c hc => ⟨hcoherent.wellFormed c hc, hcoherent.vartype c hc⟩) rfl
  obtain ⟨x, r, hadd⟩ : ∃ x r, addPenalties ask.recorded s p p.constraints (variablesModel p)
      ⟨0, [], ([], o), []⟩ = (x, r) := ⟨_, _, rfl⟩
  rw [hadd] at hlogs hyields
  have hlabels : r.labels = mades.flatten := hlogs.labels
  have horacle : r.oracle.1 = talks.flatten := congrArg Prod.fst hlogs.oracle
  refine ⟨r, mades, talks, fault, hlogs.minted (.start p s.stem _), hlabels, hconducts, ?_⟩
  rw [run_recorded, asked]
  simp only [run, hs, hadd]
  cases fault with
  | some f =>
    obtain rfl : x = .error f := hyields
    exact ⟨hlabels, horacle, hlogs.reported, .inr ⟨f, rfl, rfl⟩⟩
  | none =>
    obtain ⟨m, rfl, -⟩ := hyields
    refine ⟨hlabels, horacle, fun hq => ?_, .inl ⟨rfl, m, rfl⟩⟩
    have hfinished : Logs ask p s.stem [] [] r (r.report [finishedEvent p m r.labels]) :=
      logs_report r rfl
    have hreported := (hlogs.trans hfinished).reported hq
    rwa [List.append_nil] at hreported

lemma Conducts.nodes_nodup {r : Progress α (List (Request α) × σ)} {mades : List (List String)}
    {talks : List (List (Request α))} {q : Request α} (hp : p.Reachable)
    (h : Conducts ask s p.constraints o mades talks fault) (hr : r.Minted p s.stem)
    (hlabels : r.labels = mades.flatten) (hq : q ∈ talks.flatten) :
    q.graph.nodes.Nodup ∧ q.graph = .complete q.graph.nodes := by
  obtain ⟨c, hc, aux, haux, rfl⟩ := h.exists_request hq
  have hnodup := hr.nodup
  rw [hlabels] at hnodup
  refine ⟨List.nodup_append.mpr ⟨(hp.coherent.wellFormed c hc).1, hnodup.sublist haux,
    fun u hu v hv he => ?_⟩, rfl⟩
  have hmade : v ∈ r.labels := hlabels ▸ haux.subset hv
  exact hr.not_mem_labels hmade (he ▸ hp.coherent.labelled c hc u hu)

/-- For one constraint after the other, the oracle is asked about the complete graphs on its variables
and more and more new labels, up to the first answer that is accepted; the run ends with the first
constraint that has too many variables or no accepted answer. -/
theorem run_requests {α σ : Type} [Scalar α] (ask : Oracle α σ) (s : Settings α) (p : Problem) (o : σ)
    (hp : p.Reachable) (hs : s.flaw = none) :
    ∃ mades talks fault, Conducts ask s p.constraints o mades talks fault ∧
      mades.flatten = (run ask s p o).labels ∧ talks.flatten = asked ask s p o ∧
      (ask.IsQuiet → (run ask s p o).requests = asked ask s p o) ∧
      (∀ q ∈ asked ask s p o, q.graph.nodes.Nodup ∧ q.graph.IsComplete) ∧
      ((fault = none ∧ ∃ m, (run ask s p o).result = .ok m) ∨
        ∃ f, fault = some f ∧ (run ask s p o).result = .error (.fault f)) := by
  obtain ⟨r, mades, talks, fault, hminted, hmades, hconducts, hlabels, hasked, hreported, hresult⟩ :=
    run_conducts ask o hp hs
  refine ⟨mades, talks, fault, hconducts, hlabels.symm, hasked.symm, fun hq => ?_, fun q hq => ?_,
    hresult⟩
  · rw [hreported hq, hasked]
  · obtain ⟨hnodup, hcomplete⟩ := hconducts.nodes_nodup hp hminted hmades (hasked ▸ hq)
    exact ⟨hnodup, hcomplete ▸ Graph.isComplete_complete hnodup⟩

def equalSpins : Problem := (Problem.empty .spin).addConstraint (tied "a" "b")

lemma equalSpins_reachable : equalSpins.Reachable := by
  have hadd : (Problem.empty .spin).add (.configurations [[-1, -1], [1, 1]] ["a", "b"]) =
      .ok equalSpins := by cbv
  exact .add (.empty .spin) (s := .configurations _ _) trivial hadd

theorem run_requests_of_equalSpins : ∃ mades talks,
    Conducts Oracle.none narrow equalSpins.constraints () mades talks
      (some (.noPenalty "Constraint" 2 3 3)) ∧
    talks.flatten.map Request.graph = [.complete ["a", "b"], .complete ["a", "b", "aux0"]] := by
  obtain ⟨mades, talks, fault, hconducts, -, htalks, -, -, hresult⟩ :=
    run_requests Oracle.none narrow equalSpins () equalSpins_reachable (by decide)
  have hend : (run Oracle.none narrow equalSpins ()).result =
      .error (.fault (.noPenalty "Constraint" 2 3 3)) := by cbv
  have hgraphs : (asked Oracle.none narrow equalSpins ()).map Request.graph =
      [.complete ["a", "b"], .complete ["a", "b", "aux0"]] := by decide +kernel
  obtain ⟨rfl, m, hm⟩ | ⟨f, rfl, hf⟩ := hresult
  · rw [hend] at hm
    cases hm
  · rw [hend] at hf
    cases hf
    exact ⟨mades, talks, hconducts, htalks ▸ hgraphs⟩

end Compilation

end QuadraticPenalty
