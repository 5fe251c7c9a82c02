import QuadraticPenalty.Proofs.Constraint.Substitution
import QuadraticPenalty.Proofs.Problem.Atomicity

namespace QuadraticPenalty

namespace Problem

variable {p q : Problem} {v : String} {x : ℤ} {a b : Assignment}

lemma holdAll_congr {cs ds : List Constraint}
    (h : List.Forall₂ (fun c d => d.holds a = c.holds b) cs ds) : holdAll a ds = holdAll b cs := by
  induction h with
  | nil => rfl
  | cons hhead _ ih => rw [holdAll, holdAll, hhead, ih]

lemma holdAll_eq_true {cs : List Constraint} (h : holdAll a cs = .ok true) :
    ∀ c ∈ cs, c.holds a = .ok true := by
  induction cs with
  | nil => simp
  | cons c cs ih =>
    obtain ⟨y, hc, h⟩ := exists_of_bind_ok h
    cases y with
    | false => cases h
    | true => exact List.forall_mem_cons.mpr ⟨hc, ih h⟩

lemma Coherent.holds_fix (hp : p.Coherent) (h : p.fix v x = .ok q) (a : Assignment) :
    q.holds a = p.holds (a.set v x) := by
  have hfixes := (List.forall₂_and_left _ _).mpr ⟨hp.wellFormed, hp.forall₂_fixes h⟩
  refine holdAll_congr (hfixes.imp fun c d ⟨hc, hf⟩ => ?_)
  obtain ⟨hv, rfl⟩ | ⟨-, hfix⟩ := hf
  · refine Constraint.holds_congr fun u hu => ?_
    rw [Assignment.set, if_neg fun he : u = v => hv (he ▸ hu)]
  · exact Constraint.holds_fix hc hfix a

lemma exists_of_mapM_error {β γ : Type} {f : β → Except Fault γ} {bs : List β} {fault : Fault}
    (h : bs.mapM f = .error fault) : ∃ b ∈ bs, f b = .error fault := by
  induction bs with
  | nil => cases h
  | cons b bs ih =>
    rw [List.mapM_cons] at h
    cases hb : f b with
    | error fault' =>
      rw [hb] at h
      obtain rfl : fault' = fault := Except.error.inj h
      exact ⟨b, by simp, hb⟩
    | ok y =>
      rw [hb] at h
      cases hbs : bs.mapM f with
      | error fault' =>
        rw [hbs] at h
        obtain rfl : fault' = fault := Except.error.inj h
        obtain ⟨d, hd, he⟩ := ih hbs
        exact ⟨d, by simp [hd], he⟩
      | ok ys =>
        rw [hbs] at h
        cases h

lemma Coherent.fix_eq_error (hp : p.Coherent) (hv : v ∈ p.labels) (hx : x ∈ p.vartype.values)
    {fault : Fault} (h : p.fix v x = .error fault) :
    ∃ c ∈ p.constraints, c.Excludes v x ∧ fault = .unsatisfiable v x c.name := by
  obtain ⟨is, his⟩ := SortedMap.mem_keys_iff.mp hv
  rw [Problem.fix, his, Vartype.contains_iff.mpr hx] at h
  change (is.foldlM (fixAt v x) p.constraints >>= fun cs => Except.ok _) = _ at h
  rw [Edit.foldlM_fixAt ((hp.increasing v is his).imp ne_of_lt) p.constraints p.constraints
    fun _ _ => rfl] at h
  cases hreduced : is.mapM (Edit.reducedAt p.constraints v x) with
  | ok es =>
    rw [hreduced] at h
    cases h
  | error fault' =>
    rw [hreduced] at h
    obtain rfl : fault' = fault := Except.error.inj h
    obtain ⟨i, hi, hfault⟩ := exists_of_mapM_error hreduced
    obtain ⟨c, hc, hvc⟩ := (hp.indexed v is his i).mp hi
    have hmem := List.mem_of_getElem? hc
    have hxc : x ∈ c.vartype.values := hp.vartype c hmem (List.ne_nil_of_mem hvc) ▸ hx
    rw [Edit.reducedAt, hc] at hfault
    dsimp only at hfault
    cases hfix : c.fix v x with
    | ok d =>
      rw [hfix] at hfault
      cases hfault
    | error fault =>
      rw [hfix] at hfault
      obtain rfl : fault = fault' := Except.error.inj hfault
      exact ⟨c, hmem, (Constraint.fix_eq_error_iff (hp.wellFormed c hmem) hvc hxc).mp hfix⟩

lemma Coherent.fix_ne_ok (hp : p.Coherent) {c : Constraint} (hc : c ∈ p.constraints)
    (h : c.Excludes v x) (hx : x ∈ p.vartype.values) : p.fix v x ≠ .ok q := by
  intro hfix
  have hxc : x ∈ c.vartype.values := hp.vartype c hc (List.ne_nil_of_mem h.1) ▸ hx
  obtain ⟨d, -, ⟨hv, -⟩ | ⟨-, hd⟩⟩ := hp.exists_fixes_left hfix hc
  · exact hv h.1
  · exact (Constraint.fix_isOk_iff (hp.wellFormed c hc) h.1 hxc).mp ⟨d, hd⟩ h

/-- What a substitution leaves is checked like the problem with the value put in, whatever else is
assigned or missing; it fails just where a constraint excludes the value, and then nothing with the value
holds. -/
theorem fix_partialEvaluation (p : Problem) (v : String) (x : ℤ) (hp : p.Reachable) (hv : v ∈ p.labels)
    (hx : x ∈ p.vartype.values) :
    (∀ q, p.fix v x = .ok q → ∀ a : Assignment, q.holds a = p.holds (a.set v x)) ∧
    (∀ fault, p.fix v x = .error fault → (∃ c ∈ p.constraints, c.Excludes v x ∧
      fault = .unsatisfiable v x c.name) ∧ ∀ a : Assignment, a v = some x → p.holds a ≠ .ok true) ∧
    ((∃ name, p.fix v x = .error (.unsatisfiable v x name)) ↔ ∃ c ∈ p.constraints, c.Excludes v x) := by
  have hcoherent := hp.coherent
  refine ⟨fun q h => hcoherent.holds_fix h, fun fault h => ?_, ?_⟩
  · obtain ⟨c, hc, hexcludes, rfl⟩ := hcoherent.fix_eq_error hv hx h
    exact ⟨⟨c, hc, hexcludes, rfl⟩, fun a ha hholds =>
      hexcludes.holds_ne ha (holdAll_eq_true hholds c hc)⟩
  · constructor
    · rintro ⟨name, h⟩
      obtain ⟨c, hc, hexcludes, -⟩ := hcoherent.fix_eq_error hv hx h
      exact ⟨c, hc, hexcludes⟩
    · rintro ⟨c, hc, hexcludes⟩
      cases h : p.fix v x with
      | ok q => exact absurd h (hcoherent.fix_ne_ok hc hexcludes hx)
      | error fault =>
        obtain ⟨d, -, -, rfl⟩ := hcoherent.fix_eq_error hv hx h
        exact ⟨d.name, rfl⟩

def chain : Problem :=
  ((Problem.empty .spin).addConstraint
    ⟨"Constraint", .spin, ["a", "b"], .ofList [[-1, -1], [1, 1]]⟩).addConstraint
    ⟨"Constraint", .spin, ["b", "c"], .ofList [[1, 1]]⟩

lemma chain_reachable : chain.Reachable := by
  have hfirst : (Problem.empty .spin).add (.configurations [[-1, -1], [1, 1]] ["a", "b"]) = .ok
      ((Problem.empty .spin).addConstraint
        ⟨"Constraint", .spin, ["a", "b"], .ofList [[-1, -1], [1, 1]]⟩) := by cbv
  have hsecond : ((Problem.empty .spin).addConstraint
      ⟨"Constraint", .spin, ["a", "b"], .ofList [[-1, -1], [1, 1]]⟩).add
        (.configurations [[1, 1]] ["b", "c"]) = .ok chain := by cbv
  exact .add (.add (.empty .spin) (s := .configurations _ _) trivial hfirst)
    (s := .configurations _ _) trivial hsecond

theorem fix_partialEvaluation_of_chain :
    (∃ q, chain.fix "b" 1 = .ok q ∧ ∀ a : Assignment, q.holds a = chain.holds (a.set "b" 1)) ∧
      ∀ a : Assignment, a "b" = some (-1) → chain.holds a ≠ .ok true := by
  have hlabels : "b" ∈ chain.labels := by decide
  obtain ⟨q, hq⟩ : ∃ q, chain.fix "b" 1 = .ok q := by
    apply Exists.intro
    cbv
  have hfault : chain.fix "b" (-1) = .error (.unsatisfiable "b" (-1) "Constraint") := by cbv
  obtain ⟨hholds, -, -⟩ := fix_partialEvaluation chain "b" 1 chain_reachable hlabels (by decide)
  obtain ⟨-, hfails, -⟩ := fix_partialEvaluation chain "b" (-1) chain_reachable hlabels (by decide)
  exact ⟨⟨q, hq, hholds q hq⟩, (hfails _ hfault).2⟩

end Problem

end QuadraticPenalty
