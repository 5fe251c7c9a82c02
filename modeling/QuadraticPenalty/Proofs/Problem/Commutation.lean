import QuadraticPenalty.Proofs.Problem.Substitution

namespace QuadraticPenalty

lemma SortedMap.erase_erase_comm {κ β : Type} [Ordered κ] [DecidableEq κ] (m : SortedMap κ β) (k l : κ) :
    (m.erase k).erase l = (m.erase l).erase k := by
  apply SortedMap.ext
  simp only [erase, List.filter_filter, Bool.and_comm]

namespace Constraint

variable {c : Constraint} {u v : String} {x y : ℤ} {f : String → ℤ}

lemma allows_update (hv : v ∉ c.scope) : c.Allows (Function.update f v x) ↔ c.Allows f := by
  have hf : ∀ u ∈ c.scope, Function.update f v x u = f u := fun u hu =>
    Function.update_of_ne (fun he : u = v => hv (he ▸ hu)) x f
  exact ⟨.congr hf, .congr fun u hu => (hf u hu).symm⟩

def Permits (c : Constraint) (u : String) (x : ℤ) (v : String) (y : ℤ) : Prop :=
  u ∈ c.scope ∨ v ∈ c.scope → ∃ f, c.Allows f ∧ f u = x ∧ f v = y

lemma permits_comm : c.Permits u x v y ↔ c.Permits v y u x := by
  have hswap : ∀ f : String → ℤ, (c.Allows f ∧ f u = x ∧ f v = y) ↔ (c.Allows f ∧ f v = y ∧ f u = x) :=
    fun f => and_congr_right fun _ => and_comm
  rw [Permits, Permits, or_comm, exists_congr hswap]

lemma Permits.not_excludes (hc : c.WellFormed) (h : c.Permits u x v y) : ¬ c.Excludes u x := by
  rw [excludes_iff hc]
  rintro ⟨hu, hall⟩
  obtain ⟨f, hf, hfu, -⟩ := h (.inl hu)
  exact hall f hf hfu

end Constraint

namespace Problem

variable {p q r s : Problem} {c d e d' e' : Constraint} {u v : String} {x y : ℤ} {f : String → ℤ}

lemma Fixes.scope_eq (hc : c.WellFormed) (h : Fixes v x c d) :
    d.scope = c.scope.filter fun u => u != v := by
  obtain ⟨hv, rfl⟩ | ⟨-, hfix⟩ := h
  · refine (List.filter_eq_self.mpr fun u hu => ?_).symm
    exact bne_iff_ne.mpr fun he => hv (he ▸ hu)
  · exact Constraint.scope_fix hc hfix

lemma Fixes.allows (hc : c.WellFormed) (h : Fixes v x c d) :
    d.Allows f ↔ c.Allows (Function.update f v x) := by
  obtain ⟨hv, rfl⟩ | ⟨-, hfix⟩ := h
  · exact (Constraint.allows_update hv).symm
  · exact Constraint.allows_fix hc hfix

lemma Fixes.permits_iff (hc : c.WellFormed) (huv : u ≠ v) (h : Fixes u x c d) :
    c.Permits u x v y ↔ ¬ c.Excludes u x ∧ ¬ d.Excludes v y := by
  obtain ⟨hd, -⟩ := h.wellFormed hc
  constructor
  · intro hpermits
    refine ⟨hpermits.not_excludes hc, fun hexcludes => ?_⟩
    obtain ⟨hv, hall⟩ := (Constraint.excludes_iff hd).mp hexcludes
    obtain ⟨f, hf, rfl, hfv⟩ := hpermits (.inr ((h.mem_scope hc).mp hv).2)
    refine hall f ?_ hfv
    rwa [h.allows hc, Function.update_eq_self]
  · rintro ⟨hfirst, hsecond⟩ hscope
    by_cases hv : v ∈ c.scope
    · obtain ⟨f, hf, rfl⟩ :=
        Constraint.exists_of_not_excludes hd ((h.mem_scope hc).mpr ⟨huv.symm, hv⟩) hsecond
      exact ⟨_, (h.allows hc).mp hf, Function.update_self .., Function.update_of_ne huv.symm ..⟩
    · obtain ⟨f, hf, rfl⟩ := Constraint.exists_of_not_excludes hc (hscope.resolve_right hv) hfirst
      exact ⟨Function.update f v y, (Constraint.allows_update hv).mpr hf, Function.update_of_ne huv ..,
        Function.update_self ..⟩

lemma Fixes.same (hc : c.WellFormed) (huv : u ≠ v) (hcd : Fixes u x c d) (hde : Fixes v y d e)
    (hcd' : Fixes v y c d') (hde' : Fixes u x d' e') : e.same e' = true := by
  obtain ⟨hd, ht⟩ := hcd.wellFormed hc
  obtain ⟨hd', ht'⟩ := hcd'.wellFormed hc
  obtain ⟨he, hte⟩ := hde.wellFormed hd
  obtain ⟨he', hte'⟩ := hde'.wellFormed hd'
  have hscope : e.scope = e'.scope := by
    rw [hde.scope_eq hd, hcd.scope_eq hc, hde'.scope_eq hd', hcd'.scope_eq hc, List.filter_filter,
      List.filter_filter]
    simp only [Bool.and_comm]
  refine he.same_of_allows he' hscope ((hte.trans ht).trans (hte'.trans ht').symm) fun f => ?_
  rw [hde.allows hd, hcd.allows hc, hde'.allows hd', hcd'.allows hc, Function.update_comm huv]

lemma Coherent.fix_isOk_iff (hp : p.Coherent) (hv : v ∈ p.labels) (hx : x ∈ p.vartype.values) :
    (∃ q, p.fix v x = .ok q) ↔ ∀ c ∈ p.constraints, ¬ c.Excludes v x := by
  constructor
  · rintro ⟨q, hq⟩ c hc hexcludes
    exact hp.fix_ne_ok hc hexcludes hx hq
  · intro h
    cases hq : p.fix v x with
    | ok q => exact ⟨q, rfl⟩
    | error fault =>
      obtain ⟨c, hc, hexcludes, -⟩ := hp.fix_eq_error hv hx hq
      exact absurd hexcludes (h c hc)

lemma Coherent.fix_fix_isOk_iff (hp : p.Coherent) (hu : u ∈ p.labels) (hv : v ∈ p.labels) (huv : u ≠ v)
    (hx : x ∈ p.vartype.values) (hy : y ∈ p.vartype.values) :
    (∃ r, (p.fix u x >>= fun q => q.fix v y) = .ok r) ↔ ∀ c ∈ p.constraints, c.Permits u x v y := by
  have hsecond : ∀ q, p.fix u x = .ok q →
      ((∃ r, q.fix v y = .ok r) ↔ ∀ d ∈ q.constraints, ¬ d.Excludes v y) := by
    intro q hq
    obtain ⟨ht, hi, -⟩ := hp.fix_eq_ok hq
    refine (hp.fix hq).fix_isOk_iff ?_ (ht ▸ hy)
    rw [labels, hi]
    exact SortedMap.mem_keys_erase.mpr ⟨huv.symm, hv⟩
  constructor
  · rintro ⟨r, h⟩ c hc
    obtain ⟨q, hq, hr⟩ := exists_of_bind_ok h
    obtain ⟨d, hd, hfixes⟩ := hp.exists_fixes_left hq hc
    refine (hfixes.permits_iff (hp.wellFormed c hc) huv).mpr ⟨?_, ?_⟩
    · exact (hp.fix_isOk_iff hu hx).mp ⟨q, hq⟩ c hc
    · exact (hsecond q hq).mp ⟨r, hr⟩ d hd
  · intro h
    obtain ⟨q, hq⟩ := (hp.fix_isOk_iff hu hx).mpr fun c hc => (h c hc).not_excludes (hp.wellFormed c hc)
    have hleft : ∀ d ∈ q.constraints, ¬ d.Excludes v y := by
      intro d hd
      obtain ⟨c, hc, hfixes⟩ := hp.exists_fixes_right hq hd
      exact ((hfixes.permits_iff (hp.wellFormed c hc) huv).mp (h c hc)).2
    rw [hq]
    exact (hsecond q hq).mpr hleft

lemma Coherent.forall₂_same (hp : p.Coherent) (huv : u ≠ v) {q' r' : Problem} (hq : p.fix u x = .ok q)
    (hr : q.fix v y = .ok r) (hq' : p.fix v y = .ok q') (hr' : q'.fix u x = .ok r') :
    List.Forall₂ (fun c d => c.same d = true) r.constraints r'.constraints := by
  have hpq := hp.forall₂_fixes hq
  have hqr := (hp.fix hq).forall₂_fixes hr
  have hpq' := hp.forall₂_fixes hq'
  have hqr' := (hp.fix hq').forall₂_fixes hr'
  have hlength : p.constraints.length = r.constraints.length := hpq.length_eq.trans hqr.length_eq
  have hlength' : p.constraints.length = r'.constraints.length := hpq'.length_eq.trans hqr'.length_eq
  refine List.forall₂_iff_get.mpr ⟨hlength.symm.trans hlength', fun i hi hi' => ?_⟩
  have hip : i < p.constraints.length := hlength ▸ hi
  have hiq : i < q.constraints.length := hqr.length_eq ▸ hi
  have hiq' : i < q'.constraints.length := hqr'.length_eq ▸ hi'
  exact Fixes.same (hp.wellFormed _ (List.get_mem p.constraints ⟨i, hip⟩)) huv (hpq.get hip hiq)
    (hqr.get hiq hi) (hpq'.get hip hiq') (hqr'.get hiq' hi')

/-- The two orders succeed together, and leave the same variables under the same constraints. -/
theorem fix_commutes (p : Problem) (u v : String) (x y : ℤ) (hp : p.Reachable) (hu : u ∈ p.labels)
    (hv : v ∈ p.labels) (huv : u ≠ v) (hx : x ∈ p.vartype.values) (hy : y ∈ p.vartype.values) :
    ((∃ r, (p.fix u x >>= fun q => q.fix v y) = .ok r) ↔
      ∃ r, (p.fix v y >>= fun q => q.fix u x) = .ok r) ∧
    ∀ r r', (p.fix u x >>= fun q => q.fix v y) = .ok r → (p.fix v y >>= fun q => q.fix u x) = .ok r' →
      r.vartype = r'.vartype ∧ r.index = r'.index ∧
        List.Forall₂ (fun c d => c.same d = true) r.constraints r'.constraints := by
  have hcoherent := hp.coherent
  refine ⟨?_, fun r r' h h' => ?_⟩
  · rw [hcoherent.fix_fix_isOk_iff hu hv huv hx hy, hcoherent.fix_fix_isOk_iff hv hu huv.symm hy hx]
    exact forall₂_congr fun c _ => Constraint.permits_comm
  · obtain ⟨q, hq, hr⟩ := exists_of_bind_ok h
    obtain ⟨q', hq', hr'⟩ := exists_of_bind_ok h'
    obtain ⟨ht, hi, -⟩ := hcoherent.fix_eq_ok hq
    obtain ⟨ht', hi', -⟩ := hcoherent.fix_eq_ok hq'
    obtain ⟨htr, hir, -⟩ := (hcoherent.fix hq).fix_eq_ok hr
    obtain ⟨htr', hir', -⟩ := (hcoherent.fix hq').fix_eq_ok hr'
    refine ⟨?_, ?_, hcoherent.forall₂_same huv hq hr hq' hr'⟩
    · rw [htr, ht, htr', ht']
    · rw [hir, hi, hir', hi', SortedMap.erase_erase_comm]

theorem fix_commutes_of_chain : ∃ r r', (chain.fix "b" 1 >>= fun q => q.fix "a" 1) = .ok r ∧
    (chain.fix "a" 1 >>= fun q => q.fix "b" 1) = .ok r' ∧ r.vartype = r'.vartype ∧ r.index = r'.index ∧
      List.Forall₂ (fun c d => c.same d = true) r.constraints r'.constraints := by
  obtain ⟨hiff, hequal⟩ := fix_commutes chain "b" "a" 1 1 chain_reachable (by decide) (by decide)
    (by decide) (by decide) (by decide)
  obtain ⟨r, hr⟩ : ∃ r, (chain.fix "b" 1 >>= fun q => q.fix "a" 1) = .ok r := by
    apply Exists.intro
    cbv
  obtain ⟨r', hr'⟩ := hiff.mp ⟨r, hr⟩
  exact ⟨r, r', hr, hr', hequal r r' hr hr'⟩

end Problem

end QuadraticPenalty
