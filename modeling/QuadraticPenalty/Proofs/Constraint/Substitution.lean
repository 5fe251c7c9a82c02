import QuadraticPenalty.Proofs.Constraint.Products

namespace QuadraticPenalty

namespace Constraint

variable {c d : Constraint} {v : String} {x : ℤ} {a b : Assignment} {z : List ℤ} {f : String → ℤ}

lemma holds_congr (h : ∀ u ∈ c.scope, a u = b u) : c.holds a = c.holds b := by
  have htuple : c.tupleIn a = c.tupleIn b := List.map_congr_left fun u hu => by rw [h u hu]
  rw [holds_cases, holds_cases, htuple, List.find?_congr fun u hu => by rw [h u hu]]

lemma getD_eq_iff {i : ℕ} (hi : i < z.length) : z.getD i 0 = x ↔ z[i]? = some x := by
  rw [List.getD_eq_getElem?_getD, List.getElem?_eq_getElem hi, Option.getD_some, Option.some.injEq]

lemma idxOf_lt (hv : v ∈ c.scope) (hz : z.length = c.scope.length) : c.scope.idxOf v < z.length :=
  hz ▸ List.idxOf_lt_length_of_mem hv

lemma fix_spec (hc : c.WellFormed) (h : c.fix v x = .ok d) : v ∈ c.scope ∧
    d.scope = c.scope.eraseIdx (c.scope.idxOf v) ∧
    ∀ z : List ℤ, z.length = c.scope.length → z[c.scope.idxOf v]? = some x →
      (z.eraseIdx (c.scope.idxOf v) ∈ d.configurations ↔ z ∈ c.configurations) := by
  obtain ⟨p, hp, -, hs, -, hd⟩ := fix_eq_ok h
  have hv : v ∈ c.scope := List.mem_of_getElem? (position_getElem? hp)
  obtain rfl : c.scope.idxOf v = p := Option.some.inj ((position_eq hv).symm.trans hp)
  refine ⟨hv, hs, fun z hz hx => ?_⟩
  have hlt := idxOf_lt hv hz
  rw [hd]
  refine ⟨fun ⟨y, hy, hyx, he⟩ => ?_, fun hmem => ⟨z, hmem, (getD_eq_iff hlt).mpr hx, rfl⟩⟩
  have hylt := idxOf_lt hv (hc.isTuple hy).1
  have hget : y[c.scope.idxOf v] = z[c.scope.idxOf v] := by
    have hyx := (getD_eq_iff hylt).mp hyx
    rw [← hx, List.getElem?_eq_getElem hylt, List.getElem?_eq_getElem hlt] at hyx
    exact Option.some.inj hyx
  have hyz : y = z := by
    rw [← List.insertIdx_eraseIdx_getElem hylt, ← List.insertIdx_eraseIdx_getElem hlt, he, hget]
  exact hyz ▸ hy

lemma getElem?_map_idxOf (hv : v ∈ c.scope) (f : String → ℤ) :
    (c.scope.map f)[c.scope.idxOf v]? = some (f v) := by
  have hlt := List.idxOf_lt_length_of_mem hv
  rw [List.getElem?_map, List.getElem?_eq_getElem hlt, List.getElem_idxOf hlt, Option.map_some]

lemma scope_fix (hc : c.WellFormed) (h : c.fix v x = .ok d) : d.scope = c.scope.filter fun u => u != v := by
  obtain ⟨-, hs, -⟩ := fix_spec hc h
  rw [hs, List.eraseIdx_idxOf_eq_erase, hc.1.erase_eq_filter]

lemma allows_fix (hc : c.WellFormed) (h : c.fix v x = .ok d) :
    d.Allows f ↔ c.Allows (Function.update f v x) := by
  obtain ⟨hv, hs, hd⟩ := fix_spec hc h
  have hget : (c.scope.map (Function.update f v x))[c.scope.idxOf v]? = some x := by
    rw [getElem?_map_idxOf hv, Function.update_self]
  have herase : (c.scope.map (Function.update f v x)).eraseIdx (c.scope.idxOf v) = d.scope.map f := by
    rw [List.eraseIdx_map, ← hs, scope_fix hc h]
    refine List.map_congr_left fun u hu => Function.update_of_ne ?_ x f
    simpa using (List.mem_filter.mp hu).2
  have hmem := hd _ (List.length_map _) hget
  rwa [herase] at hmem

lemma accepts_tupleIn_iff : c.accepts (c.tupleIn a) = true ↔ c.Allows fun u => (a u).getD 0 := accepts_iff

lemma holds_fix (hc : c.WellFormed) (h : c.fix v x = .ok d) (a : Assignment) :
    d.holds a = c.holds (a.set v x) := by
  have hmissing : d.scope.find? (fun u => (a u).isNone) =
      c.scope.find? fun u => (a.set v x u).isNone := by
    rw [scope_fix hc h, List.find?_filter]
    refine List.find?_congr fun u _ => ?_
    by_cases huv : u = v
    · simp [Assignment.set, huv]
    · cases hau : a u <;> simp [Assignment.set, huv, hau]
  have hvalues : (fun u => (a.set v x u).getD 0) = Function.update (fun u => (a u).getD 0) v x := by
    funext u
    by_cases huv : u = v
    · rw [huv, Function.update_self, Assignment.set, if_pos rfl, Option.getD_some]
    · rw [Function.update_of_ne huv, Assignment.set, if_neg huv]
  have haccepts : d.accepts (d.tupleIn a) = c.accepts (c.tupleIn (a.set v x)) := by
    rw [Bool.eq_iff_iff, accepts_tupleIn_iff, accepts_tupleIn_iff, hvalues]
    exact allows_fix hc h
  rw [holds_cases, holds_cases, hmissing, haccepts]

def Excludes (c : Constraint) (v : String) (x : ℤ) : Prop :=
  v ∈ c.scope ∧ ∀ y ∈ c.configurations, y[c.scope.idxOf v]? ≠ some x

lemma excludes_iff (hc : c.WellFormed) :
    c.Excludes v x ↔ v ∈ c.scope ∧ ∀ f, c.Allows f → f v ≠ x := by
  refine and_congr_right fun hv => ⟨fun h f hf he => ?_, fun h z hz he => ?_⟩
  · exact h _ hf (he ▸ getElem?_map_idxOf hv f)
  · obtain ⟨f, rfl, hf⟩ := hc.exists_allows hz
    exact h f hf (Option.some.inj ((getElem?_map_idxOf hv f).symm.trans he))

lemma exists_of_not_excludes (hc : c.WellFormed) (hv : v ∈ c.scope) (h : ¬ c.Excludes v x) :
    ∃ f, c.Allows f ∧ f v = x := by
  rw [excludes_iff hc] at h
  by_contra hnone
  exact h ⟨hv, fun f hf he => hnone ⟨f, hf, he⟩⟩

lemma fix_cases (hc : c.WellFormed) (hv : v ∈ c.scope) (hx : x ∈ c.vartype.values) :
    c.Excludes v x ∧ c.fix v x = .error (.unsatisfiable v x c.name) ∨
      ¬ c.Excludes v x ∧ ∃ d, c.fix v x = .ok d := by
  have hposition : c.positionOf v = .ok (c.scope.idxOf v) := positionOf_eq_ok_iff.mpr (position_eq hv)
  have hmem (z : List ℤ) (hz : z ∈ c.configurations) :
      z.getD (c.scope.idxOf v) 0 = x ↔ z[c.scope.idxOf v]? = some x :=
    getD_eq_iff (idxOf_lt hv (hc.isTuple hz).1)
  let left := (c.configurations.filter fun y => y.getD (c.scope.idxOf v) 0 == x).map
    (·.eraseIdx (c.scope.idxOf v))
  have hleft : left.isEmpty = true ↔ c.Excludes v x := by
    rw [SortedSet.isEmpty, List.isEmpty_iff, List.eq_nil_iff_forall_not_mem]
    constructor
    · refine fun h => ⟨hv, fun z hz hzx => ?_⟩
      refine h _ (SortedSet.mem_map.mpr ⟨z, SortedSet.mem_filter.mpr ⟨hz, ?_⟩, rfl⟩)
      exact beq_iff_eq.mpr ((hmem z hz).mpr hzx)
    · rintro h y hy
      obtain ⟨z, hz, -⟩ := SortedSet.mem_map.mp hy
      obtain ⟨hz, hzx⟩ := SortedSet.mem_filter.mp hz
      exact h.2 z hz ((hmem z hz).mp (beq_iff_eq.mp hzx))
  have hfix : c.fix v x = if left.isEmpty then .error (.unsatisfiable v x c.name) else .ok
      ⟨c.name ++ " (" ++ v ++ " fixed to " ++ toString x ++ ")", c.vartype,
        c.scope.eraseIdx (c.scope.idxOf v), left⟩ := by
    rw [fix, hposition]
    change (if !c.vartype.contains x then _ else _) = _
    rw [Vartype.contains_iff.mpr hx]
    rfl
  rw [hfix, ← hleft]
  split
  · next hempty => exact .inl ⟨hempty, rfl⟩
  · next hempty => exact .inr ⟨hempty, _, rfl⟩

lemma fix_isOk_iff (hc : c.WellFormed) (hv : v ∈ c.scope) (hx : x ∈ c.vartype.values) :
    (∃ d, c.fix v x = .ok d) ↔ ¬ c.Excludes v x := by
  obtain ⟨hexcludes, hfix⟩ | ⟨hnot, hfix⟩ := fix_cases hc hv hx
  · simp [hexcludes, hfix]
  · exact iff_of_true hfix hnot

lemma fix_eq_error_iff (hc : c.WellFormed) (hv : v ∈ c.scope) (hx : x ∈ c.vartype.values)
    {fault : Fault} :
    c.fix v x = .error fault ↔ c.Excludes v x ∧ fault = .unsatisfiable v x c.name := by
  obtain ⟨hexcludes, hfix⟩ | ⟨hnot, d, hfix⟩ := fix_cases hc hv hx
  · simp [hexcludes, hfix, eq_comm]
  · simp [hnot, hfix]

lemma Excludes.holds_ne (h : c.Excludes v x) (ha : a v = some x) : c.holds a ≠ .ok true := by
  obtain ⟨hv, hall⟩ := h
  intro hholds
  rw [holds_cases] at hholds
  split at hholds
  · cases hholds
  · refine hall _ (accepts_tupleIn_iff.mp (Except.ok.inj hholds)) ?_
    rw [getElem?_map_idxOf hv, ha, Option.getD_some]

end Constraint

end QuadraticPenalty
