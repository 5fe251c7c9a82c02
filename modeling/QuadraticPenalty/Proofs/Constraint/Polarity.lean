import QuadraticPenalty.Proofs.Constraint.Built
import QuadraticPenalty.Proofs.Constraint.Substitution

namespace QuadraticPenalty

namespace Vartype

variable {t : Vartype} {x : ℤ}

lemma flip_flip (t : Vartype) (x : ℤ) : t.flip (t.flip x) = x := by
  cases t with
  | spin => exact neg_neg x
  | binary => exact sub_sub_cancel 1 x

lemma flip_eq_iff {y : ℤ} : t.flip y = x ↔ y = t.flip x :=
  Function.Involutive.eq_iff (flip_flip t)

lemma flip_ne (hx : x ∈ t.values) : t.flip x ≠ x := by
  obtain rfl | rfl := mem_values.mp hx <;> cases t <;> decide

end Vartype

namespace Constraint

variable {c : Constraint} {t : Vartype} {u v : String} {x : ℤ} {y : List ℤ} {f : String → ℤ} {p : ℕ}
  {scope : List String}

lemma modify_flip_flip (t : Vartype) (p : ℕ) (y : List ℤ) : (y.modify p t.flip).modify p t.flip = y := by
  have hid : t.flip ∘ t.flip = id := funext t.flip_flip
  rw [List.modify_modify_eq, hid, List.modify_id]

lemma modify_map_update (hn : scope.Nodup) (g : ℤ → ℤ) :
    (scope.map (Function.update f v x)).modify (scope.idxOf v) g = scope.map (Function.update f v (g x)) := by
  apply List.ext_getElem (by simp)
  intro i hi hj
  have hlt : i < scope.length := by simpa using hj
  rw [List.getElem_modify, List.getElem_map, List.getElem_map]
  split
  · next hidx =>
    have hget : scope[i] = v := by
      subst hidx
      exact List.getElem_idxOf hlt
    rw [hget, Function.update_self, Function.update_self]
  · next hidx =>
    have hne : scope[i] ≠ v := fun he => hidx (he ▸ hn.idxOf_getElem i hlt)
    rw [Function.update_of_ne hne, Function.update_of_ne hne]

def flipped (c : Constraint) (v : String) : Constraint where
  name := c.name ++ " (" ++ v ++ " flipped)"
  vartype := c.vartype
  scope := c.scope
  configurations := c.configurations.map (·.modify (c.scope.idxOf v) c.vartype.flip)

lemma flip_eq_ok (hv : v ∈ c.scope) : c.flip v = .ok (c.flipped v) := by
  rw [flip, positionOf_eq_ok_iff.mpr (position_eq hv)]
  rfl

lemma WellFormed.flipped (hc : c.WellFormed) (hv : v ∈ c.scope) : (c.flipped v).WellFormed :=
  hc.flip (flip_eq_ok hv)

lemma mem_flipped : y ∈ (c.flipped v).configurations ↔
    y.modify (c.scope.idxOf v) c.vartype.flip ∈ c.configurations := by
  rw [flipped, SortedSet.mem_map]
  constructor
  · rintro ⟨z, hz, rfl⟩
    rwa [modify_flip_flip]
  · exact fun h => ⟨_, h, modify_flip_flip ..⟩

lemma accepts_flipped : (c.flipped v).accepts y = c.accepts (y.modify (c.scope.idxOf v) c.vartype.flip) := by
  rw [Bool.eq_iff_iff, accepts_iff, accepts_iff, mem_flipped]

lemma same_flipped_self : ((c.flipped v).flipped v).same c = true := by
  refine same_iff.mpr ⟨rfl, SortedSet.ext_mem fun y => ?_, rfl⟩
  rw [mem_flipped, mem_flipped]
  exact iff_of_eq (congrArg (· ∈ c.configurations) (modify_flip_flip ..))

lemma same_flipped_comm (hu : u ∈ c.scope) :
    ((c.flipped u).flipped v).same ((c.flipped v).flipped u) = true := by
  -- different variables stand at different places of a tuple
  obtain rfl | huv := eq_or_ne u v
  · exact same_iff.mpr ⟨rfl, rfl, rfl⟩
  · refine same_iff.mpr ⟨rfl, SortedSet.ext_mem fun y => ?_, rfl⟩
    have hidx : c.scope.idxOf v ≠ c.scope.idxOf u := fun he => huv ((List.idxOf_inj hu).mp he.symm)
    rw [mem_flipped, mem_flipped, mem_flipped, mem_flipped]
    exact iff_of_eq (congrArg (· ∈ c.configurations) (List.modify_modify_ne _ _ y hidx))

lemma allows_flipped_update (hc : c.WellFormed) :
    (c.flipped v).Allows (Function.update f v x) ↔ c.Allows (Function.update f v (c.vartype.flip x)) := by
  rw [Allows, mem_flipped, Allows, ← modify_map_update hc.1]
  exact Iff.rfl

lemma excludes_flipped : (c.flipped v).Excludes v x ↔ c.Excludes v (c.vartype.flip x) := by
  have hvalue (z : List ℤ) : (z.modify (c.scope.idxOf v) c.vartype.flip)[c.scope.idxOf v]? = some x ↔
      z[c.scope.idxOf v]? = some (c.vartype.flip x) := by
    rw [List.getElem?_modify]
    cases z[c.scope.idxOf v]? <;> simp [Vartype.flip_eq_iff]
  refine and_congr_right fun _ => ?_
  constructor
  · exact fun h z hz hzx => h _ (SortedSet.mem_map.mpr ⟨z, hz, rfl⟩) ((hvalue z).mpr hzx)
  · rintro h y hy hyx
    obtain ⟨z, hz, rfl⟩ := SortedSet.mem_map.mp hy
    exact h z hz ((hvalue z).mp hyx)

lemma agree_fix_flipped (hc : c.WellFormed) (hv : v ∈ c.scope) (hx : x ∈ c.vartype.values) :
    Agree ((c.flipped v).fix v x) (c.fix v (c.vartype.flip x)) := by
  have hd := hc.flipped hv
  refine agree_iff.mpr ⟨?_, fun r s hr hs => ?_⟩
  · rw [fix_isOk_iff hd hv hx, fix_isOk_iff hc hv (flip_mem hx), excludes_flipped]
  · obtain ⟨-, -, htr, -⟩ := fix_eq_ok hr
    obtain ⟨-, -, hts, -⟩ := fix_eq_ok hs
    refine (hd.fix hr).same_of_allows (hc.fix hs) ?_ (htr.trans hts.symm) fun f => ?_
    · exact (scope_fix hd hr).trans (scope_fix hc hs).symm
    · rw [allows_fix hd hr, allows_fix hc hs, allows_flipped_update hc]

/-- The complement is the other value of the domain. A flipped variable is read as its complement; a second
flip of it takes the first one back, two variables are flipped in either order, and a value that is put in
for a flipped variable is the complement put in before. -/
theorem flip_complements (c : Constraint) (u v : String) (x : ℤ) (hc : c.WellFormed) (hu : u ∈ c.scope)
    (hv : v ∈ c.scope) (hx : x ∈ c.vartype.values) :
    (c.vartype.flip x ∈ c.vartype.values ∧ c.vartype.flip x ≠ x) ∧
    (∃ d, c.flip v = .ok d ∧ d.scope = c.scope ∧ d.vartype = c.vartype ∧
      ∀ y, d.accepts y = c.accepts (y.modify (c.scope.idxOf v) c.vartype.flip)) ∧
    (∃ d, (c.flip v >>= fun k => k.flip v) = .ok d ∧ d.same c = true) ∧
    (∃ d e, (c.flip u >>= fun k => k.flip v) = .ok d ∧ (c.flip v >>= fun k => k.flip u) = .ok e ∧
      d.same e = true) ∧
    Agree (c.flip v >>= fun k => k.fix v x) (c.fix v (c.vartype.flip x)) := by
  refine ⟨⟨flip_mem hx, Vartype.flip_ne hx⟩, ?_⟩
  rw [flip_eq_ok hu, flip_eq_ok hv]
  refine ⟨⟨_, rfl, rfl, rfl, fun y => accepts_flipped⟩, ?_, ?_, agree_fix_flipped hc hv hx⟩
  · exact ⟨_, flip_eq_ok (c := c.flipped v) hv, same_flipped_self⟩
  · exact ⟨_, _, flip_eq_ok (c := c.flipped u) hv, flip_eq_ok (c := c.flipped v) hu, same_flipped_comm hu⟩

def implication : Constraint := ⟨"Implication", .binary, ["a", "b"], ⟨[[0, 0], [0, 1], [1, 1]], by decide⟩⟩

theorem flip_complements_of_implication :
    (∃ d, implication.flip "a" = .ok d ∧ d.accepts [0, 0] = false ∧ d.accepts [1, 0] = true) ∧
    (∃ d, (implication.flip "a" >>= fun k => k.flip "a") = .ok d ∧ d.same implication = true) ∧
    ∃ r s, (implication.flip "a" >>= fun k => k.fix "a" 0) = .ok r ∧ implication.fix "a" 1 = .ok s ∧
      r.same s = true := by
  have hc : implication.WellFormed := flaw_eq_none_iff.mp (by decide)
  obtain ⟨-, ⟨d, hd, -, -, haccepts⟩, htwice, -, hfix⟩ :=
    flip_complements implication "b" "a" 0 hc (by decide) (by decide) (by decide)
  obtain ⟨s, hs⟩ : ∃ s, implication.fix "a" 1 = .ok s := by
    apply Exists.intro
    cbv
  obtain ⟨hiff, hsame⟩ := agree_iff.mp hfix
  obtain ⟨r, hr⟩ := hiff.mpr ⟨s, hs⟩
  refine ⟨⟨d, hd, ?_, ?_⟩, htwice, r, s, hr, hs, hsame r s hr hs⟩
  · rw [haccepts]
    decide
  · rw [haccepts]
    decide

end Constraint

end QuadraticPenalty
