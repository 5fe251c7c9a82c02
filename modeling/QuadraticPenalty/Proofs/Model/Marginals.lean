import QuadraticPenalty.Model.Sweep
import QuadraticPenalty.Proofs.Masks
import QuadraticPenalty.Proofs.Model.Ground
import QuadraticPenalty.Proofs.Model.Totality

namespace QuadraticPenalty

open Scalar Extended

namespace Extended

variable {a b : Extended}

lemma IsGap.least_infinity (h : a.IsGap) : least infinity a = a := by
  rcases h with rfl | ⟨q, rfl⟩ <;> rfl

lemma IsGap.le_infinity (h : a.IsGap) : Scalar.le a infinity = true := by
  rcases h with rfl | ⟨q, rfl⟩ <;> rfl

variable {β : Type} {xs : List β} {f : β → Extended}

lemma foldl_least_infinity (h : ∀ x ∈ xs, f x = infinity) : (xs.map f).foldl least infinity = infinity := by
  induction xs with
  | nil => rfl
  | cons x xs ih =>
    rw [List.map_cons, List.foldl_cons, h x List.mem_cons_self]
    exact ih fun y hy => h y (List.mem_cons_of_mem _ hy)

lemma foldl_least_isLeast {t : β → Set ℚ} {e : ℚ} (hf : ∀ x ∈ xs, ∃ d, f x = finite d ∧ IsLeast (t x) d)
    (he : IsLeast {q | ∃ x ∈ xs, q ∈ t x} e) : (xs.map f).foldl least infinity = finite e := by
  choose! d hd hdleast using hf
  have hmap : xs.map f = (xs.map d).map finite := by
    rw [List.map_map]
    exact List.map_congr_left hd
  obtain ⟨x, hx, hxe⟩ := he.1
  have hmem : d x ∈ xs.map d := List.mem_map_of_mem hx
  obtain ⟨b, hb, hbleast⟩ := exists_minimum (List.ne_nil_of_mem hmem)
  have hbe : b = e := by
    refine le_antisymm ((hbleast.2 hmem).trans ((hdleast x hx).2 hxe)) ?_
    obtain ⟨z, hz, rfl⟩ := List.mem_map.mp hbleast.1
    exact he.2 ⟨z, hz, (hdleast z hz).1⟩
  rw [hmap, ← hbe, ← hb]
  exact foldl_least _

end Extended

namespace Assignment

variable {a b pins : Assignment} {vs : List String} {xs : List ℤ} {u v : String} {y : ℤ}

lemma setAll_cons (hv : v ∉ vs) : a.setAll (v :: vs) (y :: xs) = (a.set v y).setAll vs xs := by
  funext u
  by_cases h : u = v
  · rw [h, setAll_of_not_mem hv]
    simp [setAll, set]
  · have hb : (u == v) = false := by simpa using h
    simp only [setAll, List.zip_cons_cons, List.lookup, hb, set, if_neg h]

lemma setAll_singleton : a.setAll [v] [y] = a.set v y := setAll_cons List.not_mem_nil

lemma write_eq_setAll (hn : vs.Nodup) : a.write vs xs = a.setAll vs xs := by
  induction vs generalizing a xs with
  | nil => rfl
  | cons v vs ih =>
    obtain ⟨hv, hn⟩ := List.nodup_cons.mp hn
    cases xs with
    | nil => rfl
    | cons y xs =>
      rw [setAll_cons hv, ← ih hn]
      rfl

lemma setAll_congr (hx : xs.length = vs.length) (h : ∀ v ∉ vs, a v = b v) :
    a.setAll vs xs = b.setAll vs xs := by
  funext u
  by_cases hu : u ∈ vs
  · obtain ⟨y, -, hlookup⟩ := exists_lookup_zip hx hu
    simp [setAll, hlookup]
  · rw [setAll_of_not_mem hu, setAll_of_not_mem hu, h u hu]

end Assignment

namespace QuadraticModel

section Sweep

variable {α : Type} [ExtendedScalar α] {m : QuadraticModel α} {pins a : Assignment} {free : List String}

lemma sweepStep_eq (hn : free.Nodup) (ha : ∀ v ∉ free, a v = pins v) (best : α) {x : List ℤ}
    (hx : x.length = free.length) : m.sweepStep free (a, best) x = (pins.setAll free x,
      match m.energy (pins.setAll free x) with
      | .ok e => least best e
      | .error _ => best) := by
  rw [sweepStep, Assignment.write_eq_setAll hn, Assignment.setAll_congr hx ha]
  cases m.energy (pins.setAll free x) <;> rfl

lemma foldl_sweepStep (hn : free.Nodup) {xs : List (List ℤ)} (hxs : ∀ x ∈ xs, x.length = free.length)
    (ha : ∀ v ∉ free, a v = pins v) (best : α) :
    (xs.foldl (m.sweepStep free) (a, best)).2 = xs.foldl (fun best x =>
      match m.energy (pins.setAll free x) with
      | .ok e => least best e
      | .error _ => best) best := by
  induction xs generalizing a best with
  | nil => rfl
  | cons x xs ih =>
    rw [List.foldl_cons, List.foldl_cons, sweepStep_eq hn ha best (hxs x (by simp))]
    exact ih (fun x hx => hxs x (by simp [hx])) (fun v hv => Assignment.setAll_of_not_mem hv) _

lemma sweep_eq (h : (m.freeVariables pins).length ≤ 63) : m.sweep pins = m.leastEnergy pins := by
  have hn : (m.freeVariables pins).Nodup := m.linear.keys_nodup.filter _
  rw [sweep, Vartype.maskedTuples_eq h, leastEnergy]
  exact foldl_sweepStep hn (fun x hx => (Vartype.mem_tuples.mp hx).1) (fun _ _ => rfl) _

end Sweep

variable {m : QuadraticModel Extended} {pins : Assignment} {vs : List String} {v : String} {y : ℤ}

def Admits {α : Type} (m : QuadraticModel α) (pins : Assignment) : Prop :=
  ∀ v ∈ m.labels, ∀ y, pins v = some y → y ∈ m.vartype.values

def energiesUnder (m : QuadraticModel Extended) (pins : Assignment) : Set ℚ :=
  {e | ∃ x : Assignment, x.Covers m.vartype m.labels ∧
    (∀ v ∈ m.labels, ∀ y, pins v = some y → x v = some y) ∧ m.energy x = .ok (finite e)}

lemma energiesUnder_exact (k : QuadraticModel ℚ) (pins : Assignment) :
    k.exact.energiesUnder pins = k.exact.energiesWith (k.pinned pins) pins := by
  have hagree : ∀ x : Assignment, (∀ v ∈ k.exact.labels, ∀ y, pins v = some y → x v = some y) ↔
      ∀ v ∈ k.pinned pins, x v = pins v := fun x => by
    simp only [exact_labels, pinned, List.mem_filter, and_imp, Option.isSome_iff_exists]
    refine forall₂_congr fun v _ => ⟨?_, fun h y hy => ?_⟩
    · rintro h ⟨y, hy⟩
      rw [hy, h y hy]
    · rw [h ⟨y, hy⟩, hy]
  exact Set.ext fun e => exists_congr fun x => by rw [hagree]

lemma leastEnergy_isLeast (hm : m.WellFormed) (hf : m.IsFinite) (hp : m.Admits pins) :
    ∃ e, m.leastEnergy pins = finite e ∧ IsLeast (m.energiesUnder pins) e := by
  obtain ⟨k, rfl⟩ := hf.exists_exact
  rw [energiesUnder_exact]
  exact leastEnergy_exact pins (exact_wellFormed.mp hm) fun v hv => hp v (by rwa [exact_labels])

lemma leastEnergy_of_not_admits (hm : m.WellFormed) (hp : ¬ m.Admits pins) :
    m.leastEnergy pins = infinity := by
  simp only [Admits, not_forall] at hp
  obtain ⟨v, hv, y, hpin, hy⟩ := hp
  have hfree : v ∉ m.freeVariables pins := fun h => by simp [freeVariables, hpin] at h
  have herror : ∀ x, ∃ fault, m.energy (pins.setAll (m.freeVariables pins) x) = .error fault := by
    intro x
    rcases hm.energy_cases (pins.setAll (m.freeVariables pins) x) with ⟨hcovers, -⟩ | ⟨-, fault, -, h⟩
    · obtain ⟨z, hz, hset⟩ := hcovers v hv
      rw [Assignment.setAll_of_not_mem hfree, hpin] at hset
      exact absurd (Option.some.inj hset ▸ hz) hy
    · exact ⟨fault, h⟩
  rw [leastEnergy]
  refine (List.foldl_ext _ (fun best _ => best) _ fun best x _ => ?_).trans
    (List.foldl_fixed _)
  obtain ⟨fault, h⟩ := herror x
  rw [h]

lemma leastEnergy_isGap (hm : m.WellFormed) (hf : m.IsFinite) (pins : Assignment) :
    (m.leastEnergy pins).IsGap := by
  by_cases hp : m.Admits pins
  · obtain ⟨e, he, -⟩ := leastEnergy_isLeast hm hf hp
    exact .inr ⟨e, he⟩
  · exact .inl (leastEnergy_of_not_admits hm hp)

lemma admits_setAll (hvs : ∀ v ∈ vs, pins v = none) {x : List ℤ} (hx : m.vartype.IsTuple vs.length x) :
    m.Admits (pins.setAll vs x) ↔ m.Admits pins := by
  constructor
  · intro h v hv y hy
    have hout : v ∉ vs := fun hmem => by cases (hvs v hmem).symm.trans hy
    exact h v hv y ((Assignment.setAll_of_not_mem hout).trans hy)
  · intro h v hv y hy
    by_cases hmem : v ∈ vs
    · obtain ⟨z, hz, hset⟩ := Assignment.exists_setAll (a := pins) hx.1 hmem
      exact Option.some.inj (hset.symm.trans hy) ▸ hx.2 z hz
    · exact h v hv y ((Assignment.setAll_of_not_mem hmem).symm.trans hy)

lemma energiesUnder_setAll_subset (hvs : ∀ v ∈ vs, pins v = none) (x : List ℤ) :
    m.energiesUnder (pins.setAll vs x) ⊆ m.energiesUnder pins := by
  rintro e ⟨z, hz, hagree, he⟩
  refine ⟨z, hz, fun v hv y hy => hagree v hv y ?_, he⟩
  have hout : v ∉ vs := fun hmem => by cases (hvs v hmem).symm.trans hy
  exact (Assignment.setAll_of_not_mem hout).trans hy

lemma mem_energiesUnder_iff {e : ℚ} (hvs : ∀ v ∈ vs, pins v = none) : e ∈ m.energiesUnder pins ↔
    ∃ x ∈ m.vartype.tuples vs.length, e ∈ m.energiesUnder (pins.setAll vs x) := by
  refine ⟨?_, fun ⟨x, _, he⟩ => energiesUnder_setAll_subset hvs x he⟩
  rintro ⟨z, hz, hagree, he⟩
  let f : String → ℤ := fun v => if v ∈ m.labels then (z v).getD 0 else m.vartype.low
  have hf : ∀ v ∈ m.labels, z v = some (f v) ∧ f v ∈ m.vartype.values := fun v hv => by
    obtain ⟨y, hy, hzv⟩ := hz v hv
    have hfv : f v = y := by simp [f, hv, hzv]
    exact ⟨hfv ▸ hzv, hfv ▸ hy⟩
  refine ⟨vs.map f, Vartype.mem_tuples.mpr ⟨by simp, fun y hy => ?_⟩, z, hz, fun v hv y hy => ?_, he⟩
  · obtain ⟨v, -, rfl⟩ := List.mem_map.mp hy
    by_cases hv : v ∈ m.labels
    · exact (hf v hv).2
    · simp [f, hv]
  · by_cases hmem : v ∈ vs
    · rw [Assignment.setAll_map f hmem] at hy
      rw [(hf v hv).1, hy]
    · exact hagree v hv y ((Assignment.setAll_of_not_mem hmem).symm.trans hy)

lemma leastEnergy_eq_foldl (hm : m.WellFormed) (hf : m.IsFinite) (hvs : ∀ v ∈ vs, pins v = none) :
    m.leastEnergy pins = ((m.vartype.tuples vs.length).map fun x =>
      m.leastEnergy (pins.setAll vs x)).foldl least infinity := by
  have hadmits : ∀ x ∈ m.vartype.tuples vs.length, m.Admits (pins.setAll vs x) ↔ m.Admits pins :=
    fun x hx => admits_setAll hvs (Vartype.mem_tuples.mp hx)
  by_cases hp : m.Admits pins
  · obtain ⟨e, he, hleast⟩ := leastEnergy_isLeast hm hf hp
    have hset : m.energiesUnder pins =
        {q | ∃ x ∈ m.vartype.tuples vs.length, q ∈ m.energiesUnder (pins.setAll vs x)} :=
      Set.ext fun q => mem_energiesUnder_iff hvs
    rw [hset] at hleast
    rw [he]
    exact (foldl_least_isLeast (fun x hx => leastEnergy_isLeast hm hf ((hadmits x hx).mpr hp)) hleast).symm
  · rw [leastEnergy_of_not_admits hm hp]
    exact (foldl_least_infinity fun x hx => leastEnergy_of_not_admits hm (mt (hadmits x hx).mp hp)).symm

lemma leastEnergy_le_set (hm : m.WellFormed) (hf : m.IsFinite) (hv : pins v = none) (y : ℤ) :
    Scalar.le (m.leastEnergy pins) (m.leastEnergy (pins.set v y)) = true := by
  by_cases hp : m.Admits (pins.set v y)
  · have hvs : ∀ u ∈ [v], pins u = none := by simpa using hv
    have hsub : m.energiesUnder (pins.set v y) ⊆ m.energiesUnder pins :=
      Assignment.setAll_singleton ▸ energiesUnder_setAll_subset hvs [y]
    have hpins : m.Admits pins := fun u hu z hz => hp u hu z <| by
      rw [Assignment.set, if_neg (by rintro rfl; cases hv.symm.trans hz), hz]
    obtain ⟨e, he, hleast⟩ := leastEnergy_isLeast hm hf hpins
    obtain ⟨d, hd, hdleast⟩ := leastEnergy_isLeast hm hf hp
    rw [he, hd]
    exact decide_eq_true (hleast.2 (hsub hdleast.1))
  · rw [leastEnergy_of_not_admits hm hp]
    exact (leastEnergy_isGap hm hf pins).le_infinity

lemma leastEnergy_eq_least (hm : m.WellFormed) (hf : m.IsFinite) (hv : pins v = none) :
    m.leastEnergy pins = least (m.leastEnergy (pins.set v m.vartype.low))
      (m.leastEnergy (pins.set v m.vartype.high)) := by
  have hgap := leastEnergy_isGap hm hf (pins.set v m.vartype.low)
  have htuples : m.vartype.tuples [v].length = [[m.vartype.low], [m.vartype.high]] :=
    Vartype.tuples_succ _ 0
  have hvs : ∀ u ∈ [v], pins u = none := by simpa using hv
  rw [leastEnergy_eq_foldl hm hf hvs, htuples]
  simp only [List.map_cons, List.map_nil, List.foldl_cons, List.foldl_nil, Assignment.setAll_singleton,
    hgap.least_infinity]

/-- The least energy under pins, found by one sweep over the free labels, is the least of the energies of
the assignments that agree with the pins, and infinite where a pin is outside the domain. One more pin
does not lower it, and over both values of a label it is the least of the two; so the ground energy is the
least one over all values of any labels. -/
theorem leastEnergy_marginal (m : QuadraticModel Extended) (hm : m.Reachable) (hf : m.IsFinite) :
    (∀ pins, (m.freeVariables pins).length ≤ 63 → m.sweep pins = m.leastEnergy pins) ∧
    (∀ pins, m.Admits pins →
      ∃ e, m.leastEnergy pins = finite e ∧ IsLeast (m.energiesUnder pins) e) ∧
    (∀ pins, ¬ m.Admits pins → m.leastEnergy pins = infinity) ∧
    (∀ pins v, pins v = none →
      (∀ y, Scalar.le (m.leastEnergy pins) (m.leastEnergy (pins.set v y)) = true) ∧
      m.leastEnergy pins = least (m.leastEnergy (pins.set v m.vartype.low))
        (m.leastEnergy (pins.set v m.vartype.high))) ∧
    ∀ vs : List String, m.groundEnergy = ((m.vartype.tuples vs.length).map fun x =>
      m.leastEnergy (.ofLists vs x)).foldl least infinity := by
  have hw := hm.wellFormed
  exact ⟨fun pins => sweep_eq, fun pins => leastEnergy_isLeast hw hf,
    fun pins => leastEnergy_of_not_admits hw,
    fun pins v hv => ⟨leastEnergy_le_set hw hf hv, leastEnergy_eq_least hw hf hv⟩,
    fun vs => leastEnergy_eq_foldl hw hf fun _ _ => rfl⟩

def assisted : QuadraticModel Extended :=
  ((empty .spin).addCoupling "a" "aux" (finite (-1))).addBias "aux" (finite (1 / 2))

theorem leastEnergy_marginal_of_assisted :
    assisted.Reachable ∧ assisted.IsFinite ∧
      IsLeast (assisted.energiesUnder (.ofLists ["a", "b"] [1, 0])) (-1 / 2) ∧
      assisted.leastEnergy (.ofLists ["a"] [0]) = infinity ∧
      assisted.sweep (.ofLists ["a"] [1]) = finite (-1 / 2) ∧
      assisted.groundEnergy = least (assisted.leastEnergy (Assignment.empty.set "a" (-1)))
        (assisted.leastEnergy (Assignment.empty.set "a" 1)) := by
  have hreachable : assisted.Reachable := .addBias _ _ (.addCoupling _ _ _ (.empty _))
  have hfinite : assisted.IsFinite := ⟨by decide +kernel, by decide +kernel, by decide +kernel⟩
  have hlabels : assisted.labels = ["a", "aux"] := by decide +kernel
  obtain ⟨hsweep, hleast, hinfinite, hpin, -⟩ := leastEnergy_marginal assisted hreachable hfinite
  have hvalue : assisted.leastEnergy (.ofLists ["a", "b"] [1, 0]) = finite (-1 / 2) := by decide +kernel
  have hadmits : assisted.Admits (.ofLists ["a", "b"] [1, 0]) := by
    rw [Admits, hlabels]
    decide
  have hnot : ¬ assisted.Admits (.ofLists ["a"] [0]) := fun h =>
    absurd (h "a" (by simp [hlabels]) 0 rfl) (by decide)
  obtain ⟨e, he, hmin⟩ := hleast _ hadmits
  obtain rfl : e = -1 / 2 := Extended.finite.inj (he.symm.trans hvalue)
  refine ⟨hreachable, hfinite, hmin, hinfinite _ hnot, ?_, (hpin .empty "a" rfl).2⟩
  rw [hsweep _ (by decide +kernel)]
  decide +kernel

end QuadraticModel

end QuadraticPenalty
