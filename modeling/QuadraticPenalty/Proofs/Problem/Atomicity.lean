import QuadraticPenalty.Problem.Edit
import QuadraticPenalty.Proofs.Constraint.Built
import QuadraticPenalty.Proofs.Problem.Coherence

/-! A call that changes a problem in place does what the operation does, and leaves no trace if it
fails. -/

namespace QuadraticPenalty

def Source.Built : Source → Prop
  | constraint c => c.Built
  | _ => True

lemma Source.Built.wellFormed {s : Source} (h : s.Built) : s.WellFormed := by
  cases s with
  | predicate p scope => exact trivial
  | configurations cs scope => exact trivial
  | constraint c => exact Constraint.Built.wellFormed h

namespace Problem

namespace Edit

variable {β γ : Type} {p : Problem} {v : String} {x : ℤ}

@[simp] lemma perform_get (p : Problem) : perform get p = (.ok p, p) := rfl

@[simp] lemma perform_modify (f : Problem → Problem) (p : Problem) :
    perform (modify f) p = (.ok (), f p) := rfl

@[simp] lemma perform_ofExcept (y : Except Fault β) (p : Problem) : perform (ofExcept y) p = (y, p) := rfl

lemma perform_bind (e : Edit β) (f : β → Edit γ) (p : Problem) :
    perform (e >>= f) p = match perform e p with
      | (.ok b, q) => perform (f b) q
      | (.error fault, q) => (.error fault, q) := by
  change (ExceptT.bindCont f (perform e p).1) (perform e p).2 = _
  obtain ⟨y, q⟩ := perform e p
  cases y <;> rfl

lemma perform_enter (vs : List String) (n : ℕ) (p : Problem) :
    perform (forM vs (enter n)) p = (.ok (), { p with
      index := vs.foldl (fun m v => m.update v fun old => old.getD [] ++ [n]) p.index }) := by
  induction vs generalizing p with
  | nil => rfl
  | cons v vs ih =>
    rw [List.forM_cons, perform_bind, enter, perform_modify]
    exact ih _

/-- What a call is to return and to leave: nothing changes where it fails. -/
def settle (b : β) (p : Problem) : Except Fault Problem → Except Fault β × Problem
  | .ok q => (.ok b, q)
  | .error fault => (.error fault, p)

lemma perform_add (s : Source) (p : Problem) :
    perform (add s) p = settle p.constraints.length p (p.add s) := by
  rw [add, perform_bind, perform_get]
  dsimp only
  rw [perform_bind, perform_ofExcept, Problem.add]
  cases hc : s.build p.vartype with
  | error fault => rfl
  | ok c =>
    dsimp only
    rw [perform_bind, perform_enter]
    rfl

def reducedAt (cs : List Constraint) (v : String) (x : ℤ) (i : ℕ) :
    Except Fault (Option (ℕ × Constraint)) :=
  match cs[i]? with
  | some c => do return some (i, ← c.fix v x)
  | none => .ok none

def write (cs : List Constraint) : Option (ℕ × Constraint) → List Constraint
  | some (i, c) => cs.set i c
  | none => cs

lemma perform_reduce (v : String) (x : ℤ) (i : ℕ) (p : Problem) :
    perform (reduce v x i) p = (reducedAt p.constraints v x i, p) := by
  rw [reduce, perform_bind, perform_get, reducedAt]
  dsimp only
  cases p.constraints[i]? with
  | none => rfl
  | some c =>
    dsimp only
    rw [perform_bind, perform_ofExcept]
    cases c.fix v x <;> rfl

lemma perform_reduces (v : String) (x : ℤ) (is : List ℕ) (p : Problem) :
    perform (is.mapM (reduce v x)) p = (is.mapM (reducedAt p.constraints v x), p) := by
  induction is with
  | nil => rfl
  | cons i is ih =>
    rw [List.mapM_cons, List.mapM_cons, perform_bind, perform_reduce]
    cases reducedAt p.constraints v x i with
    | error fault => rfl
    | ok e =>
      dsimp only
      rw [perform_bind, ih]
      cases is.mapM (reducedAt p.constraints v x) <;> rfl

lemma perform_replaces (es : List (Option (ℕ × Constraint))) (p : Problem) :
    perform (forM es replace) p = (.ok (), { p with constraints := es.foldl write p.constraints }) := by
  induction es generalizing p with
  | nil => rfl
  | cons e es ih =>
    rw [List.forM_cons, perform_bind]
    cases e with
    | none => exact ih p
    | some e => exact ih { p with constraints := p.constraints.set e.1 e.2 }

lemma foldlM_fixAt {is : List ℕ} (hn : is.Nodup) (cs base : List Constraint)
    (h : ∀ i ∈ is, base[i]? = cs[i]?) : is.foldlM (fixAt v x) base =
      (is.mapM (reducedAt cs v x)).map (·.foldl write base) := by
  induction is generalizing base with
  | nil => rfl
  | cons i is ih =>
    obtain ⟨hi, hn⟩ := List.nodup_cons.mp hn
    rw [List.foldlM_cons, List.mapM_cons, fixAt, reducedAt, h i (by simp)]
    cases hc : cs[i]? with
    | none =>
      change is.foldlM (fixAt v x) base = _
      rw [ih hn base fun j hj => h j (by simp [hj])]
      cases is.mapM (reducedAt cs v x) <;> rfl
    | some c =>
      dsimp only
      cases c.fix v x with
      | error fault => rfl
      | ok d =>
        have hbase : ∀ j ∈ is, (base.set i d)[j]? = cs[j]? := fun j hj => by
          rw [List.getElem?_set_ne fun he : i = j => hi (he ▸ hj), h j (by simp [hj])]
        change is.foldlM (fixAt v x) (base.set i d) = _
        rw [ih hn (base.set i d) hbase]
        cases is.mapM (reducedAt cs v x) <;> rfl

lemma perform_fix (hp : p.Coherent) (v : String) (x : ℤ) :
    perform (fix v x) p = settle () p (p.fix v x) := by
  rw [fix, perform_bind, perform_get, Problem.fix]
  dsimp only
  cases his : p.index.find? v with
  | none => rfl
  | some is =>
    dsimp only
    split
    · rfl
    · rw [perform_bind, perform_reduces,
        foldlM_fixAt ((hp.increasing v is his).imp ne_of_lt) p.constraints p.constraints fun _ _ => rfl]
      cases is.mapM (reducedAt p.constraints v x) with
      | error fault => rfl
      | ok es =>
        dsimp only
        rw [perform_bind, perform_replaces]
        rfl

end Edit

namespace Command

open Edit

def Built : Command → Prop
  | add s => s.Built
  | _ => True

def apply : Command → Problem → Except Fault Problem
  | add s, p => p.add s
  | addVariable v, p => .ok (p.addVariable v)
  | fix v x, p => p.fix v x

variable {p q : Problem} {c : Command}

lemma perform_eq (hp : p.Coherent) (c : Command) : c.edit.perform p = settle () p (c.apply p) := by
  cases c with
  | add s =>
    rw [edit, perform_bind, perform_add, apply]
    cases p.add s <;> rfl
  | addVariable v => rfl
  | fix v x => exact perform_fix hp v x

lemma coherent_apply (hp : p.Coherent) (hc : c.Built) (h : c.apply p = .ok q) :
    q.Coherent ∧ q.vartype = p.vartype := by
  cases c with
  | add s =>
    obtain ⟨d, hd, h⟩ := exists_of_bind_ok h
    cases h
    obtain ⟨hw, ht⟩ := Source.build_wellFormed (Source.Built.wellFormed hc) hd
    exact ⟨hp.addConstraint hw ht, rfl⟩
  | addVariable v =>
    obtain rfl := Except.ok.inj h
    exact ⟨hp.addVariable v, rfl⟩
  | fix v x => exact ⟨hp.fix h, (hp.fix_eq_ok h).1⟩

lemma coherent_perform (hp : p.Coherent) (hc : c.Built) :
    (c.edit.perform p).2.Coherent ∧ (c.edit.perform p).2.vartype = p.vartype := by
  rw [perform_eq hp]
  cases h : c.apply p with
  | error fault => exact ⟨hp, rfl⟩
  | ok q => exact coherent_apply hp hc h

lemma coherent_performAll {cs : List Command} (hp : p.Coherent) (h : ∀ c ∈ cs, c.Built) :
    (performAll cs p).Coherent ∧ (performAll cs p).vartype = p.vartype := by
  induction cs generalizing p with
  | nil => exact ⟨hp, rfl⟩
  | cons c cs ih =>
    obtain ⟨hq, ht⟩ := coherent_perform hp (h c (by simp))
    obtain ⟨hall, hall'⟩ := ih hq fun d hd => h d (by simp [hd])
    exact ⟨hall, hall'.trans ht⟩

end Command

/-- Whatever calls are made on an empty problem, and whichever of them fail, the index and the
constraints fit together in the end, and one more call that fails leaves all as it was. -/
theorem performAll_coherent (t : Vartype) (cs : List Command) (h : ∀ c ∈ cs, c.Built) :
    (performAll cs (empty t)).vartype = t ∧ (performAll cs (empty t)).Coherent ∧
    ∀ (c : Command) (fault : Fault), (c.edit.perform (performAll cs (empty t))).1 = .error fault →
      (c.edit.perform (performAll cs (empty t))).2 = performAll cs (empty t) := by
  obtain ⟨hp, ht⟩ := Command.coherent_performAll (coherent_empty t) h
  refine ⟨ht, hp, fun c fault hfault => ?_⟩
  rw [Command.perform_eq hp] at hfault ⊢
  cases happly : c.apply (performAll cs (empty t)) with
  | error fault => rfl
  | ok q =>
    rw [happly] at hfault
    cases hfault

def calls : List Command :=
  [.add (.configurations [[1, 1]] ["a", "b"]),
    .add (.constraint ⟨"Constraint", .binary, ["c"], .ofList [[1]]⟩),
    .fix "a" (-1), .addVariable "z", .fix "a" 1]

theorem performAll_coherent_of_calls : (performAll calls (empty .spin)).Coherent ∧
    (performAll calls (empty .spin)).labels = ["b", "z"] ∧
    ((Command.fix "b" (-1)).edit.perform (performAll calls (empty .spin))).2.labels = ["b", "z"] := by
  have hbuilt : ∀ c ∈ calls, c.Built := by
    have hc : Constraint.ofConfigurations [[1]] ["c"] .binary =
        .ok ⟨"Constraint", .binary, ["c"], .ofList [[1]]⟩ := by cbv
    simp only [calls, List.forall_mem_cons]
    exact ⟨trivial, .configurations hc, trivial, trivial, trivial, List.forall_mem_nil _⟩
  have hlabels : (performAll calls (empty .spin)).labels = ["b", "z"] := by cbv
  obtain ⟨-, hp, hunchanged⟩ := performAll_coherent .spin calls hbuilt
  have hfault : ((Command.fix "b" (-1)).edit.perform (performAll calls (empty .spin))).1 =
      .error (.unsatisfiable "b" (-1) "Constraint (a fixed to 1)") := by cbv
  rw [hunchanged _ _ hfault]
  exact ⟨hp, hlabels, hlabels⟩

end Problem

end QuadraticPenalty
