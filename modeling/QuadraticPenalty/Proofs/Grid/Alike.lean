import QuadraticPenalty.Grid.Oracle
import QuadraticPenalty.Proofs.Annealing.Digits
import QuadraticPenalty.Proofs.Model.Merging

namespace QuadraticPenalty

open Scalar

variable {α σ : Type} [ExtendedScalar α] {l l' : Landscape α} {c : Chance α σ}

namespace Landscape

structure Alike (l l' : Landscape α) : Prop where
  levels : l.levels = l'.levels
  lows : l.lows = l'.lows
  step : l.step = l'.step
  signs : l.signs = l'.signs
  quality : ∀ energies, l.quality energies = l'.quality energies

lemma Alike.symm (h : l.Alike l') : l'.Alike l :=
  ⟨h.levels.symm, h.lows.symm, h.step.symm, h.signs.symm, fun energies => (h.quality energies).symm⟩

lemma Alike.values (h : l.Alike l') (digits : List ℕ) : l.values digits = l'.values digits := by
  rw [Landscape.values, Landscape.values, h.lows, h.step]

lemma Alike.energies (h : l.Alike l') (digits : List ℕ) : l.energies digits = l'.energies digits := by
  rw [Landscape.energies, Landscape.energies, h.values, h.signs]

lemma Alike.shift (h : l.Alike l') (k : ℕ) (delta : α) (energies : List α) :
    l.shift k delta energies = l'.shift k delta energies := by
  rw [Landscape.shift, Landscape.shift, h.signs]

lemma Alike.qualityAt (h : l.Alike l') (digits : List ℕ) :
    l.qualityAt digits = l'.qualityAt digits := by
  rw [Landscape.qualityAt, Landscape.qualityAt, h.energies, h.quality]

lemma Alike.modelAt (h : l.Alike l') (g : Graph) (digits : List ℕ) (ground : α) :
    l.modelAt g digits ground = l'.modelAt g digits ground := by
  rw [Landscape.modelAt, Landscape.modelAt, h.values]

lemma Alike.pointCount (h : l.Alike l') : l.pointCount = l'.pointCount := by
  rw [Landscape.pointCount, Landscape.pointCount, h.levels]

lemma Alike.keepBest (h : l.Alike l') (best : Option (Candidate α)) (digits : List ℕ) :
    l.keepBest best digits = l'.keepBest best digits := by
  rw [Landscape.keepBest, Landscape.keepBest, h.qualityAt]

lemma Alike.walkSlice (h : l.Alike l') (first left : ℕ) (rest : List ℕ)
    (best : Option (Candidate α)) :
    l.walkSlice first left rest best = l'.walkSlice first left rest best := by
  induction left generalizing rest best with
  | zero => rfl
  | succ left ih =>
    rw [Landscape.walkSlice, Landscape.walkSlice, h.keepBest, h.levels]
    split
    · exact ih _ _
    · rfl

lemma Alike.scanSlice (h : l.Alike l') : l.scanSlice = l'.scanSlice := by
  funext first
  rw [Landscape.scanSlice, Landscape.scanSlice, h.walkSlice, h.levels]

lemma Alike.scan (h : l.Alike l') : l.scan = l'.scan := by
  rw [Landscape.scan, Landscape.scan, h.levels, h.scanSlice, h.qualityAt]

section Order

variable [RightCommutative (HAdd.hAdd : α → α → α)] [RightCommutative (least : α → α → α)]
  {energies : List α}

lemma quality_eq_of_perm
    (ht : ((l.lowest energies).zip l.feasible).Perm ((l'.lowest energies).zip l'.feasible))
    (hgap : l.gap = l'.gap) : l.quality energies = l'.quality energies := by
  have hinside := (ht.filter (·.2)).map (·.1)
  have houtside := (ht.filter (!·.2)).map (·.1)
  have hground := hinside.foldl_eq (f := least) (ExtendedScalar.infinity : α)
  have hspread (ground : α) :=
    hinside.foldl_eq' (f := fun s e => s + (e - ground)) (fun _ _ _ _ _ => right_comm ..) zero
  have hshortfall (ground : α) :=
    houtside.foldl_eq' (f := fun s e => s + greatest (ground + l'.gap - e) zero)
      (fun _ _ _ _ _ => right_comm ..) zero
  have hgaps (ground : α) :=
    houtside.foldl_eq' (f := fun g e => least g (e - ground))
      (fun _ _ _ _ _ => RightCommutative.right_comm ..) (ExtendedScalar.infinity : α)
  rw [quality, quality, hground, hspread, hgap, hshortfall, hgaps]

end Order

end Landscape

namespace Annealing

open Landscape

variable {s : Schedule α} {t : α}

lemma Walk.move_congr (h : l.Alike l') (w : Walk α σ) : w.move l c t = w.move l' c t := by
  simp only [Walk.move, h.levels, h.step, h.shift, h.quality]

lemma Walk.level_congr (h : l.Alike l') (n : ℕ) (w : Walk α σ) :
    w.level l c s t n = w.level l' c s t n := by
  induction n generalizing w with
  | zero => rfl
  | succ n ih =>
    rw [Walk.level, Walk.level, Walk.move_congr h]
    split
    · rfl
    · split
      · rfl
      · exact ih _

lemma Walk.cool_of_alike (h : l.Alike l') {k : ℕ} {w w' : Walk α σ}
    (hw : w.cool l c s k t = some w') : w.cool l' c s k t = some w' := by
  refine Walk.cool.partial_correctness l c s
    (fun k t w w' => w.cool l' c s k t = some w') ?_ k t w w' hw
  intro cool ih k t w w' hw
  rw [Walk.cool, ← Walk.level_congr h]
  split at hw
  · next hot =>
    rw [if_pos hot]
    split at hw
    · exact hw
    · exact ih _ _ _ _ hw
  · next hcold =>
    rw [if_neg hcold]
    exact hw

lemma Walk.cool_congr (h : l.Alike l') (k : ℕ) (w : Walk α σ) :
    w.cool l c s k t = w.cool l' c s k t :=
  Option.ext fun _ => ⟨Walk.cool_of_alike h, Walk.cool_of_alike h.symm⟩

lemma Walk.start_congr (h : l.Alike l') (number : ℕ) (r : Record α) :
    Walk.start l c number r = Walk.start l' c number r := by
  simp only [Walk.start, h.levels, h.energies, h.quality]

lemma restart_congr (h : l.Alike l') (number : ℕ) (r : Record α) :
    restart l c s number r = restart l' c s number r := by
  rw [restart, restart, Walk.start_congr h, Walk.cool_congr h]

lemma restarts_congr (h : l.Alike l') (n number : ℕ) (r : Record α) :
    restarts l c s n number r = restarts l' c s n number r := by
  induction n generalizing number r with
  | zero => rfl
  | succ n ih => simp only [restarts, restart_congr h, ih]

lemma run_congr (h : l.Alike l') : run l c s = run l' c s := by
  rw [run, run, restarts_congr h, Record.initial, Record.initial, h.levels]

end Annealing

namespace Grid

variable {g : Grid α} {r : Request α}

lemma anneal_congr (h : l.Alike l') (s : Schedule α) (nodes : ℕ) (points : Option ℕ) :
    anneal l c s nodes points = anneal l' c s nodes points := by
  rw [anneal, anneal, Annealing.run_congr h]

lemma search_congr (h : l.Alike l') (nodes : ℕ) : g.search c l nodes = g.search c l' nodes := by
  simp only [search, h.pointCount, h.scan, anneal_congr h]

lemma accept_congr (h : l.Alike l') (digits : List ℕ) : accept l r digits = accept l' r digits := by
  simp only [accept, h.qualityAt, h.modelAt]

end Grid

end QuadraticPenalty
