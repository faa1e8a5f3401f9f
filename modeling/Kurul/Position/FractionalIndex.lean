import Mathlib.Tactic.Linarith
import Mathlib.Tactic.NormNum
import Kurul.JsString

/-!
# Kurul.Position.FractionalIndex

The ordering arithmetic: a new position half way between two neighbours, and when they have come
too close for that.

* `midpoint_gap`           — a midpoint that needs no rebalance keeps `minGap / 2` to either side.
* `rebalancePositions_gap` — respread positions stand `positionGap` apart.
-/

namespace Kurul

def positionGap : Position := 1000
def minGap : Position := 1 / 1000000

/-- The position for a row landing between two neighbours; `none` at the ends of the list. -/
def midpoint (prev next : Option Position) : Position :=
  match prev, next with
  | none, none => positionGap
  | none, some n => n - positionGap
  | some p, none => p + positionGap
  | some p, some n => (p + n) / 2

def needsRebalance (prev next : Option Position) : Bool :=
  match prev, next with
  | some p, some n => n - p < minGap
  | _, _ => false

def rebalancePositions (count : Nat) (gap : Position := positionGap) : List Position :=
  (List.range count).map fun index : Nat => ((index : Position) + 1) * gap

theorem minGap_pos : 0 < minGap / 2 := by norm_num [minGap]

theorem minGap_le_positionGap : minGap / 2 ≤ positionGap := by norm_num [minGap, positionGap]

theorem midpoint_gap {prev next : Option Position} (h : needsRebalance prev next = false) :
    (∀ p, prev = some p → p + minGap / 2 ≤ midpoint prev next) ∧
    (∀ n, next = some n → midpoint prev next + minGap / 2 ≤ n) := by
  have hle := minGap_le_positionGap
  cases prev with
  | none =>
    cases next with
    | none => simp
    | some n =>
      refine ⟨by simp, ?_⟩
      rintro _ ⟨⟩
      simp only [midpoint]
      linarith
  | some p =>
    cases next with
    | none =>
      refine ⟨?_, by simp⟩
      rintro _ ⟨⟩
      simp only [midpoint]
      linarith
    | some n =>
      have hgap : minGap ≤ n - p := by
        simpa [needsRebalance] using h
      constructor
      · rintro _ ⟨⟩
        simp only [midpoint]
        linarith
      · rintro _ ⟨⟩
        simp only [midpoint]
        linarith

@[simp] theorem length_rebalancePositions (count : Nat) :
    (rebalancePositions count).length = count := by
  simp [rebalancePositions]

theorem getElem_rebalancePositions {count i : Nat} (h : i < (rebalancePositions count).length) :
    (rebalancePositions count)[i] = ((i : Position) + 1) * positionGap := by
  simp only [rebalancePositions, List.getElem_map, List.getElem_range]

theorem getD_rebalancePositions {count i : Nat} (h : i < count) :
    (rebalancePositions count).getD i 0 = ((i : Position) + 1) * positionGap := by
  have hi : i < (rebalancePositions count).length := by simpa using h
  rw [List.getD_eq_getElem?_getD, List.getElem?_eq_getElem hi, Option.getD_some,
    getElem_rebalancePositions]

/-- Respread positions stand `positionGap` apart, in order. -/
theorem rebalancePositions_gap {count i j : Nat} (hij : i < j) (hj : j < count) :
    (rebalancePositions count).getD i 0 + positionGap ≤ (rebalancePositions count).getD j 0 := by
  rw [getD_rebalancePositions (hij.trans hj), getD_rebalancePositions hj]
  have hcast : (i : Position) + 1 ≤ (j : Position) := by exact_mod_cast hij
  have hpos : (0 : Position) ≤ positionGap := by norm_num [positionGap]
  nlinarith

theorem rebalancePositions_lt {count i j : Nat} (hij : i < j) (hj : j < count) :
    (rebalancePositions count).getD i 0 < (rebalancePositions count).getD j 0 := by
  have hgap := rebalancePositions_gap hij hj
  have hpos : (0 : Position) < positionGap := by norm_num [positionGap]
  linarith

end Kurul
