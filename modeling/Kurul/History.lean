import Mathlib.Data.List.Basic
import Mathlib.Data.Nat.Init

/-!
# Kurul.History

A value that changes by one logged action at a time, and what it was at each version.
-/

namespace History

variable {σ α β : Type} {apply : α → σ → σ} {s : σ} {log : List α} {m n : Nat}

/-- The value after the first `n` actions. -/
def version (apply : α → σ → σ) (s : σ) (log : List α) (n : Nat) : σ :=
  (log.take n).foldl (fun s a => apply a s) s

@[simp] theorem version_zero : version apply s log 0 = s := rfl

/-- What is logged later does not change what was. -/
theorem version_append (more : List α) (h : n ≤ log.length) :
    version apply s (log ++ more) n = version apply s log n := by
  rw [version, List.take_append_of_le_length h, version]

theorem version_succ {a : α} (h : log[n]? = some a) :
    version apply s log (n + 1) = apply a (version apply s log n) := by
  rw [version, List.take_add_one, h, Option.toList_some, List.foldl_append]
  rfl

/-- What no action from one version to another changes is the same at both. -/
theorem version_congr (f : σ → β) (hmn : m ≤ n) (hn : n ≤ log.length)
    (h : ∀ i a, m ≤ i → i < n → log[i]? = some a →
      f (apply a (version apply s log i)) = f (version apply s log i)) :
    f (version apply s log n) = f (version apply s log m) := by
  induction n, hmn using Nat.le_induction with
  | base => rfl
  | succ n hmn ih =>
    have hget : log[n]? = some log[n] := List.getElem?_eq_getElem (by omega)
    rw [version_succ hget, h n _ hmn (by omega) hget]
    exact ih (by omega) fun i a hmi hin => h i a hmi (by omega)

/-- What holds at first and after every action holds at every version. -/
theorem version_inv {P : σ → Prop} (h₀ : P s)
    (h : ∀ i a, log[i]? = some a → P (version apply s log i) →
      P (apply a (version apply s log i))) (n : Nat) : P (version apply s log n) := by
  induction n with
  | zero => exact h₀
  | succ n ih =>
    cases hget : log[n]? with
    | some a => rw [version_succ hget]; exact h n a hget ih
    | none =>
      have hlen : log.length ≤ n := List.getElem?_eq_none_iff.mp hget
      rwa [version, List.take_of_length_le (by omega), ← List.take_of_length_le hlen]

end History
