import Kurul.Sql.Run

/-!
# Kurul.Sql.Ends

How a call that runs alone ends: with a value, or with an exception. `p.Ends env w ok err` says what
holds in either case, and has one rule for each way of building a call, so that a service is followed
from its first statement to its last, exceptions included.
-/

namespace Sql

variable {S : Sig} {α β : Type} {env : Env S} {w w' : World S}

/-- A body alone that writes nothing leaves the database as it was. -/
theorem Tx.ReadOnly.run_db {b : Tx S α} (hb : b.ReadOnly) (env : Env S) (w : World S) :
    (b.run env w).2.db = w.db := by
  obtain ⟨ws, hws, hdb⟩ := @Tx.Writes.run S α (fun _ => False) b hb.writes env w
  have hnil : ws = [] := List.eq_nil_iff_forall_not_mem.mpr fun x hx => hws x hx
  rw [hdb, hnil]
  rfl

namespace Call

theorem run_tryCatch (env : Env S) (p : Call S α) (h : S.Error → Call S α) :
    ∀ w, (p.tryCatch h).run env w =
      match p.run env w with
      | (.ok a, w') => (.ok a, w')
      | (.error e, w') => (h e).run env w' := by
  induction p with
  | ret a => intro w; rfl
  | throw e => intro w; rfl
  | stmt s k ih => intro w; exact ih _ _
  | tx l b k ih => intro w; exact ih _ _
  | draw k ih => intro w; exact ih _ _
  | clock k ih => intro w; exact ih _ _
  | emit e k ih => intro w; exact ih _

def Ends (p : Call S α) (env : Env S) (w : World S) (ok : α → World S → Prop)
    (err : S.Error → World S → Prop) : Prop :=
  match p.run env w with
  | (.ok a, w') => ok a w'
  | (.error e, w') => err e w'

variable {p : Call S α} {f : α → Call S β} {ok ok' : α → World S → Prop}
  {err err' : S.Error → World S → Prop}

theorem Ends.of_ok {a : α} (h : p.Ends env w ok err) (hr : p.run env w = (.ok a, w')) : ok a w' := by
  rw [Ends, hr] at h
  exact h

theorem Ends.of_error {e : S.Error} (h : p.Ends env w ok err) (hr : p.run env w = (.error e, w')) :
    err e w' := by
  rw [Ends, hr] at h
  exact h

@[simp] theorem ends_ret {a : α} : (Call.ret a).Ends env w ok err ↔ ok a w := Iff.rfl

@[simp] theorem ends_throw {e : S.Error} : (Call.throw e : Call S α).Ends env w ok err ↔ err e w :=
  Iff.rfl

@[simp] theorem ends_publish {e : S.Event} {ok : Unit → World S → Prop} :
    (publish e).Ends env w ok err ↔ ok () { w with events := w.events ++ [e] } := Iff.rfl

theorem Ends.mono (h : p.Ends env w ok err) (hok : ∀ a w', ok a w' → ok' a w')
    (herr : ∀ e w', err e w' → err' e w') : p.Ends env w ok' err' := by
  unfold Ends at h ⊢
  rcases hr : p.run env w with ⟨r, w'⟩
  rw [hr] at h
  cases r with
  | ok a => exact hok a w' h
  | error e => exact herr e w' h

/-- And the clock is read on. -/
theorem Ends.ticks (h : p.Ends env w ok err) :
    p.Ends env w (fun a w' => w.ticks ≤ w'.ticks ∧ ok a w') (fun e w' => w.ticks ≤ w'.ticks ∧ err e w') := by
  have hle := p.ticks_le_run env w
  unfold Ends at h ⊢
  rcases hr : p.run env w with ⟨r, w'⟩
  rw [hr] at h hle
  cases r with
  | ok a => exact ⟨hle, h⟩
  | error e => exact ⟨hle, h⟩

/-- One call after another. -/
theorem ends_bind {ok : β → World S → Prop} :
    (p >>= f).Ends env w ok err ↔ p.Ends env w (fun a w' => (f a).Ends env w' ok err) err := by
  unfold Ends
  rw [run_bind]
  rcases p.run env w with ⟨r, w'⟩
  cases r <;> rfl

theorem ends_tryCatch {h : S.Error → Call S α} :
    (p.tryCatch h).Ends env w ok err ↔ p.Ends env w ok fun e w' => (h e).Ends env w' ok err := by
  unfold Ends
  rw [run_tryCatch]
  rcases p.run env w with ⟨r, w'⟩
  cases r <;> rfl

/-- Statements that write nothing. -/
theorem ends_readOnly {b : Tx S α} (hb : b.ReadOnly)
    (hok : ∀ a w', b.run env w = (.ok a, w') → w'.db = w.db → ok a w')
    (herr : ∀ e w', w'.db = w.db → err e w') : (auto b).Ends env w ok err := by
  have hdb := hb.run_db env w
  unfold Ends
  rw [run_auto]
  rcases hr : b.run env w with ⟨r, w'⟩
  rw [hr] at hdb
  cases r with
  | ok a => exact hok a w' hr hdb
  | error e => exact herr e w' hdb

theorem auto_exec (s : Stmt S α) : auto (Tx.exec s) = exec s := by
  simp only [Tx.exec, auto, exec]
  congr 1

/-- A statement is done, or refused and nothing is. -/
theorem ends_exec {s : Stmt S α}
    (hok : ∀ e w', s.eval w.db = .ok e → w'.db = w.db.applyAll e.writes → ok e.result w')
    (herr : ∀ e w', w'.db = w.db → err e w') : (exec s).Ends env w ok err := by
  unfold Ends
  simp only [exec, run]
  rcases hr : s.run env w with ⟨r, w'⟩
  cases r with
  | ok b =>
    obtain ⟨e, he, rfl, rfl⟩ := Stmt.run_ok hr
    exact hok e _ he rfl
  | error f => exact herr _ _ (by rw [Stmt.run_error hr])

/-- A transaction commits what its body leaves, or nothing. -/
theorem ends_transaction {l : S.Label} {b : Tx S α}
    (hok : ∀ a w₁ w', b.run env w = (.ok a, w₁) → w'.db = w₁.db → ok a w')
    (herr : ∀ e w', w'.db = w.db → err e w') : (transaction l b).Ends env w ok err := by
  unfold Ends
  rcases hr : (transaction l b).run env w with ⟨r, w'⟩
  cases r with
  | ok a =>
    obtain ⟨w₁, hb, rfl⟩ := run_transaction_ok hr
    exact hok a w₁ _ hb rfl
  | error e => exact herr e w' (run_transaction_error hr)

end Call
end Sql
