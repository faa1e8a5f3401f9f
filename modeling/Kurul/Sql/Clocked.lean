import Kurul.Sql.Ledger

/-!
# Kurul.Sql.Clocked

A call whose clock readings are given beforehand. In a run every session may read any time at any
step; here the `n`-th reading a call makes outside a transaction is the `n`-th entry of a sequence, so
that what holds of its readings, that they never go back say, is a condition on the sequence.

* `Call.clocked`  — the call with its readings from a sequence, and how many it has made.
* `clocked_bind`  — a sequence of calls takes them in turn.
* `clocked_exec`, `clocked_transaction` — what reads no clock is left as it is.
-/

namespace Sql
namespace Call

variable {S : Sig} {α β γ : Type} {times : Nat → S.Time}

def clocked (times : Nat → S.Time) : Call S α → Nat → Call S (α × Nat)
  | .ret a, n => .ret (a, n)
  | .throw e, _ => .throw e
  | .stmt s k, n => .stmt s fun r => (k r).clocked times n
  | .tx l b k, n => .tx l b fun r => (k r).clocked times n
  | .draw k, n => .draw fun i => (k i).clocked times n
  | .clock k, n => (k (times n)).clocked times (n + 1)
  | .emit e k, n => .emit e (k.clocked times n)

@[simp] theorem clocked_ret (a : α) (n : Nat) :
    (Call.ret a : Call S α).clocked times n = .ret (a, n) := rfl

@[simp] theorem clocked_throw (e : S.Error) (n : Nat) :
    (Call.throw e : Call S α).clocked times n = .throw e := rfl

theorem clocked_bind (p : Call S α) (f : α → Call S β) : ∀ n,
    (p >>= f).clocked times n = p.clocked times n >>= fun r => (f r.1).clocked times r.2 := by
  induction p with
  | ret a => intro n; rfl
  | throw e => intro n; rfl
  | stmt s k ih => intro n; simp only [stmt_bind, clocked, ih]
  | tx l b k ih => intro n; simp only [tx_bind, clocked, ih]
  | draw k ih => intro n; simp only [draw_bind, clocked, ih]
  | clock k ih => intro n; simp only [clock_bind, clocked, ih]
  | emit e k ih => intro n; simp only [emit_bind, clocked, ih]

theorem clocked_ofExcept (r : Except S.Error α) (n : Nat) :
    (ofExcept r).clocked times n = ofExcept r >>= fun a => .ret (a, n) := by
  cases r <;> rfl

/-- A statement reads no clock. -/
theorem clocked_exec (s : Stmt S α) (n : Nat) :
    (exec s).clocked times n = exec s >>= fun a => .ret (a, n) := by
  simp only [exec, clocked, stmt_bind, clocked_ofExcept]

/-- A transaction reads its own. -/
theorem clocked_transaction (l : S.Label) (b : Tx S α) (n : Nat) :
    (transaction l b).clocked times n = transaction l b >>= fun a => .ret (a, n) := by
  simp only [transaction, clocked, tx_bind, clocked_ofExcept]

theorem clocked_now (n : Nat) :
    (auto (Tx.now : Tx S S.Time)).clocked times n = .ret (times n, n + 1) := rfl

end Call
end Sql
