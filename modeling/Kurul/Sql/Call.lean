import Kurul.Sql.Store

/-!
# Kurul.Sql.Call

Programs that talk to a database, as trees of statements.

* `Stmt`  — one SQL statement: what it answers, writes and locks, as a function of what it sees.
* `Tx`    — the statements of one transaction, up to its `COMMIT` or the exception that rolls
  it back. No transaction opens inside another.
* `Call`  — a whole service call: statements that commit by themselves, transactions, events
  published outside them, and exceptions that may be caught.

The same tree is run alone in `Kurul.Sql.Run` and interleaved in `Kurul.Sql.ReadCommitted`.
-/

namespace Sql

/-- What a program is written over. -/
structure Sig where
  /-- Primary keys. -/
  Key : Type
  Row : Type
  keyed : Keyed Key Row
  decKey : DecidableEq Key
  /-- What the database answers when it refuses a statement. -/
  Fault : Type
  /-- What the program throws. -/
  Error : Type
  /-- A refused statement, as the exception its caller sees. -/
  raise : Fault → Error
  /-- What a program publishes. -/
  Event : Type
  /-- Names of statements and transactions. -/
  Label : Type
  /-- Generated identifiers. -/
  Id : Type
  Time : Type

attribute [instance] Sig.keyed Sig.decKey

namespace Sig

variable (S : Sig)

abbrev Db : Type := Store S.Row
abbrev RowWrite : Type := Write S.Key S.Row

end Sig

/-- How strongly a row is locked. Inserting a reference takes `keyShare` on the row it names, an
`UPDATE` takes `noKeyUpdate`, a `DELETE` and `SELECT … FOR UPDATE` take `update`. -/
inductive LockMode where
  | keyShare
  | noKeyUpdate
  | update
  deriving DecidableEq

/-- Two sessions may not hold both on one row. -/
def LockMode.conflicts : LockMode → LockMode → Bool
  | .keyShare, .update => true
  | .update, .keyShare => true
  | .keyShare, _ => false
  | _, .keyShare => false
  | _, _ => true

theorem LockMode.conflicts_comm (a b : LockMode) : a.conflicts b = b.conflicts a := by
  cases a <;> cases b <;> rfl

structure Lock (K : Type) where
  key : K
  mode : LockMode

def Lock.Conflicts {K : Type} (a b : Lock K) : Prop :=
  a.key = b.key ∧ a.mode.conflicts b.mode = true

theorem Lock.Conflicts.symm {K : Type} {a b : Lock K} (h : a.Conflicts b) : b.Conflicts a :=
  ⟨h.1.symm, by rw [LockMode.conflicts_comm]; exact h.2⟩

/-- The lock a write takes on its row. -/
def Write.lock {K V : Type} [Keyed K V] : Write K V → Lock K
  | .put v => ⟨Keyed.key v, .noKeyUpdate⟩
  | .del k => ⟨k, .update⟩

@[simp] theorem Write.lock_key {K V : Type} [Keyed K V] (w : Write K V) : w.lock.key = w.key := by
  cases w <;> rfl

/-- What one statement does. -/
structure Effect (S : Sig) (β : Type) where
  result : β
  writes : List S.RowWrite
  /-- Locks taken beyond those on the rows written. -/
  locks : List (Lock S.Key)

/-- Every lock a statement needs: its own, and one on each row it writes. -/
def Effect.needs {S : Sig} {β : Type} (e : Effect S β) : List (Lock S.Key) :=
  e.locks ++ e.writes.map Write.lock

structure Stmt (S : Sig) (β : Type) where
  label : S.Label
  eval : S.Db → Except S.Fault (Effect S β)

/-- A transaction body. -/
inductive Tx (S : Sig) (α : Type) : Type 1 where
  | ret (a : α)
  | throw (e : S.Error)
  | stmt {β : Type} (s : Stmt S β) (k : β → Tx S α)
  | draw (k : S.Id → Tx S α)
  | clock (k : S.Time → Tx S α)

/-- A service call. -/
inductive Call (S : Sig) (α : Type) : Type 1 where
  | ret (a : α)
  | throw (e : S.Error)
  | stmt {β : Type} (s : Stmt S β) (k : Except S.Error β → Call S α)
  | tx {β : Type} (l : S.Label) (body : Tx S β) (k : Except S.Error β → Call S α)
  | draw (k : S.Id → Call S α)
  | clock (k : S.Time → Call S α)
  | emit (e : S.Event) (k : Call S α)

namespace Tx

variable {S : Sig} {α β γ : Type}

protected def bind : Tx S α → (α → Tx S β) → Tx S β
  | .ret a, f => f a
  | .throw e, _ => .throw e
  | .stmt s k, f => .stmt s fun b => (k b).bind f
  | .draw k, f => .draw fun i => (k i).bind f
  | .clock k, f => .clock fun t => (k t).bind f

instance : Monad (Tx S) where
  pure := .ret
  bind := Tx.bind

/-- Send one statement. -/
def exec (s : Stmt S α) : Tx S α := .stmt s .ret

/-- Generate an identifier. -/
def fresh : Tx S S.Id := .draw .ret

/-- Read the clock. -/
def now : Tx S S.Time := .clock .ret

@[simp] theorem pure_eq (a : α) : (pure a : Tx S α) = .ret a := rfl
@[simp] theorem ret_bind (a : α) (f : α → Tx S β) : (Tx.ret a >>= f) = f a := rfl
@[simp] theorem throw_bind (e : S.Error) (f : α → Tx S β) :
    (Tx.throw e >>= f) = Tx.throw e := rfl
@[simp] theorem stmt_bind (s : Stmt S γ) (k : γ → Tx S α) (f : α → Tx S β) :
    (Tx.stmt s k >>= f) = Tx.stmt s fun b => k b >>= f := rfl
@[simp] theorem draw_bind (k : S.Id → Tx S α) (f : α → Tx S β) :
    (Tx.draw k >>= f) = Tx.draw fun i => k i >>= f := rfl
@[simp] theorem clock_bind (k : S.Time → Tx S α) (f : α → Tx S β) :
    (Tx.clock k >>= f) = Tx.clock fun t => k t >>= f := rfl

theorem bind_ret (p : Tx S α) : (p >>= fun a => Tx.ret a) = p := by
  induction p with
  | ret a => rfl
  | throw e => rfl
  | stmt s k ih => simp only [stmt_bind, ih]
  | draw k ih => simp only [draw_bind, ih]
  | clock k ih => simp only [clock_bind, ih]

theorem bind_assoc (p : Tx S α) (f : α → Tx S β) (g : β → Tx S γ) :
    (p >>= f >>= g) = p >>= fun a => f a >>= g := by
  induction p with
  | ret a => rfl
  | throw e => rfl
  | stmt s k ih => simp only [stmt_bind, ih]
  | draw k ih => simp only [draw_bind, ih]
  | clock k ih => simp only [clock_bind, ih]

instance : LawfulMonad (Tx S) :=
  LawfulMonad.mk' (Tx S) bind_ret (fun _ _ => rfl) bind_assoc

@[simp] theorem map_eq (f : α → β) (p : Tx S α) : (f <$> p) = p >>= fun a => .ret (f a) :=
  (bind_pure_comp f p).symm

/-- No statement of the body writes or locks anything. -/
def ReadOnly : Tx S α → Prop
  | .ret _ => True
  | .throw _ => True
  | .stmt s k => (∀ db e, s.eval db = .ok e → e.writes = [] ∧ e.locks = []) ∧ ∀ b, (k b).ReadOnly
  | .draw k => ∀ i, (k i).ReadOnly
  | .clock k => ∀ t, (k t).ReadOnly

theorem ReadOnly.bind {p : Tx S α} {f : α → Tx S β} (hp : p.ReadOnly) (hf : ∀ a, (f a).ReadOnly) :
    (p >>= f).ReadOnly := by
  induction p with
  | ret a => exact hf a
  | throw e => trivial
  | stmt s k ih => exact ⟨hp.1, fun b => ih b (hp.2 b)⟩
  | draw k ih => exact fun i => ih i (hp i)
  | clock k ih => exact fun t => ih t (hp t)

/-- Every write of every statement of the body passes the test. -/
def Writes (p : S.RowWrite → Prop) : Tx S α → Prop
  | .ret _ => True
  | .throw _ => True
  | .stmt s k => (∀ db e, s.eval db = .ok e → ∀ w ∈ e.writes, p w) ∧ ∀ b, (k b).Writes p
  | .draw k => ∀ i, (k i).Writes p
  | .clock k => ∀ t, (k t).Writes p

theorem Writes.bind {p : S.RowWrite → Prop} {b : Tx S α} {f : α → Tx S β} (hb : b.Writes p)
    (hf : ∀ a, (f a).Writes p) : (b >>= f).Writes p := by
  induction b with
  | ret a => exact hf a
  | throw e => trivial
  | stmt s k ih => exact ⟨hb.1, fun b => ih b (hb.2 b)⟩
  | draw k ih => exact fun i => ih i (hb i)
  | clock k ih => exact fun t => ih t (hb t)

theorem ReadOnly.writes {p : S.RowWrite → Prop} {b : Tx S α} (hb : b.ReadOnly) : b.Writes p := by
  induction b with
  | ret a => trivial
  | throw e => trivial
  | stmt s k ih =>
    refine ⟨fun db e he w hw => ?_, fun b => ih b (hb.2 b)⟩
    rw [(hb.1 db e he).1] at hw
    cases hw
  | draw k ih => exact fun i => ih i (hb i)
  | clock k ih => exact fun t => ih t (hb t)

end Tx

namespace Call

variable {S : Sig} {α β γ : Type}

protected def bind : Call S α → (α → Call S β) → Call S β
  | .ret a, f => f a
  | .throw e, _ => .throw e
  | .stmt s k, f => .stmt s fun r => (k r).bind f
  | .tx l b k, f => .tx l b fun r => (k r).bind f
  | .draw k, f => .draw fun i => (k i).bind f
  | .clock k, f => .clock fun t => (k t).bind f
  | .emit e k, f => .emit e (k.bind f)

instance : Monad (Call S) where
  pure := .ret
  bind := Call.bind

/-- `try { p } catch (e) { h(e) }`. -/
def tryCatch : Call S α → (S.Error → Call S α) → Call S α
  | .ret a, _ => .ret a
  | .throw e, h => h e
  | .stmt s k, h => .stmt s fun r => (k r).tryCatch h
  | .tx l b k, h => .tx l b fun r => (k r).tryCatch h
  | .draw k, h => .draw fun i => (k i).tryCatch h
  | .clock k, h => .clock fun t => (k t).tryCatch h
  | .emit e k, h => .emit e (k.tryCatch h)

/-- Rethrow an exception, or go on with the value. -/
def ofExcept : Except S.Error α → Call S α
  | .ok a => .ret a
  | .error e => .throw e

/-- One statement outside any transaction: it commits by itself. -/
def exec (s : Stmt S α) : Call S α := .stmt s ofExcept

/-- A transaction: committed if its body returns, rolled back if it throws. -/
def transaction (l : S.Label) (body : Tx S α) : Call S α := .tx l body ofExcept

/-- Publish an event. -/
def publish (e : S.Event) : Call S Unit := .emit e (.ret ())

/-- The statements of a body sent outside any transaction, each committing by itself. -/
def auto : Tx S α → Call S α
  | .ret a => .ret a
  | .throw e => .throw e
  | .stmt s k => .stmt s fun
    | .ok b => auto (k b)
    | .error e => .throw e
  | .draw k => .draw fun i => auto (k i)
  | .clock k => .clock fun t => auto (k t)

/-- A helper written for any client also runs outside a transaction. -/
instance : MonadLift (Tx S) (Call S) := ⟨auto⟩

@[simp] theorem pure_eq (a : α) : (pure a : Call S α) = .ret a := rfl
@[simp] theorem ret_bind (a : α) (f : α → Call S β) : (Call.ret a >>= f) = f a := rfl
@[simp] theorem throw_bind (e : S.Error) (f : α → Call S β) :
    (Call.throw e >>= f) = Call.throw e := rfl
@[simp] theorem stmt_bind (s : Stmt S γ) (k : Except S.Error γ → Call S α)
    (f : α → Call S β) : (Call.stmt s k >>= f) = Call.stmt s fun r => k r >>= f := rfl
@[simp] theorem tx_bind (l : S.Label) (b : Tx S γ) (k : Except S.Error γ → Call S α)
    (f : α → Call S β) : (Call.tx l b k >>= f) = Call.tx l b fun r => k r >>= f := rfl
@[simp] theorem draw_bind (k : S.Id → Call S α) (f : α → Call S β) :
    (Call.draw k >>= f) = Call.draw fun i => k i >>= f := rfl
@[simp] theorem clock_bind (k : S.Time → Call S α) (f : α → Call S β) :
    (Call.clock k >>= f) = Call.clock fun t => k t >>= f := rfl
@[simp] theorem emit_bind (e : S.Event) (k : Call S α) (f : α → Call S β) :
    (Call.emit e k >>= f) = Call.emit e (k >>= f) := rfl

theorem bind_ret (p : Call S α) : (p >>= fun a => Call.ret a) = p := by
  induction p with
  | ret a => rfl
  | throw e => rfl
  | stmt s k ih => simp only [stmt_bind, ih]
  | tx l b k ih => simp only [tx_bind, ih]
  | draw k ih => simp only [draw_bind, ih]
  | clock k ih => simp only [clock_bind, ih]
  | emit e k ih => simp only [emit_bind, ih]

theorem bind_assoc (p : Call S α) (f : α → Call S β) (g : β → Call S γ) :
    (p >>= f >>= g) = p >>= fun a => f a >>= g := by
  induction p with
  | ret a => rfl
  | throw e => rfl
  | stmt s k ih => simp only [stmt_bind, ih]
  | tx l b k ih => simp only [tx_bind, ih]
  | draw k ih => simp only [draw_bind, ih]
  | clock k ih => simp only [clock_bind, ih]
  | emit e k ih => simp only [emit_bind, ih]

instance : LawfulMonad (Call S) :=
  LawfulMonad.mk' (Call S) bind_ret (fun _ _ => rfl) bind_assoc

@[simp] theorem map_eq (f : α → β) (p : Call S α) : (f <$> p) = p >>= fun a => .ret (f a) :=
  (bind_pure_comp f p).symm

theorem auto_bind (p : Tx S α) (f : α → Tx S β) :
    auto (p >>= f) = auto p >>= fun a => auto (f a) := by
  induction p with
  | ret a => rfl
  | throw e => rfl
  | stmt s k ih =>
    simp only [Tx.stmt_bind, auto, stmt_bind]
    congr 1; funext r
    cases r with
    | ok b => exact ih b
    | error e => rfl
  | draw k ih => simp only [Tx.draw_bind, auto, draw_bind, ih]
  | clock k ih => simp only [Tx.clock_bind, auto, clock_bind, ih]

end Call
end Sql
