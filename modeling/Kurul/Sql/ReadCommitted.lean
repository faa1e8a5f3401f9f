import Mathlib.Logic.Function.Basic
import Kurul.Sql.Call

/-!
# Kurul.Sql.ReadCommitted

Any number of calls interleaved, statement by statement, at READ COMMITTED.

A session inside a transaction keeps its own writes and locks (`Local`). Each of its statements
is evaluated on the rows committed at that moment plus its own writes, and only once every lock
it needs is free; the writes become visible to others at `COMMIT`, all at once, and the locks go
with them. A statement may be refused and a transaction aborted at any point. A statement that
waits for a lock is evaluated when it gets it, so its predicate is re-checked on the row as it is
then.
-/

namespace Sql

variable {S : Sig}

/-- What an open transaction holds: its writes so far, and the locks, one on every row written
among them. -/
structure Local (S : Sig) where
  delta : List S.RowWrite
  locks : List (Lock S.Key)
  covered : ∀ w ∈ delta, w.lock ∈ locks

namespace Local

/-- A transaction that has just begun. -/
def empty : Local S := ⟨[], [], by simp⟩

/-- What one more statement adds. -/
def add {β : Type} (own : Local S) (e : Effect S β) : Local S where
  delta := own.delta ++ e.writes
  locks := own.locks ++ e.needs
  covered := by
    intro w hw
    rw [List.mem_append] at hw ⊢
    refine hw.imp (own.covered w) fun h => ?_
    exact List.mem_append_right _ (List.mem_map_of_mem h)

/-- The rows a transaction sees: those committed, under its own writes. -/
def view (own : Local S) (db : S.Db) : S.Db := db.applyAll own.delta

/-- The transaction has written this row. -/
def Wrote (own : Local S) (k : S.Key) : Prop := k ∈ own.delta.map Write.key

@[simp] theorem delta_empty : (empty : Local S).delta = [] := rfl
@[simp] theorem locks_empty : (empty : Local S).locks = [] := rfl
@[simp] theorem view_empty (db : S.Db) : (empty : Local S).view db = db := rfl
@[simp] theorem delta_add {β : Type} (own : Local S) (e : Effect S β) :
    (own.add e).delta = own.delta ++ e.writes := rfl
@[simp] theorem locks_add {β : Type} (own : Local S) (e : Effect S β) :
    (own.add e).locks = own.locks ++ e.needs := rfl

/-- A statement that writes and locks nothing leaves the transaction as it is. -/
@[simp] theorem add_read {β : Type} (own : Local S) (b : β) : own.add ⟨b, [], []⟩ = own := by
  cases own; simp [add, Effect.needs]

theorem view_add {β : Type} (own : Local S) (e : Effect S β) (db : S.Db) :
    (own.add e).view db = (own.view db).applyAll e.writes :=
  Store.applyAll_append db own.delta e.writes

theorem wrote_add {β : Type} {own : Local S} {e : Effect S β} {k : S.Key} :
    (own.add e).Wrote k ↔ own.Wrote k ∨ k ∈ e.writes.map Write.key := by
  simp [Wrote]

theorem get?_view_of_not_wrote {own : Local S} {k : S.Key} (h : ¬ own.Wrote k) (db : S.Db) :
    (own.view db).get? k = db.get? k :=
  Store.get?_applyAll_of_not_mem h db

/-- A row the transaction wrote is the same whatever the others commit. -/
theorem get?_view_of_wrote {own : Local S} {k : S.Key} (h : own.Wrote k) (db db' : S.Db) :
    (own.view db).get? k = (own.view db').get? k :=
  Store.get?_applyAll_congr h db db'

theorem view_of_nil {own : Local S} (h : own.delta = []) (db : S.Db) : own.view db = db := by
  rw [view, h, Store.applyAll_nil]

theorem not_wrote_of_nil {own : Local S} (h : own.delta = []) (k : S.Key) : ¬ own.Wrote k := by
  simp [Wrote, h]

/-- A row written is a row locked, against every other writer of it. -/
theorem Wrote.locked {own : Local S} {k : S.Key} (h : own.Wrote k) :
    ∃ m, ⟨k, m⟩ ∈ own.locks ∧ m ≠ .keyShare := by
  obtain ⟨w, hw, rfl⟩ := List.mem_map.mp h
  cases w with
  | put v => exact ⟨.noKeyUpdate, own.covered _ hw, by decide⟩
  | del k => exact ⟨.update, own.covered _ hw, by decide⟩

end Local

/-- One client of the database: between transactions, or inside one. -/
inductive Session (S : Sig) : Type 1 where
  | call (c : Call S Unit)
  | inTx {β : Type} (l : S.Label) (body : Tx S β) (k : Except S.Error β → Call S Unit)
      (own : Local S)

/-- The locks a session holds. -/
def Session.locks : Session S → List (Lock S.Key)
  | .call _ => []
  | .inTx _ _ _ own => own.locks

/-- What a session's transaction holds; nothing outside one. -/
def Session.own : Session S → Local S
  | .call _ => .empty
  | .inTx _ _ _ own => own

/-- No lock of the first list conflicts with one of the second. -/
def Compatible {K : Type} (ks ks' : List (Lock K)) : Prop :=
  ∀ a ∈ ks, ∀ b ∈ ks', ¬ a.Conflicts b

theorem Compatible.symm {K : Type} {ks ks' : List (Lock K)} (h : Compatible ks ks') :
    Compatible ks' ks :=
  fun a ha b hb hc => h b hb a ha hc.symm

theorem Compatible.append_left {K : Type} {ks ks₁ ks' : List (Lock K)} (h : Compatible ks ks')
    (h₁ : Compatible ks₁ ks') : Compatible (ks ++ ks₁) ks' := by
  intro a ha b hb
  rcases List.mem_append.mp ha with ha | ha
  · exact h a ha b hb
  · exact h₁ a ha b hb

/-- What an observer of one step sees. -/
inductive Act (S : Sig) where
  | exec (l : S.Label)
  | commit (l : S.Label)
  | publish (e : S.Event)
  | quiet

/-- One step of one session. `free` says which locks the other sessions leave it. -/
inductive Session.Step (free : List (Lock S.Key) → Prop) :
    S.Db → Session S → Act S → S.Db → Session S → Prop where
  /-- A statement outside a transaction commits by itself. -/
  | auto {db : S.Db} {β : Type} {s : Stmt S β} {k : Except S.Error β → Call S Unit}
      {e : Effect S β} (he : s.eval db = .ok e) (hf : free e.needs) :
      Session.Step free db (.call (.stmt s k)) (.exec s.label)
        (db.applyAll e.writes) (.call (k (.ok e.result)))
  | refused {db : S.Db} {β : Type} {s : Stmt S β} {k : Except S.Error β → Call S Unit}
      (f : S.Fault) :
      Session.Step free db (.call (.stmt s k)) .quiet db (.call (k (.error (S.raise f))))
  | draw {db : S.Db} {k : S.Id → Call S Unit} (i : S.Id) :
      Session.Step free db (.call (.draw k)) .quiet db (.call (k i))
  | clock {db : S.Db} {k : S.Time → Call S Unit} (t : S.Time) :
      Session.Step free db (.call (.clock k)) .quiet db (.call (k t))
  | emit {db : S.Db} {e : S.Event} {k : Call S Unit} :
      Session.Step free db (.call (.emit e k)) (.publish e) db (.call k)
  | begin {db : S.Db} {β : Type} {l : S.Label} {b : Tx S β}
      {k : Except S.Error β → Call S Unit} :
      Session.Step free db (.call (.tx l b k)) .quiet db (.inTx l b k .empty)
  | stmt {db : S.Db} {β γ : Type} {l : S.Label} {s : Stmt S γ} {k : γ → Tx S β}
      {c : Except S.Error β → Call S Unit} {own : Local S} {e : Effect S γ}
      (he : s.eval (own.view db) = .ok e) (hf : free e.needs) :
      Session.Step free db (.inTx l (.stmt s k) c own) (.exec s.label)
        db (.inTx l (k e.result) c (own.add e))
  | txDraw {db : S.Db} {β : Type} {l : S.Label} {k : S.Id → Tx S β}
      {c : Except S.Error β → Call S Unit} {own : Local S} (i : S.Id) :
      Session.Step free db (.inTx l (.draw k) c own) .quiet db (.inTx l (k i) c own)
  | txClock {db : S.Db} {β : Type} {l : S.Label} {k : S.Time → Tx S β}
      {c : Except S.Error β → Call S Unit} {own : Local S} (t : S.Time) :
      Session.Step free db (.inTx l (.clock k) c own) .quiet db (.inTx l (k t) c own)
  | commit {db : S.Db} {β : Type} {l : S.Label} {b : β}
      {c : Except S.Error β → Call S Unit} {own : Local S} :
      Session.Step free db (.inTx l (.ret b) c own) (.commit l)
        (own.view db) (.call (c (.ok b)))
  | throw {db : S.Db} {β : Type} {l : S.Label} {e : S.Error}
      {c : Except S.Error β → Call S Unit} {own : Local S} :
      Session.Step free db (.inTx l (.throw e) c own) .quiet db (.call (c (.error e)))
  /-- A refused statement, a deadlock, a lost connection or a timeout: at any point. -/
  | abort {db : S.Db} {β : Type} {l : S.Label} {b : Tx S β}
      {c : Except S.Error β → Call S Unit} {own : Local S} (f : S.Fault) :
      Session.Step free db (.inTx l b c own) .quiet db (.call (c (.error (S.raise f))))

/-- The committed rows and every session. -/
structure Config (S : Sig) (ι : Type) where
  db : S.Db
  pool : ι → Session S

variable {ι : Type} [DecidableEq ι]

/-- No session but `i` holds a lock in the way of these. -/
def Config.Free (σ : Config S ι) (i : ι) (ks : List (Lock S.Key)) : Prop :=
  ∀ j, j ≠ i → Compatible ks (σ.pool j).locks

/-- One step of the whole system: session `i` takes it. -/
def Config.Step (σ : Config S ι) (i : ι) (a : Act S) (σ' : Config S ι) : Prop :=
  ∃ s', Session.Step (σ.Free i) σ.db (σ.pool i) a σ'.db s' ∧
    σ'.pool = Function.update σ.pool i s'

/-- A run whose steps all meet a condition on the session, the act and the state before it. -/
inductive Run (Ok : Config S ι → ι → Act S → Prop) (σ₀ : Config S ι) : Config S ι → Prop where
  | refl : Run Ok σ₀ σ₀
  | step {σ σ' : Config S ι} {i : ι} {a : Act S} (h : Run Ok σ₀ σ) (hok : Ok σ i a)
      (hs : σ.Step i a σ') : Run Ok σ₀ σ'

/-- Calls that have not started yet, over the committed rows. -/
def Config.start (db : S.Db) (calls : ι → Call S Unit) : Config S ι :=
  ⟨db, fun i => .call (calls i)⟩

end Sql
