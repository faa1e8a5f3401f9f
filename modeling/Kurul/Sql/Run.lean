import Kurul.Sql.Call

/-!
# Kurul.Sql.Run

A call that runs alone. `Call.run` feeds a call its identifiers, clock readings and faults from
an environment, applies each statement's writes at once, and undoes them when a transaction
throws or its `COMMIT` fails.

* `run_bind_ok`            — inversion: a sequence that returns has a returning first half.
* `run_transaction_error`  — a transaction that throws leaves the database as it found it.
-/

namespace Sql

/-- What a run draws from outside. `fails n` is the fault the `n`-th statement meets, if any. -/
structure Env (S : Sig) where
  id : Nat → S.Id
  time : Nat → S.Time
  fails : Nat → Option S.Fault

/-- A database, and how much of the environment has been used up. -/
structure World (S : Sig) where
  db : S.Db
  ids : Nat
  ticks : Nat
  stmts : Nat
  events : List S.Event

/-- A world about to run its first statement. -/
def World.start {S : Sig} (db : S.Db) : World S := ⟨db, 0, 0, 0, []⟩

variable {S : Sig} {α β : Type}

/-- One statement, alone. -/
def Stmt.run (env : Env S) (s : Stmt S β) (w : World S) : Except S.Fault β × World S :=
  match env.fails w.stmts with
  | some f => (.error f, { w with stmts := w.stmts + 1 })
  | none =>
    match s.eval w.db with
    | .error f => (.error f, { w with stmts := w.stmts + 1 })
    | .ok e => (.ok e.result, { w with db := w.db.applyAll e.writes, stmts := w.stmts + 1 })

theorem Stmt.run_ok {env : Env S} {s : Stmt S β} {w w' : World S} {b : β}
    (h : s.run env w = (.ok b, w')) :
    ∃ e, s.eval w.db = .ok e ∧ b = e.result ∧
      w' = { w with db := w.db.applyAll e.writes, stmts := w.stmts + 1 } := by
  unfold Stmt.run at h
  split at h
  · simp at h
  · split at h
    · simp at h
    · rename_i e he
      simp only [Prod.mk.injEq, Except.ok.injEq] at h
      exact ⟨e, he, h.1.symm, h.2.symm⟩

/-- A refused statement changes no row. -/
theorem Stmt.run_error {env : Env S} {s : Stmt S β} {w w' : World S} {f : S.Fault}
    (h : s.run env w = (.error f, w')) : w' = { w with stmts := w.stmts + 1 } := by
  unfold Stmt.run at h
  split at h
  · simp only [Prod.mk.injEq] at h; exact h.2.symm
  · split at h
    · simp only [Prod.mk.injEq] at h; exact h.2.symm
    · simp at h

theorem Stmt.ticks_run (env : Env S) (s : Stmt S β) (w : World S) :
    (s.run env w).2.ticks = w.ticks := by
  unfold Stmt.run
  split
  · rfl
  · split <;> rfl

namespace Tx

def run (env : Env S) : Tx S α → World S → Except S.Error α × World S
  | .ret a, w => (.ok a, w)
  | .throw e, w => (.error e, w)
  | .stmt s k, w =>
    match s.run env w with
    | (.ok b, w') => (k b).run env w'
    | (.error f, w') => (.error (S.raise f), w')
  | .draw k, w => (k (env.id w.ids)).run env { w with ids := w.ids + 1 }
  | .clock k, w => (k (env.time w.ticks)).run env { w with ticks := w.ticks + 1 }

@[simp] theorem run_ret (env : Env S) (a : α) (w : World S) :
    (Tx.ret a : Tx S α).run env w = (.ok a, w) := rfl
@[simp] theorem run_throw (env : Env S) (e : S.Error) (w : World S) :
    (Tx.throw e : Tx S α).run env w = (.error e, w) := rfl

theorem run_bind (env : Env S) (p : Tx S α) (f : α → Tx S β) :
    ∀ w, (p >>= f).run env w =
      match p.run env w with
      | (.ok a, w') => (f a).run env w'
      | (.error e, w') => (.error e, w') := by
  induction p with
  | ret a => intro w; rfl
  | throw e => intro w; rfl
  | stmt s k ih =>
    intro w
    simp only [stmt_bind, run]
    rcases h : s.run env w with ⟨r, w'⟩
    cases r with
    | ok b => exact ih b w'
    | error f => rfl
  | draw k ih => intro w; exact ih _ _
  | clock k ih => intro w; exact ih _ _

theorem run_bind_ok {env : Env S} {p : Tx S α} {f : α → Tx S β} {w w' : World S} {b : β}
    (h : (p >>= f).run env w = (.ok b, w')) :
    ∃ a w₁, p.run env w = (.ok a, w₁) ∧ (f a).run env w₁ = (.ok b, w') := by
  rw [run_bind] at h
  rcases hp : p.run env w with ⟨r, w₁⟩
  rw [hp] at h
  cases r with
  | ok a => exact ⟨a, w₁, rfl, h⟩
  | error e => simp at h

theorem run_exec_ok {env : Env S} {s : Stmt S β} {w w' : World S} {b : β}
    (h : (exec s).run env w = (.ok b, w')) :
    ∃ e, s.eval w.db = .ok e ∧ b = e.result ∧
      w' = { w with db := w.db.applyAll e.writes, stmts := w.stmts + 1 } := by
  simp only [exec, run] at h
  rcases hs : s.run env w with ⟨r, w₁⟩
  rw [hs] at h
  cases r with
  | ok c =>
    simp only [Prod.mk.injEq, Except.ok.injEq] at h
    obtain ⟨rfl, rfl⟩ := h
    exact Stmt.run_ok hs
  | error f => simp at h

/-- A body alone leaves the database as its writes make it. -/
theorem Writes.run {p : S.RowWrite → Prop} {b : Tx S α} (hb : b.Writes p) (env : Env S) :
    ∀ w, ∃ ws : List S.RowWrite, (∀ x ∈ ws, p x) ∧ (b.run env w).2.db = w.db.applyAll ws := by
  induction b with
  | ret a => intro w; exact ⟨[], by simp, rfl⟩
  | throw e => intro w; exact ⟨[], by simp, rfl⟩
  | stmt s k ih =>
    intro w
    simp only [Tx.run]
    rcases h : s.run env w with ⟨r, w'⟩
    cases r with
    | ok b =>
      obtain ⟨e, he, rfl, rfl⟩ := Stmt.run_ok h
      obtain ⟨ws, hws, hdb⟩ := ih e.result (hb.2 _) { w with
        db := w.db.applyAll e.writes, stmts := w.stmts + 1 }
      refine ⟨e.writes ++ ws, fun x hx => ?_, ?_⟩
      · rcases List.mem_append.mp hx with hx | hx
        · exact hb.1 _ e he x hx
        · exact hws x hx
      · rw [Store.applyAll_append]
        exact hdb
    | error f =>
      rw [Stmt.run_error h]
      exact ⟨[], by simp, rfl⟩
  | draw k ih => intro w; exact ih _ (hb _) _
  | clock k ih => intro w; exact ih _ (hb _) _

/-- What the statements of a body write, in order, up to the one that is refused. -/
def trace (env : Env S) : Tx S α → World S → List S.RowWrite
  | .ret _, _ => []
  | .throw _, _ => []
  | .stmt s k, w =>
    match env.fails w.stmts, s.eval w.db with
    | none, .ok e =>
      e.writes ++ (k e.result).trace env
        { w with db := w.db.applyAll e.writes, stmts := w.stmts + 1 }
    | _, _ => []
  | .draw k, w => (k (env.id w.ids)).trace env { w with ids := w.ids + 1 }
  | .clock k, w => (k (env.time w.ticks)).trace env { w with ticks := w.ticks + 1 }

/-- The second half writes after the first, if the first gets to its end. -/
theorem trace_bind (env : Env S) (p : Tx S α) (f : α → Tx S β) :
    ∀ w, (p >>= f).trace env w = p.trace env w ++
      match p.run env w with
      | (.ok a, w') => (f a).trace env w'
      | (.error _, _) => [] := by
  induction p with
  | ret a => intro w; rfl
  | throw e => intro w; rfl
  | stmt s k ih =>
    intro w
    simp only [stmt_bind, trace, run, Stmt.run]
    cases env.fails w.stmts with
    | some f => rfl
    | none =>
      cases s.eval w.db with
      | error f => rfl
      | ok e => simp only [ih, List.append_assoc]
  | draw k ih => intro w; exact ih _ _
  | clock k ih => intro w; exact ih _ _

theorem trace_bind_ok {env : Env S} {p : Tx S α} {f : α → Tx S β} {w w₁ : World S} {a : α}
    (h : p.run env w = (.ok a, w₁)) : (p >>= f).trace env w = p.trace env w ++ (f a).trace env w₁ := by
  rw [trace_bind, h]

theorem trace_exec_ok {env : Env S} {s : Stmt S β} {w w' : World S} {b : β}
    (h : (exec s).run env w = (.ok b, w')) {e : Effect S β} (he : s.eval w.db = .ok e) :
    (exec s).trace env w = e.writes := by
  simp only [exec, run, Stmt.run] at h
  simp only [exec, trace]
  cases hf : env.fails w.stmts with
  | some f => simp [hf] at h
  | none => simp [he]

/-- The body writes these rows, in this order: a part of them where it is cut short, all of them
where it gets to its end. -/
def Traces (p : Tx S α) (ws : List S.RowWrite) : Prop :=
  ∀ env w, p.trace env w <+: ws ∧ ∀ a w', p.run env w = (.ok a, w') → p.trace env w = ws

theorem Traces.ret (a : α) : (Tx.ret a : Tx S α).Traces [] :=
  fun _ _ => ⟨List.prefix_rfl, fun _ _ _ => rfl⟩

theorem Traces.throw (e : S.Error) (ws : List S.RowWrite) : (Tx.throw e : Tx S α).Traces ws :=
  fun _ _ => ⟨List.nil_prefix, fun a w' h => by simp at h⟩

theorem Traces.bind {p : Tx S α} {f : α → Tx S β} {ws ws' : List S.RowWrite} (hp : p.Traces ws)
    (hf : ∀ a, (f a).Traces ws') : (p >>= f).Traces (ws ++ ws') := by
  intro env w
  obtain ⟨hpre, hall⟩ := hp env w
  rw [trace_bind]
  constructor
  · rcases hr : p.run env w with ⟨r, w₁⟩
    cases r with
    | ok a =>
      rw [hall a w₁ hr]
      exact List.prefix_append_right_inj ws |>.mpr (hf a env w₁).1
    | error e =>
      rw [List.append_nil]
      exact hpre.trans (List.prefix_append ws ws')
  · intro b w' h
    obtain ⟨a, w₁, h₁, h₂⟩ := run_bind_ok h
    rw [h₁, hall a w₁ h₁]
    exact congrArg (ws ++ ·) ((hf a env w₁).2 b w' h₂)

theorem Traces.exec {s : Stmt S α} {ws : List S.RowWrite}
    (h : ∀ db e, s.eval db = .ok e → e.writes = ws) : (exec s).Traces ws := by
  intro env w
  simp only [Tx.exec, trace]
  cases hf : env.fails w.stmts with
  | some f => exact ⟨List.nil_prefix, fun a w' hr => by simp [run, Stmt.run, hf] at hr⟩
  | none =>
    cases he : s.eval w.db with
    | error f => exact ⟨List.nil_prefix, fun a w' hr => by simp [run, Stmt.run, hf, he] at hr⟩
    | ok e => simp [h _ _ he]

/-- Nothing is published from inside a transaction. -/
theorem run_events (env : Env S) (p : Tx S α) : ∀ w, (p.run env w).2.events = w.events := by
  induction p with
  | ret a => intro w; rfl
  | throw e => intro w; rfl
  | stmt s k ih =>
    intro w
    have hs : (s.run env w).2.events = w.events := by
      unfold Stmt.run
      split
      · rfl
      · split <;> rfl
    simp only [run]
    rcases h : s.run env w with ⟨r, w'⟩
    rw [h] at hs
    cases r with
    | ok b => exact (ih b w').trans hs
    | error f => exact hs
  | draw k ih => intro w; exact ih _ _
  | clock k ih => intro w; exact ih _ _

/-- The clock is read on. -/
theorem ticks_le_run (env : Env S) (p : Tx S α) : ∀ w, w.ticks ≤ (p.run env w).2.ticks := by
  induction p with
  | ret a => intro w; exact Nat.le_refl _
  | throw e => intro w; exact Nat.le_refl _
  | stmt s k ih =>
    intro w
    have hs := s.ticks_run env w
    simp only [run]
    rcases h : s.run env w with ⟨r, w'⟩
    rw [h] at hs
    cases r with
    | ok b => exact hs ▸ ih b w'
    | error f => exact Nat.le_of_eq hs.symm
  | draw k ih => intro w; exact ih (env.id w.ids) { w with ids := w.ids + 1 }
  | clock k ih => intro w; exact Nat.le_trans (Nat.le_succ _) (ih (env.time w.ticks) { w with ticks := w.ticks + 1 })

end Tx

namespace Call

/-- How a transaction ends: its `COMMIT` is one more statement, and may fail. -/
def close (env : Env S) (db₀ : S.Db) : Except S.Error β × World S → Except S.Error β × World S
  | (.error e, w) => (.error e, { w with db := db₀ })
  | (.ok b, w) =>
    match env.fails w.stmts with
    | some f => (.error (S.raise f), { w with db := db₀, stmts := w.stmts + 1 })
    | none => (.ok b, { w with stmts := w.stmts + 1 })

def run (env : Env S) : Call S α → World S → Except S.Error α × World S
  | .ret a, w => (.ok a, w)
  | .throw e, w => (.error e, w)
  | .stmt s k, w =>
    match s.run env w with
    | (r, w') => (k (r.mapError S.raise)).run env w'
  | .tx _ b k, w =>
    match close env w.db (b.run env w) with
    | (r, w') => (k r).run env w'
  | .draw k, w => (k (env.id w.ids)).run env { w with ids := w.ids + 1 }
  | .clock k, w => (k (env.time w.ticks)).run env { w with ticks := w.ticks + 1 }
  | .emit e k, w => k.run env { w with events := w.events ++ [e] }

@[simp] theorem run_ret (env : Env S) (a : α) (w : World S) :
    (Call.ret a : Call S α).run env w = (.ok a, w) := rfl
@[simp] theorem run_throw (env : Env S) (e : S.Error) (w : World S) :
    (Call.throw e : Call S α).run env w = (.error e, w) := rfl
@[simp] theorem run_publish (env : Env S) (e : S.Event) (w : World S) :
    (publish e).run env w = (.ok (), { w with events := w.events ++ [e] }) := rfl

theorem run_bind (env : Env S) (p : Call S α) (f : α → Call S β) :
    ∀ w, (p >>= f).run env w =
      match p.run env w with
      | (.ok a, w') => (f a).run env w'
      | (.error e, w') => (.error e, w') := by
  induction p with
  | ret a => intro w; rfl
  | throw e => intro w; rfl
  | stmt s k ih => intro w; exact ih _ _
  | tx l b k ih => intro w; exact ih _ _
  | draw k ih => intro w; exact ih _ _
  | clock k ih => intro w; exact ih _ _
  | emit e k ih => intro w; exact ih _

theorem run_bind_ok {env : Env S} {p : Call S α} {f : α → Call S β} {w w' : World S} {b : β}
    (h : (p >>= f).run env w = (.ok b, w')) :
    ∃ a w₁, p.run env w = (.ok a, w₁) ∧ (f a).run env w₁ = (.ok b, w') := by
  rw [run_bind] at h
  rcases hp : p.run env w with ⟨r, w₁⟩
  rw [hp] at h
  cases r with
  | ok a => exact ⟨a, w₁, rfl, h⟩
  | error e => simp at h

theorem ticks_close (env : Env S) (db₀ : S.Db) (r : Except S.Error β × World S) :
    (close env db₀ r).2.ticks = r.2.ticks := by
  obtain ⟨r, w⟩ := r
  cases r with
  | error e => rfl
  | ok b =>
    simp only [close]
    split <;> rfl

theorem ticks_le_run (env : Env S) (p : Call S α) : ∀ w, w.ticks ≤ (p.run env w).2.ticks := by
  induction p with
  | ret a => intro w; exact Nat.le_refl _
  | throw e => intro w; exact Nat.le_refl _
  | stmt s k ih =>
    intro w
    have hs := s.ticks_run env w
    simp only [run]
    rcases h : s.run env w with ⟨r, w'⟩
    rw [h] at hs
    exact hs ▸ ih _ w'
  | tx l b k ih =>
    intro w
    have hclose := ticks_close env w.db (b.run env w)
    simp only [run]
    rcases h : close env w.db (b.run env w) with ⟨r, w'⟩
    rw [h] at hclose
    exact Nat.le_trans (hclose ▸ b.ticks_le_run env w) (ih r w')
  | draw k ih => intro w; exact ih (env.id w.ids) { w with ids := w.ids + 1 }
  | clock k ih => intro w; exact Nat.le_trans (Nat.le_succ _) (ih (env.time w.ticks) { w with ticks := w.ticks + 1 })
  | emit e k ih => intro w; exact ih { w with events := w.events ++ [e] }

@[simp] theorem run_ofExcept_ok (env : Env S) (a : α) (w : World S) :
    (ofExcept (.ok a) : Call S α).run env w = (.ok a, w) := rfl
@[simp] theorem run_ofExcept_error (env : Env S) (e : S.Error) (w : World S) :
    (ofExcept (.error e) : Call S α).run env w = (.error e, w) := rfl

theorem run_transaction (env : Env S) (l : S.Label) (b : Tx S α) (w : World S) :
    (transaction l b).run env w = close env w.db (b.run env w) := by
  simp only [transaction, run]
  rcases close env w.db (b.run env w) with ⟨r, w'⟩
  cases r <;> rfl

theorem run_transaction_ok {env : Env S} {l : S.Label} {b : Tx S α} {w w' : World S} {a : α}
    (h : (transaction l b).run env w = (.ok a, w')) :
    ∃ w₁, b.run env w = (.ok a, w₁) ∧ w' = { w₁ with stmts := w₁.stmts + 1 } := by
  rw [run_transaction] at h
  rcases hb : b.run env w with ⟨r, w₁⟩
  rw [hb] at h
  cases r with
  | error e => simp [close] at h
  | ok c =>
    simp only [close] at h
    split at h
    · simp at h
    · simp only [Prod.mk.injEq, Except.ok.injEq] at h
      obtain ⟨rfl, rfl⟩ := h
      exact ⟨w₁, rfl, rfl⟩

/-- A transaction that throws leaves the database as it found it. -/
theorem run_transaction_error {env : Env S} {l : S.Label} {b : Tx S α} {w w' : World S}
    {e : S.Error} (h : (transaction l b).run env w = (.error e, w')) : w'.db = w.db := by
  rw [run_transaction] at h
  rcases hb : b.run env w with ⟨r, w₁⟩
  rw [hb] at h
  cases r with
  | error e =>
    simp only [close, Prod.mk.injEq] at h
    rw [← h.2]
  | ok c =>
    simp only [close] at h
    split at h
    · simp only [Prod.mk.injEq] at h
      rw [← h.2]
    · simp at h

theorem run_exec_ok {env : Env S} {s : Stmt S β} {w w' : World S} {b : β}
    (h : (exec s).run env w = (.ok b, w')) :
    ∃ e, s.eval w.db = .ok e ∧ b = e.result ∧
      w' = { w with db := w.db.applyAll e.writes, stmts := w.stmts + 1 } := by
  simp only [exec, run] at h
  rcases hs : s.run env w with ⟨r, w₁⟩
  rw [hs] at h
  cases r with
  | ok c =>
    simp only [Except.mapError, run_ofExcept_ok, Prod.mk.injEq, Except.ok.injEq] at h
    obtain ⟨rfl, rfl⟩ := h
    exact Stmt.run_ok hs
  | error f => simp [Except.mapError] at h

/-- Outside a transaction the same statements run in the same order. -/
theorem run_auto (env : Env S) (p : Tx S α) :
    ∀ w, (auto p).run env w = p.run env w := by
  induction p with
  | ret a => intro w; rfl
  | throw e => intro w; rfl
  | stmt s k ih =>
    intro w
    simp only [auto, run, Tx.run]
    rcases s.run env w with ⟨r, w'⟩
    cases r with
    | ok b => exact ih b w'
    | error f => rfl
  | draw k ih => intro w; exact ih _ _
  | clock k ih => intro w; exact ih _ _

theorem run_isOk (env : Env S) (w : World S) {p : Call S α} (h : (p.run env w).1.isOk = true) :
    ∃ a w', p.run env w = (.ok a, w') := by
  rcases hp : p.run env w with ⟨r, w'⟩
  rw [hp] at h
  cases r with
  | ok a => exact ⟨a, w', rfl⟩
  | error e => cases h

end Call
end Sql
