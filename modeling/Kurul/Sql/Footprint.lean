import Kurul.Sql.RelyGuarantee
import Kurul.Sql.Run

/-!
# Kurul.Sql.Footprint

What a program may do to a row, given what the row held before.

A `Footprint` closed under doing one thing after another is a property of whole bodies: `Tx.Within`
asks it of every statement, on whatever rows it finds, and it then holds of all the writes of a body
together, against the rows the body started from.

* `Sparing`        — rows that stay, as far as a relation goes.
* `Tx.Within.run`  — alone.
* `Tx.Within.safe` — among others, as long as they leave alone what it has written.
* `Tx.Safe.run`    — what is shown of a body among others holds of it alone.
-/

namespace Sql

variable {S : Sig} {α β : Type}

structure Footprint (S : Sig) where
  Allows : Option S.Row → S.RowWrite → Prop
  /-- One write after another to the same row. -/
  comp : ∀ (db : S.Db) (x y : S.RowWrite), x.key = y.key → Allows (db.get? x.key) x →
    Allows x.row? y → Allows (db.get? y.key) y

namespace Footprint

variable (F : Footprint S)

/-- Every write is allowed, against these rows. -/
def Covers (ws : List S.RowWrite) (db : S.Db) : Prop := ∀ x ∈ ws, F.Allows (db.get? x.key) x

variable {F}

theorem Covers.nil (db : S.Db) : F.Covers [] db := fun _ h => by cases h

/-- A row written holds what one of the writes left there. -/
theorem exists_last {ws : List S.RowWrite} {k : S.Key} (h : k ∈ ws.map Write.key) :
    ∃ x ∈ ws, x.key = k ∧ ∀ db : S.Db, (db.applyAll ws).get? k = x.row? := by
  induction ws with
  | nil => cases h
  | cons w ws ih =>
    by_cases hk : k ∈ ws.map Write.key
    · obtain ⟨x, hx, hkey, hlast⟩ := ih hk
      exact ⟨x, List.mem_cons_of_mem w hx, hkey, fun db => hlast (db.apply w)⟩
    · have hw : k = w.key := (List.mem_cons.mp h).resolve_right hk
      refine ⟨w, List.mem_cons_self, hw.symm, fun db => ?_⟩
      rw [Store.applyAll_cons, Store.get?_applyAll_of_not_mem hk, Store.get?_apply, if_pos hw]

theorem Covers.append {ws ws' : List S.RowWrite} {db : S.Db} (h : F.Covers ws db)
    (h' : F.Covers ws' (db.applyAll ws)) : F.Covers (ws ++ ws') db := by
  intro y hy
  rcases List.mem_append.mp hy with hy | hy
  · exact h y hy
  · have hallowed := h' y hy
    by_cases hk : y.key ∈ ws.map Write.key
    · obtain ⟨x, hx, hkey, hlast⟩ := exists_last hk
      rw [hlast db] at hallowed
      exact F.comp db x y hkey (h x hx) hallowed
    · rwa [Store.get?_applyAll_of_not_mem hk] at hallowed

end Footprint

/-! ## Rows that stay -/

/-- Rows that are to be left alone: what becomes of one is to stand in a relation to it. -/
structure Sparing (S : Sig) where
  spares : S.Row → Prop
  same : S.Row → S.Row → Prop
  refl : ∀ v, same v v
  trans : ∀ {u v w}, same u v → same v w → same u w
  keeps : ∀ {u v}, spares u → same u v → spares v

namespace Sparing

variable (X : Sparing S)

/-- The writes that spare them. -/
def footprint : Footprint S where
  Allows old x := ∀ v, old = some v → X.spares v → ∃ v', x.row? = some v' ∧ X.same v v'
  comp db x y hkey hx hy := by
    intro v hv hspared
    rw [← hkey] at hv
    obtain ⟨v₁, hv₁, hsame₁⟩ := hx v hv hspared
    obtain ⟨v₂, hv₂, hsame₂⟩ := hy v₁ hv₁ (X.keeps hspared hsame₁)
    exact ⟨v₂, hv₂, X.trans hsame₁ hsame₂⟩

variable {X}

theorem stays {ws : List S.RowWrite} {db : S.Db} (h : X.footprint.Covers ws db) {v : S.Row}
    (hv : v ∈ db.rows) (hspared : X.spares v) :
    ∃ v' ∈ (db.applyAll ws).rows, Keyed.key v' = Keyed.key v ∧ X.same v v' := by
  have hget := Store.mem_rows_iff.mp hv
  by_cases hk : Keyed.key v ∈ ws.map Write.key
  · obtain ⟨x, hx, hkey, hlast⟩ := Footprint.exists_last hk
    obtain ⟨v', hv', hsame⟩ := h x hx v (by rw [hkey, hget]) hspared
    have hget' : (db.applyAll ws).get? (Keyed.key v) = some v' := (hlast db).trans hv'
    exact ⟨v', Store.mem_of_get? hget', Store.key_of_get? hget', hsame⟩
  · have hget' : (db.applyAll ws).get? (Keyed.key v) = some v := by
      rw [Store.get?_applyAll_of_not_mem hk, hget]
    exact ⟨v, Store.mem_of_get? hget', rfl, X.refl v⟩

end Sparing

namespace Tx

variable {F : Footprint S}

/-- Every statement of the body stays within the footprint, on whatever rows it is evaluated. -/
def Within (F : Footprint S) : Tx S α → Prop
  | .ret _ => True
  | .throw _ => True
  | .stmt s k => (∀ db e, s.eval db = .ok e → F.Covers e.writes db) ∧ ∀ b, (k b).Within F
  | .draw k => ∀ i, (k i).Within F
  | .clock k => ∀ t, (k t).Within F

theorem Within.bind {p : Tx S α} {f : α → Tx S β} (hp : p.Within F) (hf : ∀ a, (f a).Within F) :
    (p >>= f).Within F := by
  induction p with
  | ret a => exact hf a
  | throw e => trivial
  | stmt s k ih => exact ⟨hp.1, fun b => ih b (hp.2 b)⟩
  | draw k ih => exact fun i => ih i (hp i)
  | clock k ih => exact fun t => ih t (hp t)

theorem ReadOnly.within {p : Tx S α} (hp : p.ReadOnly) : p.Within F := by
  induction p with
  | ret a => trivial
  | throw e => trivial
  | stmt s k ih =>
    refine ⟨fun db e he => ?_, fun b => ih b (hp.2 b)⟩
    rw [(hp.1 db e he).1]
    exact Footprint.Covers.nil db
  | draw k ih => exact fun i => ih i (hp i)
  | clock k ih => exact fun t => ih t (hp t)

/-- Where a footprint allows every write of a kind, it allows a body of such writes. -/
theorem Writes.within {p : S.RowWrite → Prop} {b : Tx S α} (hb : b.Writes p)
    (hp : ∀ (db : S.Db) (x : S.RowWrite), p x → F.Allows (db.get? x.key) x) : b.Within F := by
  induction b with
  | ret a => trivial
  | throw e => trivial
  | stmt s k ih =>
    exact ⟨fun db e he x hx => hp db x (hb.1 db e he x hx), fun b => ih b (hb.2 b)⟩
  | draw k ih => exact fun i => ih i (hb i)
  | clock k ih => exact fun t => ih t (hb t)

/-- A body alone leaves the database as writes within its footprint make it. -/
theorem Within.run {b : Tx S α} (hb : b.Within F) (env : Env S) :
    ∀ w, ∃ ws, F.Covers ws w.db ∧ (b.run env w).2.db = w.db.applyAll ws := by
  induction b with
  | ret a => intro w; exact ⟨[], Footprint.Covers.nil w.db, rfl⟩
  | throw e => intro w; exact ⟨[], Footprint.Covers.nil w.db, rfl⟩
  | stmt s k ih =>
    intro w
    simp only [Tx.run]
    rcases h : s.run env w with ⟨r, w'⟩
    cases r with
    | ok b =>
      obtain ⟨e, he, rfl, rfl⟩ := Stmt.run_ok h
      obtain ⟨ws, hws, hdb⟩ := ih e.result (hb.2 _) { w with
        db := w.db.applyAll e.writes, stmts := w.stmts + 1 }
      refine ⟨e.writes ++ ws, (hb.1 _ e he).append hws, ?_⟩
      rw [Store.applyAll_append]
      exact hdb
    | error f =>
      rw [Stmt.run_error h]
      exact ⟨[], Footprint.Covers.nil w.db, rfl⟩
  | draw k ih =>
    intro w
    exact ih (env.id w.ids) (hb (env.id w.ids)) { w with ids := w.ids + 1 }
  | clock k ih =>
    intro w
    exact ih (env.time w.ticks) (hb (env.time w.ticks)) { w with ticks := w.ticks + 1 }

end Tx

/-! ## Among others -/

/-- The others leave alone what a transaction has written. -/
def Protocol.KeepsOwn {ι : Type} (P : Protocol S ι) : Prop :=
  ∀ own db db', P.Rely own db db' → ∀ k, own.Wrote k → db'.get? k = db.get? k

variable {ι : Type} {P : Protocol S ι} {i : ι} {F : Footprint S}

theorem Footprint.Covers.rely (hown : P.KeepsOwn) {own : Local S} {db db' : S.Db}
    (h : F.Covers own.delta db) (hr : P.Rely own db db') : F.Covers own.delta db' := by
  intro x hx
  rw [hown own db db' hr x.key (List.mem_map_of_mem hx)]
  exact h x hx

theorem Footprint.Covers.add {own : Local S} {db : S.Db} (h : F.Covers own.delta db) {e : Effect S β}
    (he : F.Covers e.writes (own.view db)) : F.Covers (own.add e).delta db := h.append he

/-- A body within a footprint ends with a transaction whose writes are, against the rows committed by
then. -/
theorem Tx.Within.safe (hown : P.KeepsOwn) {Q : α → Local S → S.Db → Prop}
    (hQ : ∀ a own db, F.Covers own.delta db → Q a own db) {b : Tx S α} (hb : b.Within F) :
    ∀ {own db}, F.Covers own.delta db → b.Safe P i Q own db := by
  induction b with
  | ret a => intro own db h; exact hQ a own db h
  | throw e => intro own db _; trivial
  | stmt s k ih =>
    intro own db h db' hl _ e he
    exact ih e.result (hb.2 e.result) ((h.rely hown hl.1).add (hb.1 _ e he))
  | draw k ih => intro own db h x; exact ih x (hb x) h
  | clock k ih => intro own db h t; exact ih t (hb t) h

/-! ## Alone -/

/-- Nobody else commits anything. -/
def Protocol.alone (S : Sig) : Protocol S Unit where
  Inv _ := True
  Rely _ db db' := db' = db
  Guar _ _ _ _ := True
  Cond _ _ _ := True
  guar_refl _ _ _ := trivial
  rely_refl _ _ := rfl
  rely_trans h h' := h'.trans h

theorem Protocol.alone_keepsOwn : (Protocol.alone S).KeepsOwn := by
  intro own db db' h k _
  rw [show db' = db from h]

/-- What a body is shown to do among others it does alone. -/
theorem Tx.Safe.run {Q : α → Local S → S.Db → Prop} {db : S.Db} {env : Env S} {b : Tx S α} :
    ∀ {own : Local S} {w w' : World S} {a : α}, b.Safe (Protocol.alone S) () Q own db →
      w.db = own.view db → b.run env w = (.ok a, w') →
      ∃ own', Q a own' db ∧ w'.db = own'.view db := by
  induction b with
  | ret a =>
    intro own w w' a' h hw hrun
    obtain ⟨rfl, rfl⟩ : a = a' ∧ w = w' := by simpa using hrun
    exact ⟨own, h, hw⟩
  | throw e => intro own w w' a _ _ hrun; simp at hrun
  | stmt s k ih =>
    intro own w w' a h hw hrun
    simp only [Tx.run] at hrun
    rcases hs : s.run env w with ⟨r, w₁⟩
    rw [hs] at hrun
    cases r with
    | error f => simp at hrun
    | ok b =>
      obtain ⟨e, he, rfl, rfl⟩ := Stmt.run_ok hs
      rw [hw] at he
      refine ih e.result (h db ⟨rfl, trivial⟩ trivial e he) ?_ hrun
      rw [Local.view_add, hw]
  | draw k ih =>
    intro own w w' a h hw hrun
    exact ih (env.id w.ids) (w := { w with ids := w.ids + 1 }) (h (env.id w.ids)) hw hrun
  | clock k ih =>
    intro own w w' a h hw hrun
    exact ih (env.time w.ticks) (w := { w with ticks := w.ticks + 1 }) (h (env.time w.ticks)) hw hrun

end Sql
