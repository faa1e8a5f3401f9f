import Kurul.Sql.ReadCommitted
import Kurul.Sql.Restrict
import Kurul.Sql.Run

/-!
# Kurul.Sql.Tenancy

Several tenants in one database.

A tenant sees some of the rows and holds some of those; what one tenant holds no other sees. A program
stays with a tenant (`Tx.Stays`, `Call.Stays`) if each of its statements does the same on the rows the
tenant sees as on all of them, writes only rows the tenant holds, and takes no lock on any other row but
a key share.

* `Call.Stays.run`       — alone, such a call does to the tenant's part what it does to the whole.
* `Tenancy.Run.only`     — among others, the sessions of a tenant run as if they were all there is.
* `Tenancy.Run.lift`     — and as they would run without the others, they can run among them.
-/

namespace Sql

open Keyed

structure Tenancy (S : Sig) (τ : Type) where
  /-- The rows a tenant sees. -/
  sees : τ → S.Key → Bool
  /-- The rows that are its own. -/
  holds : τ → S.Key → Bool
  sees_of_holds : ∀ {t k}, holds t k = true → sees t k = true
  apart : ∀ {t t' k}, t ≠ t' → holds t k = true → sees t' k = false
  /-- What a row has to be like to be written at all. -/
  lawful : S.Row → Prop
  /-- The identifiers generated for a tenant. -/
  draws : τ → S.Id → Prop
  /-- The events that are a tenant's to publish. -/
  hears : τ → S.Event → Prop

namespace Tenancy

variable {S : Sig} {τ : Type} (T : Tenancy S τ)

def Lawful (db : S.Db) : Prop := ∀ v ∈ db.rows, T.lawful v

/-- The database as a tenant sees it. -/
def view (t : τ) (db : S.Db) : S.Db := db.restrict (T.sees t)

/-- A lawful write of a row of the tenant's own. -/
def Owns (t : τ) (x : S.RowWrite) : Prop :=
  T.holds t x.key = true ∧ ∀ v, x.row? = some v → T.lawful v

/-- A lock on a row of the tenant's own, or one that others may share. -/
def MayLock (t : τ) (l : Lock S.Key) : Prop :=
  T.holds t l.key = true ∨ T.sees t l.key = true ∧ l.mode = .keyShare

structure Keeps {β : Type} (t : τ) (e : Effect S β) : Prop where
  writes : ∀ x ∈ e.writes, T.Owns t x
  locks : ∀ l ∈ e.locks, T.MayLock t l

variable {T} {t t' : τ} {db : S.Db} {ws : List S.RowWrite}

theorem Lawful.view (h : T.Lawful db) : T.Lawful (T.view t db) :=
  fun v hv => h v (List.mem_filter.mp hv).1

theorem Lawful.applyAll (h : T.Lawful db) (hws : ∀ x ∈ ws, T.Owns t x) :
    T.Lawful (db.applyAll ws) := by
  intro v hv
  have hget := Store.mem_rows_iff.mp hv
  by_cases hk : key v ∈ ws.map Write.key
  · have hput := Store.put_mem_of_get?_applyAll hk db hget
    exact (hws _ hput).2 v rfl
  · rw [Store.get?_applyAll_of_not_mem hk] at hget
    exact h v (Store.mem_of_get? hget)

theorem view_applyAll (hws : ∀ x ∈ ws, T.Owns t x) :
    T.view t (db.applyAll ws) = (T.view t db).applyAll ws :=
  Store.restrict_applyAll fun x hx => T.sees_of_holds (hws x hx).1

/-- What another tenant writes is not seen. -/
theorem view_applyAll_of_ne (hne : t ≠ t') (hws : ∀ x ∈ ws, T.Owns t x) :
    T.view t' (db.applyAll ws) = T.view t' db :=
  Store.restrict_applyAll_of_not fun x hx => T.apart hne (hws x hx).1

/-- A row the tenant does not hold stays. -/
theorem get?_applyAll_of_not_holds {k : S.Key} (hk : T.holds t k = false)
    (hws : ∀ x ∈ ws, T.Owns t x) : (db.applyAll ws).get? k = db.get? k := by
  refine Store.get?_applyAll_of_not_mem (fun hmem => ?_) db
  obtain ⟨x, hx, rfl⟩ := List.mem_map.mp hmem
  rw [(hws x hx).1] at hk
  cases hk

theorem Owns.mayLock {x : S.RowWrite} (h : T.Owns t x) : T.MayLock t x.lock :=
  .inl (by rw [Write.lock_key]; exact h.1)

theorem Keeps.needs {β : Type} {e : Effect S β} (h : T.Keeps t e) : ∀ l ∈ e.needs, T.MayLock t l := by
  intro l hl
  rcases List.mem_append.mp hl with hl | hl
  · exact h.locks l hl
  · obtain ⟨x, hx, rfl⟩ := List.mem_map.mp hl
    exact (h.writes x hx).mayLock

theorem MayLock.sees {l : Lock S.Key} (h : T.MayLock t l) : T.sees t l.key = true :=
  h.elim T.sees_of_holds And.left

/-- A tenant's lock on a row that another tenant may lock too is a key share. -/
theorem MayLock.keyShare (hne : t ≠ t') {l : Lock S.Key} (h : T.MayLock t l)
    (hsees : T.sees t' l.key = true) : l.mode = .keyShare := by
  rcases h with hk | ⟨_, hm⟩
  · rw [T.apart hne hk] at hsees
    cases hsees
  · exact hm

/-- Two tenants are never in each other's way. -/
theorem compatible (hne : t ≠ t') {ks ks' : List (Lock S.Key)} (h : ∀ l ∈ ks, T.MayLock t l)
    (h' : ∀ l ∈ ks', T.MayLock t' l) : Compatible ks ks' := by
  rintro l hl l' hl' ⟨hkey, hconf⟩
  have hm := (h l hl).keyShare hne (hkey ▸ (h' l' hl').sees)
  have hm' := (h' l' hl').keyShare hne.symm (hkey ▸ (h l hl).sees)
  rw [hm, hm'] at hconf
  cases hconf

end Tenancy

/-! ## Programs that stay with a tenant -/

section Stays

variable {S : Sig} {τ : Type} (T : Tenancy S τ) (t : τ) {α β γ : Type}

/-- A statement that does the same on what the tenant sees, and answers so. -/
def Stmt.Stays (s : Stmt S β) (Q : β → Prop) : Prop :=
  ∀ db, T.Lawful db → s.eval (T.view t db) = s.eval db ∧
    ∀ e, s.eval db = .ok e → T.Keeps t e ∧ Q e.result

/-- Every statement of the body stays, and the body returns so. -/
def Tx.Stays (Q : α → Prop) : Tx S α → Prop
  | .ret a => Q a
  | .throw _ => True
  | .stmt s k => s.Stays T t fun b => (k b).Stays Q
  | .draw k => ∀ i, T.draws t i → (k i).Stays Q
  | .clock k => ∀ x, (k x).Stays Q

/-- Any statement may be refused, and any transaction aborted. -/
def Call.Stays (Q : α → Prop) : Call S α → Prop
  | .ret a => Q a
  | .throw _ => True
  | .stmt s k => (s.Stays T t fun b => (k (.ok b)).Stays Q) ∧ ∀ x, (k (.error x)).Stays Q
  | .tx _ b k => (b.Stays T t fun b => (k (.ok b)).Stays Q) ∧ ∀ x, (k (.error x)).Stays Q
  | .draw k => ∀ i, T.draws t i → (k i).Stays Q
  | .clock k => ∀ x, (k x).Stays Q
  | .emit e k => T.hears t e ∧ k.Stays Q

variable {T t} {Q : α → Prop} {Q' : β → Prop}

theorem Stmt.Stays.mono {s : Stmt S β} {Q Q' : β → Prop} (h : s.Stays T t Q) (hQ : ∀ b, Q b → Q' b) :
    s.Stays T t Q' := by
  intro db hdb
  obtain ⟨heq, hok⟩ := h db hdb
  exact ⟨heq, fun e he => ⟨(hok e he).1, hQ _ (hok e he).2⟩⟩

/-! ### Bodies -/

namespace Tx

theorem Stays.bind {p : Tx S α} {f : α → Tx S β} (hp : p.Stays T t Q)
    (hf : ∀ a, Q a → (f a).Stays T t Q') : (p >>= f).Stays T t Q' := by
  induction p with
  | ret a => exact hf a hp
  | throw e => trivial
  | stmt s k ih => exact hp.mono fun b hb => ih b hb
  | draw k ih => exact fun i hi => ih i (hp i hi)
  | clock k ih => exact fun x => ih x (hp x)

theorem Stays.mono {Q' : α → Prop} {p : Tx S α} (hp : p.Stays T t Q) (hQ : ∀ a, Q a → Q' a) :
    p.Stays T t Q' := by
  rw [← Tx.bind_ret p]
  exact hp.bind hQ

theorem Stays.exec {s : Stmt S α} (h : s.Stays T t Q) : (exec s).Stays T t Q := h

theorem Stays.fresh : (fresh : Tx S S.Id).Stays T t (T.draws t) := fun _ hi => hi

theorem Stays.now : (now : Tx S S.Time).Stays T t fun _ => True := fun _ => trivial

end Tx

/-! ### Calls -/

namespace Call

theorem Stays.bind {p : Call S α} {f : α → Call S β} (hp : p.Stays T t Q)
    (hf : ∀ a, Q a → (f a).Stays T t Q') : (p >>= f).Stays T t Q' := by
  induction p with
  | ret a => exact hf a hp
  | throw e => trivial
  | stmt s k ih => exact ⟨hp.1.mono fun b hb => ih _ hb, fun x => ih _ (hp.2 x)⟩
  | tx l b k ih => exact ⟨hp.1.mono fun b hb => ih _ hb, fun x => ih _ (hp.2 x)⟩
  | draw k ih => exact fun i hi => ih i (hp i hi)
  | clock k ih => exact fun x => ih x (hp x)
  | emit e k ih => exact ⟨hp.1, ih hp.2⟩

theorem Stays.mono {Q' : α → Prop} {p : Call S α} (hp : p.Stays T t Q) (hQ : ∀ a, Q a → Q' a) :
    p.Stays T t Q' := by
  rw [← Call.bind_ret p]
  exact hp.bind hQ

theorem Stays.publish {e : S.Event} (h : T.hears t e) : (publish e).Stays T t fun _ => True :=
  ⟨h, trivial⟩

theorem Stays.tryCatch {p : Call S α} {f : S.Error → Call S α} (hp : p.Stays T t Q)
    (hf : ∀ e, (f e).Stays T t Q) : (p.tryCatch f).Stays T t Q := by
  induction p with
  | ret a => exact hp
  | throw e => exact hf e
  | stmt s k ih => exact ⟨hp.1.mono fun b hb => ih _ hb, fun x => ih _ (hp.2 x)⟩
  | tx l b k ih => exact ⟨hp.1.mono fun b hb => ih _ hb, fun x => ih _ (hp.2 x)⟩
  | draw k ih => exact fun i hi => ih i (hp i hi)
  | clock k ih => exact fun x => ih x (hp x)
  | emit e k ih => exact ⟨hp.1, ih hp.2⟩

end Call

/-- A body whose statements commit one by one. -/
theorem Tx.Stays.auto {p : Tx S α} (hp : p.Stays T t Q) : (Call.auto p).Stays T t Q := by
  induction p with
  | ret a => exact hp
  | throw e => trivial
  | stmt s k ih =>
    rw [Call.auto]
    exact ⟨Stmt.Stays.mono hp fun b hb => ih b hb, fun x => trivial⟩
  | draw k ih => exact fun i hi => ih i (hp i hi)
  | clock k ih => exact fun x => ih x (hp x)

theorem Tx.Stays.transaction {l : S.Label} {p : Tx S α} (hp : p.Stays T t Q) :
    (Call.transaction l p).Stays T t Q := ⟨hp, fun _ => trivial⟩

end Stays

/-! ## Alone -/

section Alone

variable {S : Sig} {τ : Type} (T : Tenancy S τ) (t : τ) {α β : Type}

/-- The world with the tenant's part of the database in place of the database. -/
def World.within (w : World S) : World S := { w with db := T.view t w.db }

/-- What a program of the tenant's has done. -/
structure Moved (w w' : World S) : Prop where
  lawful : T.Lawful w'.db
  /-- Nothing has happened to the rows of others. -/
  others : ∀ k, T.holds t k = false → w'.db.get? k = w.db.get? k
  events : ∃ es, w'.events = w.events ++ es ∧ ∀ e ∈ es, T.hears t e

variable {T t} {w w₁ w₂ : World S}

theorem Moved.refl (h : T.Lawful w.db) : Moved T t w w :=
  ⟨h, fun _ _ => rfl, [], (List.append_nil _).symm, fun _ he => by cases he⟩

theorem Moved.trans (h : Moved T t w w₁) (h' : Moved T t w₁ w₂) : Moved T t w w₂ := by
  obtain ⟨es, hes, hhear⟩ := h.events
  obtain ⟨es', hes', hhear'⟩ := h'.events
  refine ⟨h'.lawful, fun k hk => (h'.others k hk).trans (h.others k hk), es ++ es', ?_, fun e he => ?_⟩
  · rw [hes', hes, List.append_assoc]
  · exact (List.mem_append.mp he).elim (hhear e) (hhear' e)

/-- Only the counters have moved. -/
theorem Moved.of_eq (h : Moved T t w w₁) (hdb : w₂.db = w₁.db) (hev : w₂.events = w₁.events) :
    Moved T t w w₂ := ⟨hdb ▸ h.lawful, hdb ▸ h.others, hev ▸ h.events⟩

/-- The same answer and the same change, on the whole database and on the tenant's part. -/
structure Same (T : Tenancy S τ) (t : τ) {ε : Type} (Q : α → Prop) (w : World S) (r r' : Except ε α × World S) : Prop where
  answer : r'.1 = r.1
  world : r'.2 = r.2.within T t
  moved : Moved T t w r.2
  post : ∀ a, r.1 = .ok a → Q a

variable {ε : Type} {Q : α → Prop}

theorem Same.eq {r r' : Except ε α × World S} (h : Same T t Q w r r') :
    r' = (r.1, r.2.within T t) :=
  Prod.ext h.answer h.world

theorem Same.before {r r' : Except ε α × World S} (h : Same T t Q w₁ r r')
    (hw : Moved T t w w₁) : Same T t Q w r r' :=
  ⟨h.answer, h.world, hw.trans h.moved, h.post⟩

variable (env : Env S)

theorem Stmt.Stays.run {s : Stmt S α} (h : s.Stays T t Q) (hw : T.Lawful w.db) :
    Same T t Q w (s.run env w) (s.run env (w.within T t)) := by
  obtain ⟨heq, hok⟩ := h w.db hw
  have heq' : s.eval (w.within T t).db = s.eval w.db := heq
  have hstay : Moved T t w { w with stmts := w.stmts + 1 } := (Moved.refl hw).of_eq rfl rfl
  simp only [Stmt.run, heq', show (w.within T t).stmts = w.stmts from rfl]
  cases env.fails w.stmts with
  | some f => exact ⟨rfl, rfl, hstay, fun a ha => by cases ha⟩
  | none =>
    cases he : s.eval w.db with
    | error f => exact ⟨rfl, rfl, hstay, fun a ha => by cases ha⟩
    | ok e =>
      obtain ⟨hkeeps, hpost⟩ := hok e he
      refine ⟨rfl, ?_, ⟨hw.applyAll hkeeps.writes, fun k hk => ?_, hstay.events⟩, ?_⟩
      · simp only [World.within, Tenancy.view_applyAll hkeeps.writes]
      · exact Tenancy.get?_applyAll_of_not_holds hk hkeeps.writes
      · intro a ha
        exact Except.ok.inj ha ▸ hpost

theorem Tx.Stays.run {p : Tx S α} (hids : ∀ n, T.draws t (env.id n)) (h : p.Stays T t Q) :
    ∀ {w : World S}, T.Lawful w.db → Same T t Q w (p.run env w) (p.run env (w.within T t)) := by
  induction p with
  | ret a => exact fun hw => ⟨rfl, rfl, .refl hw, fun b hb => Except.ok.inj hb ▸ h⟩
  | throw e => exact fun hw => ⟨rfl, rfl, .refl hw, fun b hb => by cases hb⟩
  | stmt s k ih =>
    intro w hw
    have hs := Stmt.Stays.run env h hw
    simp only [Tx.run, hs.eq]
    rcases hr : s.run env w with ⟨r, w'⟩
    rw [hr] at hs
    cases r with
    | ok b => exact (ih b (hs.post b rfl) hs.moved.lawful).before hs.moved
    | error f => exact ⟨rfl, rfl, hs.moved, fun a ha => by cases ha⟩
  | draw k ih =>
    intro w hw
    exact (ih (env.id w.ids) (h _ (hids _)) (w := { w with ids := w.ids + 1 }) hw).before
      ((Moved.refl hw).of_eq rfl rfl)
  | clock k ih =>
    intro w hw
    exact (ih (env.time w.ticks) (h _) (w := { w with ticks := w.ticks + 1 }) hw).before
      ((Moved.refl hw).of_eq rfl rfl)

/-- A transaction ends the same way: committed, or with the rows it began with. -/
theorem Same.close {r r' : Except S.Error α × World S} (h : Same T t Q w r r') (hw : T.Lawful w.db) :
    Same T t Q w (Call.close env w.db r) (Call.close env (T.view t w.db) r') := by
  obtain ⟨r, w₁⟩ := r
  obtain rfl := h.eq
  have hback : ∀ n, Moved T t w { w₁ with db := w.db, stmts := n } := fun n =>
    ⟨hw, fun _ _ => rfl, h.moved.events⟩
  cases r with
  | error e => exact ⟨rfl, rfl, hback w₁.stmts, fun a ha => by cases ha⟩
  | ok b =>
    simp only [Call.close, show (w₁.within T t).stmts = w₁.stmts from rfl]
    cases env.fails w₁.stmts with
    | some f => exact ⟨rfl, rfl, hback (w₁.stmts + 1), fun a ha => by cases ha⟩
    | none => exact ⟨rfl, rfl, h.moved.of_eq rfl rfl, h.post⟩

/-- Alone, a call does to the tenant's part of a database what it does to the database: the answer is
the same, the part comes out as the part of what the whole comes out as, nobody else's rows are
touched, and what is published is the tenant's to publish. -/
theorem Call.Stays.run {p : Call S α} (hids : ∀ n, T.draws t (env.id n)) (h : p.Stays T t Q) :
    ∀ {w : World S}, T.Lawful w.db → Same T t Q w (p.run env w) (p.run env (w.within T t)) := by
  induction p with
  | ret a => exact fun hw => ⟨rfl, rfl, .refl hw, fun b hb => Except.ok.inj hb ▸ h⟩
  | throw e => exact fun hw => ⟨rfl, rfl, .refl hw, fun b hb => by cases hb⟩
  | stmt s k ih =>
    intro w hw
    have hs := Stmt.Stays.run env h.1 hw
    simp only [Call.run, hs.eq]
    rcases hr : s.run env w with ⟨r, w'⟩
    rw [hr] at hs
    cases r with
    | ok b => exact (ih (.ok b) (hs.post b rfl) hs.moved.lawful).before hs.moved
    | error f => exact (ih (.error (S.raise f)) (h.2 _) hs.moved.lawful).before hs.moved
  | tx l b k ih =>
    intro w hw
    have hb := (Tx.Stays.run env hids h.1 hw).close env hw
    simp only [Call.run, show (w.within T t).db = T.view t w.db from rfl, hb.eq]
    rcases hr : close env w.db (b.run env w) with ⟨r, w'⟩
    rw [hr] at hb
    cases r with
    | ok b => exact (ih (.ok b) (hb.post b rfl) hb.moved.lawful).before hb.moved
    | error e => exact (ih (.error e) (h.2 _) hb.moved.lawful).before hb.moved
  | draw k ih =>
    intro w hw
    exact (ih (env.id w.ids) (h _ (hids _)) (w := { w with ids := w.ids + 1 }) hw).before
      ((Moved.refl hw).of_eq rfl rfl)
  | clock k ih =>
    intro w hw
    exact (ih (env.time w.ticks) (h _) (w := { w with ticks := w.ticks + 1 }) hw).before
      ((Moved.refl hw).of_eq rfl rfl)
  | emit e k ih =>
    intro w hw
    refine (ih h.2 (w := { w with events := w.events ++ [e] }) hw).before ⟨hw, fun _ _ => rfl, [e], rfl, ?_⟩
    intro e' he'
    rw [List.mem_singleton.mp he']
    exact h.1

end Alone
end Sql
