import Kurul.Sql.Ends
import Kurul.Sql.Footprint
import Kurul.Sql.Ledger

/-!
# Kurul.Sql.Evolution

What becomes of each row over a whole body, and what a body throws.

* `Evolution`       — a preorder on what a row holds, which each write is to follow.
* `Tx.Within.holds` — then so does a body, from the rows it began with to the rows it leaves.
* `Tx.Within.rest`  — what is left of a body once its first part has run.
* `Tx.Within.kept`  — among others, a property that every write within a footprint keeps.
* `Tx.Raises`       — the exceptions a body may throw, whatever it finds.
-/

namespace Sql

variable {S : Sig} {α β : Type}

/-- What a row may hold, after what it held. -/
structure Evolution (S : Sig) where
  rel : Option S.Row → Option S.Row → Prop
  refl : ∀ v, rel v v
  trans : ∀ {u v w}, rel u v → rel v w → rel u w

namespace Evolution

variable (X : Evolution S)

def footprint : Footprint S where
  Allows old x := X.rel old x.row?
  comp db x y hkey hx hy := by
    rw [← hkey]
    exact X.trans hx hy

/-- From one database to another, row by row. -/
def Holds (db db' : S.Db) : Prop := ∀ k, X.rel (db.get? k) (db'.get? k)

variable {X}

theorem Holds.refl (db : S.Db) : X.Holds db db := fun k => X.refl (db.get? k)

theorem Holds.trans {db db' db'' : S.Db} (h : X.Holds db db') (h' : X.Holds db' db'') :
    X.Holds db db'' := fun k => X.trans (h k) (h' k)

theorem holds_of_covers {ws : List S.RowWrite} {db : S.Db} (h : X.footprint.Covers ws db) :
    X.Holds db (db.applyAll ws) := by
  intro k
  by_cases hk : k ∈ ws.map Write.key
  · obtain ⟨x, hx, rfl, hlast⟩ := Footprint.exists_last hk
    rw [hlast db]
    exact h x hx
  · rw [Store.get?_applyAll_of_not_mem hk]
    exact X.refl _

end Evolution

namespace Tx

/-- A body alone. -/
theorem Within.holds {X : Evolution S} {b : Tx S α} (hb : b.Within X.footprint) {env : Env S}
    {w w' : World S} {r : Except S.Error α} (h : b.run env w = (r, w')) : X.Holds w.db w'.db := by
  obtain ⟨ws, hws, hdb⟩ := hb.run env w
  rw [h] at hdb
  rw [hdb]
  exact Evolution.holds_of_covers hws

/-- The rest of a body, once its first part has run. -/
theorem Within.rest {F : Footprint S} {p : Tx S α} {f : α → Tx S β} (h : (p >>= f).Within F)
    {env : Env S} {w w' : World S} {a : α} (hrun : p.run env w = (.ok a, w')) : (f a).Within F := by
  induction p generalizing w with
  | ret b =>
    obtain ⟨rfl, rfl⟩ : b = a ∧ w = w' := by simpa using hrun
    exact h
  | throw e => simp at hrun
  | stmt s k ih =>
    simp only [Tx.run] at hrun
    rcases hs : s.run env w with ⟨r, w₁⟩
    rw [hs] at hrun
    cases r with
    | ok b => exact ih b (h.2 b) hrun
    | error f => simp at hrun
  | draw k ih => exact ih (env.id w.ids) (h (env.id w.ids)) hrun
  | clock k ih => exact ih (env.time w.ticks) (h (env.time w.ticks)) hrun

/-- What every step of a body keeps, and the others with it, holds when the body ends. -/
theorem Within.kept {ι G : Type} {L : Ledger S ι G} {i : ι} {F : Footprint S}
    {P : G → Local S → S.Db → Prop} {Q : α → G → Local S → S.Db → Prop}
    (hexec : ∀ {γ : Type} (g : G) (own : Local S) (db : S.Db) (l : S.Label) (e : Effect S γ),
      F.Covers e.writes (own.view db) → P g own db →
        P (L.note g (.exec l) (own.view db) db db) (own.add e) db)
    (hheld : ∀ g own db db', own.Held db db' → P g own db → P g own db')
    (hQ : ∀ a g own db, P g own db → Q a g own db) {b : Tx S α} (hb : b.Within F) :
    ∀ {g own db}, P g own db → b.Kept L i Q g own db := by
  induction b with
  | ret a => intro g own db h; exact hQ a g own db h
  | throw e => intro g own db _; trivial
  | stmt s k ih =>
    intro g own db h db' hn e he
    exact ih e.result (hb.2 e.result) (hexec _ _ _ _ e (hb.1 _ e he) (hheld _ _ _ _ hn.1 h))
  | draw k ih => intro g own db h x; exact ih x (hb x) h
  | clock k ih => intro g own db h t; exact ih t (hb t) h

/-! ## Exceptions -/

/-- What the body throws, its own exceptions and those of its statements, passes the test. -/
def Raises (p : S.Error → Prop) : Tx S α → Prop
  | .ret _ => True
  | .throw e => p e
  | .stmt _ k => (∀ f, p (S.raise f)) ∧ ∀ b, (k b).Raises p
  | .draw k => ∀ i, (k i).Raises p
  | .clock k => ∀ t, (k t).Raises p

variable {q : S.Error → Prop}

theorem Raises.bind {p : Tx S α} {f : α → Tx S β} (hp : p.Raises q) (hf : ∀ a, (f a).Raises q) :
    (p >>= f).Raises q := by
  induction p with
  | ret a => exact hf a
  | throw e => exact hp
  | stmt s k ih => exact ⟨hp.1, fun b => ih b (hp.2 b)⟩
  | draw k ih => exact fun i => ih i (hp i)
  | clock k ih => exact fun t => ih t (hp t)

theorem raises_exec (h : ∀ f, q (S.raise f)) (s : Stmt S α) : (Tx.exec s).Raises q := ⟨h, fun _ => trivial⟩

theorem Raises.run {b : Tx S α} (hb : b.Raises q) {env : Env S} {w w' : World S} {e : S.Error}
    (h : b.run env w = (.error e, w')) : q e := by
  induction b generalizing w with
  | ret a => simp at h
  | throw e' =>
    obtain ⟨rfl, rfl⟩ : e' = e ∧ w = w' := by simpa using h
    exact hb
  | stmt s k ih =>
    simp only [Tx.run] at h
    rcases hs : s.run env w with ⟨r, w₁⟩
    rw [hs] at h
    cases r with
    | ok b => exact ih b (hb.2 b) h
    | error f =>
      obtain ⟨rfl, rfl⟩ : S.raise f = e ∧ w₁ = w' := by simpa using h
      exact hb.1 f
  | draw k ih => exact ih (env.id w.ids) (hb (env.id w.ids)) h
  | clock k ih => exact ih (env.time w.ticks) (hb (env.time w.ticks)) h

/-- A body throws in its first part, or after it. -/
theorem run_bind_error {p : Tx S α} {f : α → Tx S β} {env : Env S} {w w' : World S} {e : S.Error}
    (h : (p >>= f).run env w = (.error e, w')) :
    p.run env w = (.error e, w') ∨ ∃ a w₁, p.run env w = (.ok a, w₁) ∧ (f a).run env w₁ = (.error e, w') := by
  rw [run_bind] at h
  rcases hp : p.run env w with ⟨r, w₁⟩
  rw [hp] at h
  cases r with
  | ok a => exact .inr ⟨a, w₁, rfl, h⟩
  | error e' =>
    obtain ⟨rfl, rfl⟩ : e' = e ∧ w₁ = w' := by simpa using h
    exact .inl rfl

end Tx

namespace Call

variable {env : Env S} {w : World S} {ok : α → World S → Prop} {err : S.Error → World S → Prop}

theorem ends_auto {b : Tx S α} (hok : ∀ a w', b.run env w = (.ok a, w') → ok a w')
    (herr : ∀ e w', b.run env w = (.error e, w') → err e w') : (auto b).Ends env w ok err := by
  unfold Ends
  rw [run_auto]
  rcases hr : b.run env w with ⟨r, w'⟩
  cases r with
  | ok a => exact hok a w' hr
  | error e => exact herr e w' hr

/-- A transaction ends with what its body throws, or its commit fails. -/
theorem ends_body {l : S.Label} {b : Tx S α}
    (hok : ∀ a w₁ w', b.run env w = (.ok a, w₁) → w'.db = w₁.db → ok a w')
    (herr : ∀ e w₁ w', b.run env w = (.error e, w₁) → w'.db = w.db → err e w')
    (hcommit : ∀ f w', w'.db = w.db → err (S.raise f) w') : (transaction l b).Ends env w ok err := by
  unfold Ends
  rw [run_transaction]
  rcases hb : b.run env w with ⟨r, w₁⟩
  cases r with
  | ok a =>
    simp only [close]
    cases hfails : env.fails w₁.stmts with
    | some f => exact hcommit f _ rfl
    | none => exact hok a w₁ _ hb rfl
  | error e => exact herr e w₁ _ hb rfl

end Call
end Sql
