import Kurul.Sql.Evolution

/-!
# Kurul.Sql.Limits

Sessions that keep to rules of their own among others: how each may change a row, and what it may
publish.

* `Call.Limited`        — the proof obligation for one call, statement by statement.
* `Config.Limited.step` — then every step is within the limits of the session that takes it,
* `Config.Limited.run`  — at every point of every run.
-/

namespace Sql

variable {S : Sig} {ι α β : Type}

structure Limits (S : Sig) where
  /-- What is always true of the committed rows. -/
  sees : S.Db → Prop
  evolution : Evolution S
  tells : S.Event → Prop

/-- Each statement of the call stays within the limits, on whatever rows it finds; `Q` of the answer. -/
def Call.Limited (L : Limits S) (Q : α → Prop) : Call S α → Prop
  | .ret a => Q a
  | .throw _ => True
  | .stmt s k =>
    (∀ db e, L.sees db → s.eval db = .ok e →
      L.evolution.footprint.Covers e.writes db ∧ (k (.ok e.result)).Limited L Q) ∧
    ∀ x, (k (.error x)).Limited L Q
  | .tx _ b k => b.Within L.evolution.footprint ∧ ∀ r, (k r).Limited L Q
  | .draw k => ∀ i, (k i).Limited L Q
  | .clock k => ∀ t, (k t).Limited L Q
  | .emit e k => L.tells e ∧ k.Limited L Q

namespace Call

variable {L : Limits S} {Q : α → Prop} {Q' : β → Prop}

theorem Limited.bind {p : Call S α} {f : α → Call S β} (hp : p.Limited L Q)
    (hf : ∀ a, Q a → (f a).Limited L Q') : (p >>= f).Limited L Q' := by
  induction p with
  | ret a => exact hf a hp
  | throw e => trivial
  | stmt s k ih =>
    exact ⟨fun db e hsees he => ⟨(hp.1 db e hsees he).1, ih _ (hp.1 db e hsees he).2⟩, fun x => ih _ (hp.2 x)⟩
  | tx l b k ih => exact ⟨hp.1, fun r => ih r (hp.2 r)⟩
  | draw k ih => exact fun i => ih i (hp i)
  | clock k ih => exact fun t => ih t (hp t)
  | emit e k ih => exact ⟨hp.1, ih hp.2⟩

theorem Limited.mono {Q' : α → Prop} {p : Call S α} (hp : p.Limited L Q) (h : ∀ a, Q a → Q' a) :
    p.Limited L Q' := by
  induction p with
  | ret a => exact h a hp
  | throw e => trivial
  | stmt s k ih =>
    exact ⟨fun db e hsees he => ⟨(hp.1 db e hsees he).1, ih _ (hp.1 db e hsees he).2⟩, fun x => ih _ (hp.2 x)⟩
  | tx l b k ih => exact ⟨hp.1, fun r => ih r (hp.2 r)⟩
  | draw k ih => exact fun i => ih i (hp i)
  | clock k ih => exact fun t => ih t (hp t)
  | emit e k ih => exact ⟨hp.1, ih hp.2⟩

/-- A caught exception goes on with its handler. -/
theorem Limited.tryCatch {p : Call S α} {f : S.Error → Call S α} (hp : p.Limited L Q)
    (hf : ∀ e, (f e).Limited L Q) : (p.tryCatch f).Limited L Q := by
  induction p with
  | ret a => exact hp
  | throw e => exact hf e
  | stmt s k ih =>
    exact ⟨fun db e hsees he => ⟨(hp.1 db e hsees he).1, ih _ (hp.1 db e hsees he).2⟩, fun x => ih _ (hp.2 x)⟩
  | tx l b k ih => exact ⟨hp.1, fun r => ih r (hp.2 r)⟩
  | draw k ih => exact fun i => ih i (hp i)
  | clock k ih => exact fun t => ih t (hp t)
  | emit e k ih => exact ⟨hp.1, ih hp.2⟩

theorem limited_publish {e : S.Event} (h : L.tells e) :
    (Call.publish e).Limited L fun _ => True := ⟨h, trivial⟩

end Call

namespace Tx

variable {L : Limits S}

theorem Within.transaction {b : Tx S α} {l : S.Label} (hb : b.Within L.evolution.footprint) :
    (Call.transaction l b).Limited L fun _ => True := by
  refine ⟨hb, fun r => ?_⟩
  cases r <;> trivial

/-- Statements that commit one by one. -/
theorem Within.auto {b : Tx S α} (hb : b.Within L.evolution.footprint) :
    (Call.auto b).Limited L fun _ => True := by
  induction b with
  | ret a => trivial
  | throw e => trivial
  | stmt s k ih =>
    simp only [Call.auto, Call.Limited]
    exact ⟨fun db e _ he => ⟨hb.1 db e he, ih _ (hb.2 _)⟩, fun _ => trivial⟩
  | draw k ih => exact fun i => ih i (hb i)
  | clock k ih => exact fun t => ih t (hb t)

end Tx

/-! ## Sessions -/

/-- What is left of a session is limited, and so is what it has written and not committed. -/
def Session.Limited (L : Limits S) : Session S → S.Db → Prop
  | .call c, _ => c.Limited L fun _ => True
  | .inTx _ b k own, db =>
    b.Within L.evolution.footprint ∧ (∀ r, (k r).Limited L fun _ => True) ∧
      L.evolution.footprint.Covers own.delta db

namespace Session

variable {L : Limits S} {s s' : Session S} {db db' : S.Db}

/-- Others leave alone what the session has locked. -/
theorem Limited.held (h : s.Limited L db) (hheld : s.own.Held db db') : s.Limited L db' := by
  cases s with
  | call c => exact h
  | inTx l b k own =>
    refine ⟨h.1, h.2.1, fun x hx => ?_⟩
    rw [hheld.wrote (List.mem_map_of_mem hx)]
    exact h.2.2 x hx

theorem Step.limited {free : List (Lock S.Key) → Prop} {a : Act S} (hs : Session.Step free db s a db' s')
    (hsees : L.sees db) (h : s.Limited L db) :
    L.evolution.Holds db db' ∧ (∀ e, a = .publish e → L.tells e) ∧ s'.Limited L db' := by
  have hrefl := Evolution.Holds.refl (X := L.evolution) db
  cases hs with
  | auto he hf =>
    obtain ⟨hcovers, hrest⟩ := h.1 db _ hsees he
    exact ⟨Evolution.holds_of_covers hcovers, fun e he => (by cases he), hrest⟩
  | refused f => exact ⟨hrefl, fun e he => (by cases he), h.2 _⟩
  | draw x => exact ⟨hrefl, fun e he => (by cases he), h x⟩
  | clock t => exact ⟨hrefl, fun e he => (by cases he), h t⟩
  | emit => exact ⟨hrefl, fun e he => (by cases he; exact h.1), h.2⟩
  | begin => exact ⟨hrefl, fun e he => (by cases he), h.1, h.2, Footprint.Covers.nil db⟩
  | stmt he hf =>
    exact ⟨hrefl, fun e he => (by cases he), h.1.2 _, h.2.1, h.2.2.append (h.1.1 _ _ he)⟩
  | txDraw x => exact ⟨hrefl, fun e he => (by cases he), h.1 x, h.2⟩
  | txClock t => exact ⟨hrefl, fun e he => (by cases he), h.1 t, h.2⟩
  | commit => exact ⟨Evolution.holds_of_covers h.2.2, fun e he => (by cases he), h.2.1 _⟩
  | throw => exact ⟨hrefl, fun e he => (by cases he), h.2.1 _⟩
  | abort f => exact ⟨hrefl, fun e he => (by cases he), h.2.1 _⟩

end Session

/-! ## The rule -/

namespace Config

variable {L : ι → Limits S} {σ₀ σ σ' : Config S ι}

structure Limited (L : ι → Limits S) (σ : Config S ι) : Prop where
  sees : ∀ i, (L i).sees σ.db
  pool : ∀ i, (σ.pool i).Limited (L i) σ.db
  apart : ∀ i j, i ≠ j → Compatible (σ.pool i).locks (σ.pool j).locks

theorem Limited.start {db : S.Db} {calls : ι → Call S Unit} (hsees : ∀ i, (L i).sees db)
    (h : ∀ i, (calls i).Limited (L i) fun _ => True) : (Config.start db calls).Limited L :=
  ⟨hsees, h, fun _ _ _ a ha => by cases ha⟩

variable [DecidableEq ι]

/-- As long as nobody does what another counts on not to happen. -/
theorem Limited.step (hstable : ∀ i j {db db' : S.Db}, (L i).evolution.Holds db db' →
      (L j).sees db → (L j).sees db') {i : ι} {a : Act S} (h : σ.Limited L) (hs : σ.Step i a σ') :
    σ'.Limited L ∧ (L i).evolution.Holds σ.db σ'.db ∧ ∀ e, a = .publish e → (L i).tells e := by
  obtain ⟨s', hstep, hpool⟩ := hs
  obtain ⟨hholds, htells, hlimited⟩ := hstep.limited (h.sees i) (h.pool i)
  have hself : σ'.pool i = s' := by rw [hpool]; exact Function.update_self i s' σ.pool
  have hother : ∀ j, j ≠ i → σ'.pool j = σ.pool j := fun j hj => by
    rw [hpool]
    exact Function.update_of_ne hj s' σ.pool
  have hapart : ∀ j, j ≠ i → Compatible s'.locks (σ.pool j).locks := fun j hj =>
    hstep.compatible (fun ks hf => hf j hj) (h.apart i j hj.symm)
  have hheld : ∀ j, j ≠ i → (σ.pool j).own.Held σ.db σ'.db := by
    intro j hj
    rcases hstep.locked with heq | ⟨ks, ws, heq, hws, hks⟩
    · rw [heq]
      exact Local.held_refl _ _
    · have hlocks : (σ.pool j).own.locks = (σ.pool j).locks := by cases σ.pool j <;> rfl
      rw [heq]
      refine Local.held_of_compatible hws ?_ σ.db
      rw [hlocks]
      rcases hks with hfree | rfl
      · exact hfree j hj
      · exact h.apart i j hj.symm
  refine ⟨⟨fun j => hstable i j hholds (h.sees j), fun j => ?_, fun j k hjk => ?_⟩, hholds, htells⟩
  · by_cases hj : j = i
    · subst hj
      rw [hself]
      exact hlimited
    · rw [hother j hj]
      exact (h.pool j).held (hheld j hj)
  · by_cases hj : j = i
    · subst hj
      rw [hself, hother k hjk.symm]
      exact hapart k hjk.symm
    · by_cases hk : k = i
      · subst hk
        rw [hself, hother j hj]
        exact (hapart j hj).symm
      · rw [hother j hj, hother k hk]
        exact h.apart j k hjk

variable {Ok : Config S ι → ι → Act S → Prop}

theorem Limited.run (hstable : ∀ i j {db db' : S.Db}, (L i).evolution.Holds db db' →
      (L j).sees db → (L j).sees db') (h : σ₀.Limited L) (hrun : Run Ok σ₀ σ) : σ.Limited L := by
  induction hrun with
  | refl => exact h
  | step _ _ hs ih => exact (ih.step hstable hs).1

/-- From beginning to end, by rules that allow what each session's allow. -/
theorem Limited.holds {X : Evolution S} (hX : ∀ i {db db' : S.Db}, (L i).evolution.Holds db db' →
      X.Holds db db') (hstable : ∀ i j {db db' : S.Db}, (L i).evolution.Holds db db' →
      (L j).sees db → (L j).sees db') (h : σ₀.Limited L) (hrun : Run Ok σ₀ σ) : X.Holds σ₀.db σ.db := by
  induction hrun with
  | refl => exact Evolution.Holds.refl _
  | step hprev _ hs ih => exact ih.trans (hX _ ((h.run hstable hprev).step hstable hs).2.1)

end Config
end Sql
