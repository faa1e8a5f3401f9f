import Mathlib.Data.Fintype.Pi
import Kurul.Sql.ReadCommitted

/-!
# Kurul.Sql.Schedule

Runs that can be computed: a schedule names, step by step, the session that moves and the
identifier it draws if it draws one.

* `Session.advance` — the step a session takes when it is let on, unless a lock is in its way.
* `Config.schedule` — the configuration a schedule leads to.
* `run_schedule`    — a schedule that goes through is a run.
-/

namespace Sql

variable {S : Sig}

instance {K : Type} [DecidableEq K] (a b : Lock K) : Decidable (a.Conflicts b) :=
  inferInstanceAs (Decidable (a.key = b.key ∧ a.mode.conflicts b.mode = true))

instance {K : Type} [DecidableEq K] (ks ks' : List (Lock K)) : Decidable (Compatible ks ks') :=
  inferInstanceAs (Decidable (∀ a ∈ ks, ∀ b ∈ ks', ¬ a.Conflicts b))

namespace Session

/-- The next step of a session: refused statements go on as their exception, a statement whose
locks are taken waits. A call that has ended takes none. -/
def advance (free : List (Lock S.Key) → Bool) (id : S.Id) (time : S.Time) (db : S.Db) :
    Session S → Option (Act S × S.Db × Session S)
  | .call (.ret _) => none
  | .call (.throw _) => none
  | .call (.stmt s k) =>
    match s.eval db with
    | .ok e =>
      if free e.needs then
        some (.exec s.label, db.applyAll e.writes, .call (k (.ok e.result)))
      else none
    | .error f => some (.quiet, db, .call (k (.error (S.raise f))))
  | .call (.tx l b k) => some (.quiet, db, .inTx l b k .empty)
  | .call (.draw k) => some (.quiet, db, .call (k id))
  | .call (.clock k) => some (.quiet, db, .call (k time))
  | .call (.emit e k) => some (.publish e, db, .call k)
  | .inTx l (.ret b) c own => some (.commit l, own.view db, .call (c (.ok b)))
  | .inTx _ (.throw e) c _ => some (.quiet, db, .call (c (.error e)))
  | .inTx l (.stmt s k) c own =>
    match s.eval (own.view db) with
    | .ok e =>
      if free e.needs then some (.exec s.label, db, .inTx l (k e.result) c (own.add e)) else none
    | .error f => some (.quiet, db, .call (c (.error (S.raise f))))
  | .inTx l (.draw k) c own => some (.quiet, db, .inTx l (k id) c own)
  | .inTx l (.clock k) c own => some (.quiet, db, .inTx l (k time) c own)

theorem step_of_advance {free : List (Lock S.Key) → Bool} {id : S.Id} {time : S.Time}
    {db db' : S.Db} {s s' : Session S} {a : Act S}
    (h : s.advance free id time db = some (a, db', s')) :
    Session.Step (fun ks => free ks = true) db s a db' s' := by
  cases s with
  | call c =>
    cases c with
    | ret a => cases h
    | throw e => cases h
    | stmt s k =>
      simp only [advance] at h
      split at h
      · rename_i e he
        split at h
        · rename_i hf
          cases h
          exact .auto he hf
        · cases h
      · cases h
        exact .refused _
    | tx l b k => cases h; exact .begin
    | draw k => cases h; exact .draw _
    | clock k => cases h; exact .clock _
    | emit e k => cases h; exact .emit
  | inTx l b c own =>
    cases b with
    | ret b => cases h; exact .commit
    | throw e => cases h; exact .throw
    | stmt s k =>
      simp only [advance] at h
      split at h
      · rename_i e he
        split at h
        · rename_i hf
          cases h
          exact .stmt he hf
        · cases h
      · cases h
        exact .abort _
    | draw k => cases h; exact .txDraw _
    | clock k => cases h; exact .txClock _

theorem Step.mono {free free' : List (Lock S.Key) → Prop} (hf : ∀ ks, free ks → free' ks)
    {db db' : S.Db} {s s' : Session S} {a : Act S} (h : Session.Step free db s a db' s') :
    Session.Step free' db s a db' s' := by
  cases h with
  | auto he h => exact .auto he (hf _ h)
  | refused f => exact .refused f
  | draw i => exact .draw i
  | clock t => exact .clock t
  | emit => exact .emit
  | begin => exact .begin
  | stmt he h => exact .stmt he (hf _ h)
  | txDraw i => exact .txDraw i
  | txClock t => exact .txClock t
  | commit => exact .commit
  | throw => exact .throw
  | abort f => exact .abort f

end Session

/-- Session `i` has returned. -/
def Config.returned {ι : Type} (σ : Config S ι) (i : ι) : Bool :=
  match σ.pool i with
  | .call (.ret _) => true
  | _ => false

variable {ι : Type} [DecidableEq ι] [Fintype ι]

/-- Session `i` takes its next step, at time `time`. -/
def Config.advance (time : S.Time) (σ : Config S ι) (i : ι) (id : S.Id) :
    Option (Act S × Config S ι) :=
  ((σ.pool i).advance (fun ks => decide (∀ j, j ≠ i → Compatible ks (σ.pool j).locks)) id time
    σ.db).map fun r => (r.1, ⟨r.2.1, Function.update σ.pool i r.2.2⟩)

theorem Config.step_of_advance {time : S.Time} {σ σ' : Config S ι} {i : ι} {id : S.Id} {a : Act S}
    (h : σ.advance time i id = some (a, σ')) : σ.Step i a σ' := by
  obtain ⟨⟨a', db', s'⟩, hs, heq⟩ := Option.map_eq_some_iff.mp h
  cases heq
  exact ⟨s', (Session.step_of_advance hs).mono fun ks hks => of_decide_eq_true hks, rfl⟩

/-- Where a schedule leads, if every session it names can take its step and the step passes a
test. -/
def Config.schedule (time : S.Time) (ok : Config S ι → ι → Act S → Bool) :
    List (ι × S.Id) → Config S ι → Option (Config S ι)
  | [], σ => some σ
  | (i, id) :: rest, σ =>
    match σ.advance time i id with
    | some (a, σ') => if ok σ i a then schedule time ok rest σ' else none
    | none => none

/-- A schedule that goes through is a run. -/
theorem run_schedule {Ok : Config S ι → ι → Act S → Prop} {ok : Config S ι → ι → Act S → Bool}
    (hok : ∀ σ i a, ok σ i a = true → Ok σ i a) {time : S.Time} {σ₀ : Config S ι} :
    ∀ {sched : List (ι × S.Id)} {σ σ' : Config S ι}, Run Ok σ₀ σ →
      σ.schedule time ok sched = some σ' → Run Ok σ₀ σ' := by
  intro sched
  induction sched with
  | nil =>
    intro σ σ' hrun h
    cases h
    exact hrun
  | cons p rest ih =>
    intro σ σ' hrun h
    simp only [Config.schedule] at h
    split at h
    · rename_i a σ₁ hstep
      split at h
      · rename_i ha
        exact ih (hrun.step (hok _ _ _ ha) (Config.step_of_advance hstep)) h
      · cases h
    · cases h

end Sql
