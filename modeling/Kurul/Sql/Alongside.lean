import Kurul.Sql.Tenancy

/-!
# Kurul.Sql.Alongside

The sessions of several tenants, interleaved statement by statement.

* `Session.Step.stays` — a step of a session that stays with its tenant.
* `Tenancy.Run.only`   — what one tenant's sessions do in a run of all is a run of theirs alone.
* `Tenancy.Run.lift`   — what they do alone they can do among the others, who notice nothing.
-/

namespace Sql

variable {S : Sig} {τ : Type} {T : Tenancy S τ} {t : τ}

/-! ## One session -/

/-- If an identifier was drawn, then such a one. -/
def Session.Draws (p : S.Id → Prop) : Session S → Session S → Prop
  | .call (.draw k), s' => ∃ i, p i ∧ s' = .call (k i)
  | .inTx l (.draw k) c own, s' => ∃ i, p i ∧ s' = .inTx l (k i) c own
  | _, _ => True

/-- What the session is still to do stays with the tenant, and so has what it has open. -/
def Session.Stays (T : Tenancy S τ) (t : τ) : Session S → Prop
  | .call c => c.Stays T t fun _ => True
  | .inTx _ b k own => (∀ x ∈ own.delta, T.Owns t x) ∧ (∀ l ∈ own.locks, T.MayLock t l) ∧
    (b.Stays T t fun b => (k (.ok b)).Stays T t fun _ => True) ∧
    ∀ x, (k (.error x)).Stays T t fun _ => True

theorem Session.Stays.locks {s : Session S} (h : s.Stays T t) : ∀ l ∈ s.locks, T.MayLock t l := by
  cases s with
  | call c => exact fun l hl => by cases hl
  | inTx l b k own => exact h.2.1

section Step

variable {free free' : List (Lock S.Key) → Prop} {db db' : S.Db} {s s' : Session S} {a : Act S}

/-- A step of a session that stays with its tenant: it writes rows of the tenant, publishes what is the
tenant's to publish, and stays. -/
theorem Session.Step.stays (hs : Session.Step free db s a db' s') (hd : s.Draws (T.draws t) s')
    (h : s.Stays T t) (hdb : T.Lawful db) :
    s'.Stays T t ∧ (∃ ws, (∀ x ∈ ws, T.Owns t x) ∧ db' = db.applyAll ws) ∧
      ∀ e, a = .publish e → T.hears t e := by
  have hnone : ∃ ws, (∀ x ∈ ws, T.Owns t x) ∧ db = db.applyAll ws := ⟨[], by simp, rfl⟩
  cases hs with
  | auto he hf =>
    obtain ⟨hkeeps, hk⟩ := (h.1 db hdb).2 _ he
    exact ⟨hk, ⟨_, hkeeps.writes, rfl⟩, nofun⟩
  | refused f => exact ⟨h.2 _, hnone, nofun⟩
  | draw i =>
    obtain ⟨j, hj, heq⟩ := hd
    exact ⟨heq ▸ h j hj, hnone, nofun⟩
  | clock x => exact ⟨h x, hnone, nofun⟩
  | emit => exact ⟨h.2, hnone, fun e he => by cases he; exact h.1⟩
  | begin => exact ⟨⟨by simp, by simp, h⟩, hnone, nofun⟩
  | @stmt _ _ _ _ _ _ own e he hf =>
    obtain ⟨hdelta, hlocks, hb, hk⟩ := h
    obtain ⟨hkeeps, hrest⟩ := (hb _ (hdb.applyAll hdelta)).2 _ he
    refine ⟨⟨fun x hx => ?_, fun l hl => ?_, hrest, hk⟩, hnone, nofun⟩
    · exact (List.mem_append.mp hx).elim (hdelta x) (hkeeps.writes x)
    · exact (List.mem_append.mp hl).elim (hlocks l) (hkeeps.needs l)
  | txDraw i =>
    obtain ⟨j, hj, heq⟩ := hd
    exact ⟨heq ▸ ⟨h.1, h.2.1, h.2.2.1 j hj, h.2.2.2⟩, hnone, nofun⟩
  | txClock x => exact ⟨⟨h.1, h.2.1, h.2.2.1 x, h.2.2.2⟩, hnone, nofun⟩
  | commit => exact ⟨h.2.2.1, ⟨_, h.1, rfl⟩, nofun⟩
  | throw => exact ⟨h.2.2.2 _, hnone, nofun⟩
  | abort f => exact ⟨h.2.2.2 _, hnone, nofun⟩

/-- What a session does, it does on the tenant's part of the rows. -/
theorem Session.Step.view (hs : Session.Step free db s a db' s') (h : s.Stays T t)
    (hdb : T.Lawful db) (hfree : ∀ ks, (∀ l ∈ ks, T.MayLock t l) → free ks → free' ks) :
    Session.Step free' (T.view t db) s a (T.view t db') s' := by
  cases hs with
  | auto he hf =>
    obtain ⟨heq, hok⟩ := h.1 db hdb
    have hkeeps := (hok _ he).1
    rw [Tenancy.view_applyAll hkeeps.writes]
    exact .auto (heq.trans he) (hfree _ hkeeps.needs hf)
  | refused f => exact .refused f
  | draw i => exact .draw i
  | clock x => exact .clock x
  | emit => exact .emit
  | begin => exact .begin
  | stmt he hf =>
    obtain ⟨hdelta, _, hb, _⟩ := h
    obtain ⟨heq, hok⟩ := hb _ (hdb.applyAll hdelta)
    refine .stmt ?_ (hfree _ (hok _ he).1.needs hf)
    rw [Local.view, ← Tenancy.view_applyAll hdelta]
    exact heq.trans he
  | txDraw i => exact .txDraw i
  | txClock x => exact .txClock x
  | commit =>
    rw [Local.view, Tenancy.view_applyAll h.1]
    exact .commit
  | throw => exact .throw
  | abort f => exact .abort f

/-- And what it does on that part, it does on the whole. -/
theorem Session.Step.of_view {part part' : S.Db} (hs : Session.Step free part s a part' s')
    (hpart : part = T.view t db) (h : s.Stays T t) (hdb : T.Lawful db)
    (hfree : ∀ ks, (∀ l ∈ ks, T.MayLock t l) → free ks → free' ks) :
    ∃ db', Session.Step free' db s a db' s' ∧ T.view t db' = part' := by
  cases hs with
  | auto he hf =>
    obtain ⟨heq, hok⟩ := h.1 db hdb
    rw [hpart, heq] at he
    have hkeeps := (hok _ he).1
    exact ⟨_, .auto he (hfree _ hkeeps.needs hf), by rw [hpart, Tenancy.view_applyAll hkeeps.writes]⟩
  | refused f => exact ⟨db, .refused f, hpart.symm⟩
  | draw i => exact ⟨db, .draw i, hpart.symm⟩
  | clock x => exact ⟨db, .clock x, hpart.symm⟩
  | emit => exact ⟨db, .emit, hpart.symm⟩
  | begin => exact ⟨db, .begin, hpart.symm⟩
  | stmt he hf =>
    obtain ⟨hdelta, _, hb, _⟩ := h
    obtain ⟨heq, hok⟩ := hb _ (hdb.applyAll hdelta)
    rw [hpart, Local.view, ← Tenancy.view_applyAll hdelta] at he
    have he' := heq.symm.trans he
    exact ⟨db, .stmt he' (hfree _ (hok _ he').1.needs hf), hpart.symm⟩
  | txDraw i => exact ⟨db, .txDraw i, hpart.symm⟩
  | txClock x => exact ⟨db, .txClock x, hpart.symm⟩
  | commit => exact ⟨_, .commit, by rw [hpart, Local.view, Local.view, Tenancy.view_applyAll h.1]⟩
  | throw => exact ⟨db, .throw, hpart.symm⟩
  | abort f => exact ⟨db, .abort f, hpart.symm⟩

end Step

/-! ## All the sessions -/

section Runs

variable {ι : Type} [DecidableEq ι] {owner : ι → τ} {σ σ' σ₀ : Config S ι} {i : ι} {a : Act S}
  {log : List (ι × Act S)}

/-- The sessions of one tenant, over its part of the rows. -/
def Config.only (T : Tenancy S τ) (owner : ι → τ) (σ : Config S ι) (t : τ) :
    Config S {i // owner i = t} :=
  ⟨T.view t σ.db, fun i => σ.pool i⟩

/-- Every session stays with its tenant, and the rows are as they should be. -/
structure Config.Stays (T : Tenancy S τ) (owner : ι → τ) (σ : Config S ι) : Prop where
  lawful : T.Lawful σ.db
  session : ∀ i, (σ.pool i).Stays T (owner i)

/-- A step of the whole, with the identifiers generated for whom they are for. -/
structure Tenancy.Step (T : Tenancy S τ) (owner : ι → τ) (σ : Config S ι) (i : ι) (a : Act S)
    (σ' : Config S ι) : Prop where
  step : σ.Step i a σ'
  draws : (σ.pool i).Draws (T.draws (owner i)) (σ'.pool i)

/-- A run, with who did what in it. -/
inductive Tenancy.Run (T : Tenancy S τ) (owner : ι → τ) (σ₀ : Config S ι) :
    Config S ι → List (ι × Act S) → Prop where
  | refl : Tenancy.Run T owner σ₀ σ₀ []
  | step {σ σ' : Config S ι} {log : List (ι × Act S)} {i : ι} {a : Act S}
      (h : Tenancy.Run T owner σ₀ σ log) (hs : T.Step owner σ i a σ') :
      Tenancy.Run T owner σ₀ σ' (log ++ [(i, a)])

/-- One more step of one session. -/
theorem Tenancy.Run.session {db' : S.Db} {s s' : Session S} (h : Tenancy.Run T owner σ₀ σ log)
    (hi : σ.pool i = s) (hs : Session.Step (σ.Free i) σ.db s a db' s') (hd : s.Draws (T.draws (owner i)) s') :
    Tenancy.Run T owner σ₀ ⟨db', Function.update σ.pool i s'⟩ (log ++ [(i, a)]) := by
  subst hi
  refine h.step ⟨⟨s', hs, rfl⟩, ?_⟩
  show (σ.pool i).Draws _ (Function.update σ.pool i s' i)
  rwa [Function.update_self]

theorem Tenancy.Run.trans {σ'' : Config S ι} {log' : List (ι × Act S)} (h : Tenancy.Run T owner σ₀ σ log)
    (h' : Tenancy.Run T owner σ σ'' log') : Tenancy.Run T owner σ₀ σ'' (log ++ log') := by
  induction h' with
  | refl => rwa [List.append_nil]
  | step _ hs ih =>
    rw [← List.append_assoc]
    exact ih.step hs

theorem Tenancy.Step.stays (hs : T.Step owner σ i a σ') (h : σ.Stays T owner) :
    σ'.Stays T owner ∧ (∃ ws, (∀ x ∈ ws, T.Owns (owner i) x) ∧ σ'.db = σ.db.applyAll ws) ∧
      ∀ e, a = .publish e → T.hears (owner i) e := by
  obtain ⟨⟨s', hstep, hpool⟩, hdraws⟩ := hs
  rw [hpool, Function.update_self] at hdraws
  obtain ⟨hstays, ⟨ws, hws, hdb⟩, hpub⟩ := hstep.stays hdraws (h.session i) h.lawful
  refine ⟨⟨hdb ▸ h.lawful.applyAll hws, fun j => ?_⟩, ⟨ws, hws, hdb⟩, hpub⟩
  rw [hpool]
  by_cases hj : j = i
  · subst hj
    rw [Function.update_self]
    exact hstays
  · rw [Function.update_of_ne hj]
    exact h.session j

theorem Tenancy.Run.stays (h : T.Run owner σ₀ σ log) (h₀ : σ₀.Stays T owner) : σ.Stays T owner := by
  induction h with
  | refl => exact h₀
  | step _ hs ih => exact (hs.stays ih).1

/-- What was published was its publisher's to publish. -/
theorem Tenancy.Run.hears (h : T.Run owner σ₀ σ log) (h₀ : σ₀.Stays T owner) :
    ∀ i e, (i, .publish e) ∈ log → T.hears (owner i) e := by
  induction h with
  | refl => exact fun i e he => by cases he
  | step hrun hs ih =>
    intro j e he
    rcases List.mem_append.mp he with he | he
    · exact ih j e he
    · cases List.mem_singleton.mp he
      exact (hs.stays (hrun.stays h₀)).2.2 e rfl

/-- A row nobody holds who has done anything stays. -/
theorem Tenancy.Run.others (h : T.Run owner σ₀ σ log) (h₀ : σ₀.Stays T owner) {k : S.Key}
    (hk : ∀ i a, (i, a) ∈ log → T.holds (owner i) k = false) : σ.db.get? k = σ₀.db.get? k := by
  induction h with
  | refl => rfl
  | @step σ σ' log i a hrun hs ih =>
    obtain ⟨_, ⟨ws, hws, hdb⟩, _⟩ := hs.stays (hrun.stays h₀)
    rw [hdb, Tenancy.get?_applyAll_of_not_holds (hk i a (by simp)) hws]
    exact ih fun j b hj => hk j b (List.mem_append_left _ hj)

/-! ### One tenant's sessions -/

omit [DecidableEq ι] in
/-- A session's locks are free among the sessions of its own tenant if they are free among all, -/
theorem Config.Free.only {ks : List (Lock S.Key)} {i : {i // owner i = t}} (h : σ.Free i ks) :
    (σ.only T owner t).Free i ks :=
  fun j hj => h j fun heq => hj (Subtype.ext heq)

omit [DecidableEq ι] in
/-- and free among all if they are free among those. -/
theorem Config.Free.of_only (hσ : σ.Stays T owner) {ks : List (Lock S.Key)} {i : {i // owner i = t}}
    (hks : ∀ l ∈ ks, T.MayLock t l) (h : (σ.only T owner t).Free i ks) : σ.Free i ks := by
  intro j hj
  by_cases hown : owner j = t
  · exact h ⟨j, hown⟩ fun heq => hj (congrArg Subtype.val heq)
  · exact Tenancy.compatible (fun heq => hown heq.symm) hks (hσ.session j).locks

theorem only_update {s' : Session S} (i : {i // owner i = t}) :
    (fun j : {i // owner i = t} => Function.update σ.pool i.1 s' j) =
      Function.update (fun j : {i // owner i = t} => σ.pool j) i s' := by
  funext j
  by_cases hj : j = i
  · subst hj
    simp
  · rw [Function.update_of_ne hj, Function.update_of_ne fun heq => hj (Subtype.ext heq)]

/-- A step of one of the tenant's sessions is a step of theirs alone. -/
theorem Tenancy.Step.only (hs : T.Step owner σ i a σ') (h : σ.Stays T owner) (hi : owner i = t) :
    T.Step (fun _ => t) (σ.only T owner t) ⟨i, hi⟩ a (σ'.only T owner t) := by
  subst hi
  obtain ⟨⟨s', hstep, hpool⟩, hdraws⟩ := hs
  refine ⟨⟨s', hstep.view (h.session i) h.lawful fun ks _ hf => hf.only, ?_⟩, hdraws⟩
  show (fun j : {j // owner j = owner i} => σ'.pool j) = _
  rw [hpool]
  exact only_update ⟨i, rfl⟩

/-- A step of another session is none. -/
theorem Tenancy.Step.only_of_ne (hs : T.Step owner σ i a σ') (h : σ.Stays T owner) (hi : owner i ≠ t) :
    σ'.only T owner t = σ.only T owner t := by
  obtain ⟨_, ⟨ws, hws, hdb⟩, _⟩ := hs.stays h
  obtain ⟨s', _, hpool⟩ := hs.step
  have hpools : ∀ j : {j // owner j = t}, σ'.pool j = σ.pool j := by
    intro j
    have hne : j.1 ≠ i := by
      rintro rfl
      exact hi j.2
    rw [hpool, Function.update_of_ne hne]
  simp only [Config.only, hdb, Tenancy.view_applyAll_of_ne hi hws, hpools]

variable [DecidableEq τ]

/-- The part of a log that is the tenant's sessions'. -/
def share (owner : ι → τ) (t : τ) (log : List (ι × Act S)) : List ({i // owner i = t} × Act S) :=
  log.filterMap fun x => if h : owner x.1 = t then some (⟨x.1, h⟩, x.2) else none

omit [DecidableEq ι] in
theorem share_append (l l' : List (ι × Act S)) :
    share owner t (l ++ l') = share owner t l ++ share owner t l' :=
  List.filterMap_append

/-- Whatever the others do, a tenant's sessions run as they would without them, over the tenant's
part of the rows. -/
theorem Tenancy.Run.only (h : T.Run owner σ₀ σ log) (h₀ : σ₀.Stays T owner) (t : τ) :
    T.Run (fun _ => t) (σ₀.only T owner t) (σ.only T owner t) (share owner t log) := by
  induction h with
  | refl => exact .refl
  | @step σ σ' log i a hrun hs ih =>
    have hσ := hrun.stays h₀
    rw [share_append]
    by_cases hi : owner i = t
    · have hone : share owner t [(i, a)] = [(⟨i, hi⟩, a)] := by simp [share, hi]
      rw [hone]
      exact ih.step (hs.only hσ hi)
    · have hnone : share owner t [(i, a)] = [] := by simp [share, hi]
      rw [hnone, List.append_nil, hs.only_of_ne hσ hi]
      exact ih

omit [DecidableEq τ] in
/-- A step of the tenant's sessions alone is one they can take among the others. -/
theorem Tenancy.Step.lift {part' : Config S {i // owner i = t}} {i : {i // owner i = t}}
    (hs : T.Step (fun _ => t) (σ.only T owner t) i a part') (h : σ.Stays T owner) :
    ∃ σ', T.Step owner σ i a σ' ∧ σ'.only T owner t = part' := by
  obtain ⟨i, rfl⟩ := i
  obtain ⟨⟨s', hstep, hpool⟩, hdraws⟩ := hs
  obtain ⟨db', hstep', hview⟩ := hstep.of_view rfl (h.session i) h.lawful
    fun ks hks hf => hf.of_only h hks
  refine ⟨⟨db', Function.update σ.pool i s'⟩, ⟨⟨s', hstep', rfl⟩, ?_⟩, ?_⟩
  · rw [hpool, Function.update_self] at hdraws
    show (σ.pool i).Draws (T.draws (owner i)) (Function.update σ.pool i s' i)
    rw [Function.update_self]
    exact hdraws
  · obtain ⟨part, pool⟩ := part'
    obtain rfl : T.view (owner i) db' = part := hview
    obtain rfl : pool = _ := hpool
    exact congrArg (Config.mk _) (only_update ⟨i, rfl⟩)

omit [DecidableEq τ] in
/-- What a tenant's sessions can do without the others they can do among them, whatever those have
open: nobody waits for another tenant. The others are left as they are. -/
theorem Tenancy.Run.lift {part : Config S {i // owner i = t}} {steps : List ({i // owner i = t} × Act S)}
    (h : T.Run (fun _ => t) (σ₀.only T owner t) part steps) (h₀ : σ₀.Stays T owner) :
    ∃ σ, T.Run owner σ₀ σ (steps.map fun x => (x.1.1, x.2)) ∧ σ.only T owner t = part ∧
      ∀ t', t' ≠ t → σ.only T owner t' = σ₀.only T owner t' := by
  induction h with
  | refl => exact ⟨σ₀, .refl, rfl, fun _ _ => rfl⟩
  | @step part part' steps i a _ hs ih =>
    obtain ⟨σ, hrun, rfl, hothers⟩ := ih
    have hσ := hrun.stays h₀
    obtain ⟨σ', hs', hpart⟩ := hs.lift hσ
    refine ⟨σ', ?_, hpart, fun t' ht' => ?_⟩
    · rw [List.map_append]
      exact hrun.step hs'
    · exact (hs'.only_of_ne hσ fun heq => ht' (heq.symm.trans i.2)).trans (hothers t' ht')

end Runs
end Sql
