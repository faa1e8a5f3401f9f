import Kurul.Sql.RelyGuarantee
import Kurul.Sql.Schedule

/-!
# Kurul.Sql.Announce

Calls that commit and then publish what they committed. The `COMMIT` and the publication are two
steps, and other sessions come between them.

* `Trace`          — a run, with what it has published, in order.
* `Session.Honest` — the session has one transaction, and publishes what that has committed.
* `Settled`        — the last word that was published is the fact, or the fact is still to be
  published.
* `Trace.settled`  — it holds for as long as nothing outdated is published last.
-/

namespace Sql

variable {S : Sig} {ι F : Type}

def Act.published : Act S → List S.Event
  | .publish e => [e]
  | _ => []

/-- A run whose steps all meet a condition, and what it has published. -/
inductive Trace [DecidableEq ι] (Ok : Config S ι → ι → Act S → Prop) (σ₀ : Config S ι) :
    Config S ι → List S.Event → Prop where
  | refl : Trace Ok σ₀ σ₀ []
  | step {σ σ' : Config S ι} {log : List S.Event} {i : ι} {a : Act S} (h : Trace Ok σ₀ σ log)
      (hok : Ok σ i a) (hs : σ.Step i a σ') : Trace Ok σ₀ σ' (log ++ a.published)

/-- A call that has ended. -/
def Call.Ended {α : Type} : Call S α → Prop
  | .ret _ => True
  | .throw _ => True
  | _ => False

/-- The event a session is about to publish. -/
def Session.announces : Session S → Option S.Event
  | .call (.emit e _) => some e
  | _ => none

theorem announces_of_ended {c : Call S Unit} (h : c.Ended) : (Session.call c).announces = none := by
  cases c with
  | emit e k => cases h
  | _ => rfl

/-- What others commit keeps this to be true of the fact; nothing more is promised. -/
def keeping (fact : S.Db → F) (I : F → Prop) : Protocol S Unit where
  Inv db := I (fact db)
  Rely _ _ _ := True
  Guar _ _ _ _ := True
  Cond _ _ _ := True
  guar_refl _ _ _ := trivial
  rely_refl _ _ := trivial
  rely_trans _ _ := trivial

variable {told : S.Event → F} {fact : S.Db → F} {I : F → Prop}

/-- What a body has to end with: once it has committed, its call publishes the fact as it is then,
and ends. -/
def Tells (told : S.Event → F) (fact : S.Db → F) (I : F → Prop) {β : Type}
    (k : Except S.Error β → Call S Unit) (b : β) (own : Local S) (_ : S.Db) : Prop :=
  ∃ e c, k (.ok b) = .emit e c ∧ c.Ended ∧ I (told e) ∧ ∀ db, fact (own.view db) = told e

def Session.Honest (told : S.Event → F) (fact : S.Db → F) (I : F → Prop) : Session S → Prop
  | .call (.tx _ b k) =>
    (∀ db, b.Safe (keeping fact I) () (Tells told fact I k) .empty db) ∧ ∀ x, (k (.error x)).Ended
  | .call (.emit e c) => c.Ended ∧ I (told e)
  | .call c => c.Ended
  | .inTx _ b k own =>
    (∀ db, b.Safe (keeping fact I) () (Tells told fact I k) own db) ∧ ∀ x, (k (.error x)).Ended

theorem honest_of_ended {c : Call S Unit} (h : c.Ended) :
    (Session.call c).Honest told fact I := by
  cases c with
  | ret a => trivial
  | throw e => trivial
  | _ => cases h

/-- A step of an honest session: it publishes what it was to publish, or it commits what it is to
publish next, or neither. -/
theorem Session.Step.honest {free : List (Lock S.Key) → Prop} {db db' : S.Db} {s s' : Session S}
    {a : Act S} (hs : Session.Step free db s a db' s') (hI : I (fact db))
    (h : s.Honest told fact I) :
    s'.Honest told fact I ∧
      ((∃ e, a = .publish e ∧ s.announces = some e ∧ s'.announces = none ∧ db' = db) ∨
        (∃ e, a.published = [] ∧ s.announces = none ∧ s'.announces = some e ∧ fact db' = told e ∧
          I (told e)) ∨
        (a.published = [] ∧ s.announces = none ∧ s'.announces = none ∧ db' = db)) := by
  have hlater : ∀ own : Local S, ∀ db₀, (keeping fact I).Later own db₀ db :=
    fun _ _ => ⟨trivial, hI⟩
  cases hs with
  | auto he hf => cases h
  | refused f => cases h
  | draw x => cases h
  | clock t => cases h
  | emit => exact ⟨honest_of_ended h.1, .inl ⟨_, rfl, rfl, announces_of_ended h.1, rfl⟩⟩
  | begin => exact ⟨h, .inr (.inr ⟨rfl, rfl, rfl, rfl⟩)⟩
  | stmt he hf =>
    refine ⟨⟨fun db₀ => ?_, h.2⟩, .inr (.inr ⟨rfl, rfl, rfl, rfl⟩)⟩
    exact (h.1 db₀ db (hlater _ _) trivial _ he).rely (fun _ _ _ _ _ hq => hq) trivial
  | txDraw x => exact ⟨⟨fun db₀ => h.1 db₀ x, h.2⟩, .inr (.inr ⟨rfl, rfl, rfl, rfl⟩)⟩
  | txClock t => exact ⟨⟨fun db₀ => h.1 db₀ t, h.2⟩, .inr (.inr ⟨rfl, rfl, rfl, rfl⟩)⟩
  | commit =>
    obtain ⟨e, c, hk, hended, hIe, hfact⟩ := h.1 db
    rw [hk]
    exact ⟨⟨hended, hIe⟩, .inr (.inl ⟨e, rfl, rfl, rfl, hfact db, hIe⟩)⟩
  | throw => exact ⟨honest_of_ended (h.2 _), .inr (.inr ⟨rfl, rfl, announces_of_ended (h.2 _), rfl⟩)⟩
  | abort f =>
    exact ⟨honest_of_ended (h.2 _), .inr (.inr ⟨rfl, rfl, announces_of_ended (h.2 _), rfl⟩)⟩

/-! ## What was heard last -/

/-- What the last event said, if there has been one. -/
def heard (told : S.Event → F) (atFirst : F) (log : List S.Event) : F :=
  (log.getLast?.map told).getD atFirst

@[simp] theorem heard_nil (atFirst : F) : heard told atFirst [] = atFirst := rfl

@[simp] theorem heard_append (atFirst : F) (log : List S.Event) (e : S.Event) :
    heard told atFirst (log ++ [e]) = told e := by
  simp [heard]

variable [DecidableEq ι] {σ σ' : Config S ι} {log : List S.Event} {i : ι} {a : Act S} {atFirst : F}

/-- Some session is about to publish the fact. -/
def Coming (told : S.Event → F) (fact : S.Db → F) (σ : Config S ι) : Prop :=
  ∃ j e, (σ.pool j).announces = some e ∧ told e = fact σ.db

/-- The fact is what was heard last, or is about to be published. -/
def Settled (told : S.Event → F) (fact : S.Db → F) (atFirst : F) (σ : Config S ι)
    (log : List S.Event) : Prop :=
  Coming told fact σ ∨ heard told atFirst log = fact σ.db

/-- An event that is not the fact any more is published only while another session is about to
publish the fact. -/
def InOrder (told : S.Event → F) (fact : S.Db → F) (σ : Config S ι) (i : ι) : Act S → Prop
  | .publish e =>
    told e = fact σ.db ∨ ∃ j e', j ≠ i ∧ (σ.pool j).announces = some e' ∧ told e' = fact σ.db
  | _ => True

/-- Every session is honest, and so is everything published and about to be. -/
structure Config.Honest (told : S.Event → F) (fact : S.Db → F) (I : F → Prop) (σ : Config S ι)
    (log : List S.Event) : Prop where
  held : I (fact σ.db)
  session : ∀ j, (σ.pool j).Honest told fact I
  heard : ∀ e ∈ log, I (told e)

omit [DecidableEq ι] in
theorem Config.Honest.announces (h : σ.Honest told fact I log) {j : ι} {e : S.Event}
    (he : (σ.pool j).announces = some e) : I (told e) := by
  have hj := h.session j
  cases hs : σ.pool j with
  | inTx l b k own =>
    rw [hs] at he
    cases he
  | call c =>
    rw [hs] at he hj
    cases c with
    | emit e' k =>
      cases he
      exact hj.2
    | _ => cases he

/-- One step: everyone stays honest, and what was settled stays so exactly if the step is in
order. -/
theorem Config.Honest.step (h : σ.Honest told fact I log) (hset : Settled told fact atFirst σ log)
    (hs : σ.Step i a σ') :
    σ'.Honest told fact I (log ++ a.published) ∧
      (Settled told fact atFirst σ' (log ++ a.published) ↔ InOrder told fact σ i a) := by
  obtain ⟨s', hstep, hpool⟩ := hs
  obtain ⟨hhonest, hcases⟩ := hstep.honest h.held (h.session i)
  have hself : σ'.pool i = s' := by rw [hpool, Function.update_self]
  have hother : ∀ j, j ≠ i → σ'.pool j = σ.pool j :=
    fun j hj => by rw [hpool, Function.update_of_ne hj]
  have hsession : ∀ j, (σ'.pool j).Honest told fact I := by
    intro j
    by_cases hj : j = i
    · subst hj
      rwa [hself]
    · rw [hother j hj]
      exact h.session j
  rcases hcases with ⟨e, rfl, he, hnone, hdb⟩ | ⟨e, hpub, he, he', hfact, hIe⟩ |
    ⟨hpub, hnone, hnone', hdb⟩
  · refine ⟨⟨hdb ▸ h.held, hsession, ?_⟩, ?_⟩
    · intro e' he'
      rcases List.mem_append.mp he' with he' | he'
      · exact h.heard e' he'
      · rw [List.mem_singleton.mp he']
        exact h.announces he
    · constructor
      · intro hset'
        rcases hset' with ⟨j, e', hj, htold⟩ | hheard
        · have hne : j ≠ i := by
            intro heq
            rw [heq, hself, hnone] at hj
            cases hj
          rw [hother j hne] at hj
          exact .inr ⟨j, e', hne, hj, hdb ▸ htold⟩
        · refine .inl ?_
          rw [← hdb, ← hheard]
          exact (heard_append ..).symm
      · intro hor
        rcases hor with htold | ⟨j, e', hne, hj, htold⟩
        · refine .inr ?_
          rw [hdb, ← htold]
          exact heard_append ..
        · exact .inl ⟨j, e', by rwa [hother j hne], hdb ▸ htold⟩
  · have hnil : log ++ a.published = log := by rw [hpub, List.append_nil]
    rw [hnil]
    refine ⟨⟨hfact ▸ hIe, hsession, h.heard⟩, iff_of_true ?_ ?_⟩
    · exact .inl ⟨i, e, by rw [hself, he'], hfact.symm⟩
    · cases a <;> trivial
  · have hnil : log ++ a.published = log := by rw [hpub, List.append_nil]
    rw [hnil]
    refine ⟨⟨hdb ▸ h.held, hsession, h.heard⟩, iff_of_true ?_ ?_⟩
    · rcases hset with ⟨j, e, hj, htold⟩ | hheard
      · have hne : j ≠ i := by
          intro heq
          rw [heq, hnone] at hj
          cases hj
        exact .inl ⟨j, e, by rwa [hother j hne], hdb ▸ htold⟩
      · exact .inr (hdb ▸ hheard)
    · cases a <;> trivial

/-- For as long as what is published is in order, the fact is what was heard last or is about to be
published. -/
theorem Trace.settled {σ₀ : Config S ι} (hhonest : σ₀.Honest told fact I [])
    (h : Trace (InOrder told fact) σ₀ σ log) :
    σ.Honest told fact I log ∧ Settled told fact (fact σ₀.db) σ log := by
  induction h with
  | refl => exact ⟨hhonest, .inr rfl⟩
  | step _ hok hs ih =>
    obtain ⟨hnext, hiff⟩ := ih.1.step ih.2 hs
    exact ⟨hnext, hiff.mpr hok⟩

/-! ## Traces that can be computed -/

variable [Fintype ι]

/-- Where a schedule leads, and what it publishes. -/
def Config.traced (time : S.Time) (ok : Config S ι → ι → Act S → Bool) :
    List (ι × S.Id) → Config S ι → List S.Event → Option (Config S ι × List S.Event)
  | [], σ, log => some (σ, log)
  | (i, id) :: rest, σ, log =>
    match σ.advance time i id with
    | some (a, σ') => if ok σ i a then traced time ok rest σ' (log ++ a.published) else none
    | none => none

theorem trace_traced {Ok : Config S ι → ι → Act S → Prop} {ok : Config S ι → ι → Act S → Bool}
    (hok : ∀ σ i a, ok σ i a = true → Ok σ i a) {time : S.Time} {σ₀ : Config S ι} :
    ∀ {sched : List (ι × S.Id)} {σ σ' : Config S ι} {log log' : List S.Event},
      Trace Ok σ₀ σ log → σ.traced time ok sched log = some (σ', log') → Trace Ok σ₀ σ' log' := by
  intro sched
  induction sched with
  | nil =>
    intro σ σ' log log' hrun h
    cases h
    exact hrun
  | cons p rest ih =>
    intro σ σ' log log' hrun h
    simp only [Config.traced] at h
    split at h
    · rename_i a σ₁ hstep
      split at h
      · rename_i ha
        exact ih (hrun.step (hok _ _ _ ha) (Config.step_of_advance hstep)) h
      · cases h
    · cases h

end Sql
