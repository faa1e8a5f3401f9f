import Kurul.Sql.ReadCommitted

/-!
# Kurul.Sql.RelyGuarantee

Rely–guarantee reasoning for interleaved calls.

A `Protocol` says what is always true of the committed rows (`Inv`), what a transaction holding
given locks and writes may count on while others commit (`Rely`), and what each session's own
commits do (`Guar`). `Call.Safe` is the proof obligation for one call, a weakest precondition that
lets the committed rows move along `Rely` before every statement; `Safe_bind` composes it along
a program. `run_safe` is the rule: if every call of a pool is safe, the invariant holds in every
state of every run, and every change of the committed rows is one its session guarantees.
-/

namespace Sql

variable {S : Sig} {ι : Type}

structure Protocol (S : Sig) (ι : Type) where
  Inv : S.Db → Prop
  Rely : Local S → S.Db → S.Db → Prop
  Guar : ι → Act S → S.Db → S.Db → Prop
  /-- What is assumed of the steps a run takes. -/
  Cond : ι → Act S → S.Db → Prop
  guar_refl : ∀ i a db, Guar i a db db
  rely_refl : ∀ own db, Rely own db db
  rely_trans : ∀ {own db db₁ db₂}, Rely own db db₁ → Rely own db₁ db₂ → Rely own db db₂

namespace Protocol

variable (P : Protocol S ι) (i : ι) (a : Act S)

/-- Committing from `db` to `db'` under these locks keeps the invariant, is within the guarantee,
and is a move every transaction with compatible locks relies on. -/
def Commits (ks : List (Lock S.Key)) (db db' : S.Db) : Prop :=
  P.Inv db' ∧ P.Guar i a db db' ∧ ∀ o : Local S, Compatible ks o.locks → P.Rely o db db'

/-- The rows as they are when the transaction's next statement runs. -/
def Later (own : Local S) (db db' : S.Db) : Prop := P.Rely own db db' ∧ P.Inv db'

variable {P} {i} {a}

/-- A commit that changes nothing. -/
theorem Commits.refl {ks : List (Lock S.Key)} {db : S.Db} (hinv : P.Inv db) :
    P.Commits i a ks db db :=
  ⟨hinv, P.guar_refl i a db, fun o _ => P.rely_refl o db⟩

theorem Later.trans {own : Local S} {db db₁ db₂ : S.Db} (h : P.Rely own db db₁)
    (h' : P.Later own db₁ db₂) : P.Later own db db₂ :=
  ⟨P.rely_trans h h'.1, h'.2⟩

end Protocol

variable {P : Protocol S ι} {i : ι} {α β : Type}

/-- From these committed rows, with these locks and writes, the body reaches only safe ends. -/
def Tx.Safe (P : Protocol S ι) (i : ι) (Q : α → Local S → S.Db → Prop) :
    Tx S α → Local S → S.Db → Prop
  | .ret a, own, db => Q a own db
  | .throw _, _, _ => True
  | .stmt s k, own, db =>
    ∀ db', P.Later own db db' → P.Cond i (.exec s.label) db' →
      ∀ e, s.eval (own.view db') = .ok e → (k e.result).Safe P i Q (own.add e) db'
  | .draw k, own, db => ∀ x, (k x).Safe P i Q own db
  | .clock k, own, db => ∀ t, (k t).Safe P i Q own db

/-- What has to hold of a body's answer for its `COMMIT` to be safe. -/
def CommitSafe (P : Protocol S ι) (i : ι) (l : S.Label) (Q : β → S.Db → Prop) (b : β)
    (own : Local S) (db : S.Db) : Prop :=
  ∀ db', P.Later own db db' → P.Cond i (.commit l) db' →
    P.Commits i (.commit l) own.locks db' (own.view db') ∧ Q b (own.view db')

/-- From these committed rows the call commits only what the protocol allows. -/
def Call.Safe (P : Protocol S ι) (i : ι) (Q : α → S.Db → Prop) : Call S α → S.Db → Prop
  | .ret a, db => Q a db
  | .throw _, _ => True
  | .stmt s k, db =>
    (∀ db', P.Later .empty db db' → P.Cond i (.exec s.label) db' →
      ∀ e, s.eval db' = .ok e →
        P.Commits i (.exec s.label) e.needs db' (db'.applyAll e.writes) ∧
          (k (.ok e.result)).Safe P i Q (db'.applyAll e.writes)) ∧
    ∀ x db', P.Inv db' → (k (.error x)).Safe P i Q db'
  | .tx l b k, db =>
    b.Safe P i (CommitSafe P i l fun r => (k (.ok r)).Safe P i Q) .empty db ∧
    ∀ x db', P.Inv db' → (k (.error x)).Safe P i Q db'
  | .draw k, db => ∀ x, (k x).Safe P i Q db
  | .clock k, db => ∀ t, (k t).Safe P i Q db
  | .emit _ k, db => k.Safe P i Q db

namespace Tx

variable {Q : β → Local S → S.Db → Prop}

theorem Safe_bind (p : Tx S α) (f : α → Tx S β) :
    (p >>= f).Safe P i Q = p.Safe P i fun a => (f a).Safe P i Q := by
  induction p with
  | ret a => rfl
  | throw e => rfl
  | stmt s k ih => funext own db; simp only [stmt_bind, Safe, ih]
  | draw k ih => funext own db; simp only [draw_bind, Safe, ih]
  | clock k ih => funext own db; simp only [clock_bind, Safe, ih]

/-- A weaker postcondition is easier. -/
theorem Safe.mono {Q Q' : α → Local S → S.Db → Prop} (hq : ∀ a own db, Q a own db → Q' a own db)
    {p : Tx S α} : ∀ {own db}, p.Safe P i Q own db → p.Safe P i Q' own db := by
  induction p with
  | ret a => intro own db h; exact hq _ _ _ h
  | throw e => intro own db _; trivial
  | stmt s k ih => intro own db h db' hl hc e he; exact ih _ (h db' hl hc e he)
  | draw k ih => intro own db h x; exact ih _ (h x)
  | clock k ih => intro own db h t; exact ih _ (h t)

/-- Safety survives whatever the others commit. -/
theorem Safe.rely {Q : α → Local S → S.Db → Prop}
    (hq : ∀ a own db db', P.Rely own db db' → Q a own db → Q a own db') {p : Tx S α} :
    ∀ {own db db'}, p.Safe P i Q own db → P.Rely own db db' → p.Safe P i Q own db' := by
  induction p with
  | ret a => intro own db db' h hr; exact hq _ _ _ _ hr h
  | throw e => intro own db db' _ _; trivial
  | stmt s k ih => intro own db db' h hr db₂ hl hc e he; exact h db₂ (hl.trans hr) hc e he
  | draw k ih => intro own db db' h hr x; exact ih _ (h x) hr
  | clock k ih => intro own db db' h hr t; exact ih _ (h t) hr

/-- A body whose writes all pass a test ends with a transaction whose writes do. -/
theorem Writes.safe {p : S.RowWrite → Prop} {Q : α → Local S → S.Db → Prop}
    (hQ : ∀ a own db, (∀ w ∈ own.delta, p w) → Q a own db) {b : Tx S α} (hb : b.Writes p) :
    ∀ {own db}, (∀ w ∈ own.delta, p w) → b.Safe P i Q own db := by
  induction b with
  | ret a => intro own db h; exact hQ a own db h
  | throw e => intro own db _; trivial
  | stmt s k ih =>
    intro own db h db' _ _ e he
    refine ih e.result (hb.2 e.result) fun w hw => ?_
    rcases List.mem_append.mp hw with hw | hw
    · exact h w hw
    · exact hb.1 _ e he w hw
  | draw k ih => intro own db h x; exact ih x (hb x) h
  | clock k ih => intro own db h t; exact ih t (hb t) h

end Tx

theorem CommitSafe.rely {l : S.Label} {Q : β → S.Db → Prop} (b : β) (own : Local S)
    (db db' : S.Db) (hr : P.Rely own db db') (h : CommitSafe P i l Q b own db) :
    CommitSafe P i l Q b own db' :=
  fun db₂ hl hc => h db₂ (hl.trans hr) hc

namespace Call

theorem Safe_bind {Q : β → S.Db → Prop} (p : Call S α) (f : α → Call S β) :
    (p >>= f).Safe P i Q = p.Safe P i fun a => (f a).Safe P i Q := by
  induction p with
  | ret a => rfl
  | throw e => rfl
  | stmt s k ih => funext db; simp only [stmt_bind, Safe, ih]
  | tx l b k ih => funext db; simp only [tx_bind, Safe, ih]
  | draw k ih => funext db; simp only [draw_bind, Safe, ih]
  | clock k ih => funext db; simp only [clock_bind, Safe, ih]
  | emit e k ih => funext db; simp only [emit_bind, Safe, ih]

/-- Safety survives whatever the others commit. -/
theorem Safe.rely {Q : α → S.Db → Prop} (hq : ∀ a db db', P.Rely .empty db db' → Q a db → Q a db')
    {p : Call S α} :
    ∀ {db db'}, p.Safe P i Q db → P.Rely .empty db db' → p.Safe P i Q db' := by
  induction p with
  | ret a => intro db db' h hr; exact hq _ _ _ hr h
  | throw e => intro db db' _ _; trivial
  | stmt s k ih =>
    intro db db' h hr
    exact ⟨fun db₂ hl hc e he => h.1 db₂ (hl.trans hr) hc e he, h.2⟩
  | tx l b k ih =>
    intro db db' h hr
    exact ⟨h.1.rely CommitSafe.rely hr, h.2⟩
  | draw k ih => intro db db' h hr x; exact ih _ (h x) hr
  | clock k ih => intro db db' h hr t; exact ih _ (h t) hr
  | emit e k ih => intro db db' h hr; exact ih h hr

theorem Safe_exec {Q : β → S.Db → Prop} {s : Stmt S β} {db : S.Db}
    (h : ∀ db', P.Later .empty db db' → P.Cond i (.exec s.label) db' → ∀ e, s.eval db' = .ok e →
      P.Commits i (.exec s.label) e.needs db' (db'.applyAll e.writes) ∧ Q e.result (db'.applyAll e.writes)) :
    (exec s).Safe P i Q db :=
  ⟨h, fun _ _ _ => trivial⟩

/-- Reads outside a transaction commit nothing; what they answer counts for nothing afterwards. -/
theorem Safe_auto_read {Q : β → S.Db → Prop} {p : Tx S β} (hread : p.ReadOnly)
    (h : ∀ b db, P.Inv db → Q b db) : ∀ {db}, P.Inv db → (auto p).Safe P i Q db := by
  induction p with
  | ret b => intro db hinv; exact h b db hinv
  | throw e => intro db _; trivial
  | stmt s k ih =>
    intro db _
    simp only [auto, Safe]
    refine ⟨fun db' hl _ e he => ?_, fun x db' _ => trivial⟩
    rw [(hread.1 db' e he).1]
    exact ⟨Protocol.Commits.refl hl.2, ih e.result (hread.2 e.result) hl.2⟩
  | draw k ih => intro db hinv x; exact ih x (hread x) hinv
  | clock k ih => intro db hinv t; exact ih t (hread t) hinv

/-- The same when a read that fails is handled. -/
theorem Safe_tryCatch_read {Q : β → S.Db → Prop} {p : Tx S β} (hread : p.ReadOnly)
    {f : S.Error → Call S β} (h : ∀ b db, P.Inv db → Q b db)
    (hf : ∀ e db, P.Inv db → (f e).Safe P i Q db) :
    ∀ {db}, P.Inv db → ((auto p).tryCatch f).Safe P i Q db := by
  induction p with
  | ret b => intro db hinv; exact h b db hinv
  | throw e => intro db hinv; exact hf e db hinv
  | stmt s k ih =>
    intro db _
    simp only [auto, tryCatch, Safe]
    refine ⟨fun db' hl _ e he => ?_, fun x db' hinv => hf x db' hinv⟩
    rw [(hread.1 db' e he).1]
    exact ⟨Protocol.Commits.refl hl.2, ih e.result (hread.2 e.result) hl.2⟩
  | draw k ih => intro db hinv x; exact ih x (hread x) hinv
  | clock k ih => intro db hinv t; exact ih t (hread t) hinv

theorem Safe_transaction {Q : β → S.Db → Prop} {l : S.Label} {b : Tx S β} {db : S.Db}
    (h : b.Safe P i (CommitSafe P i l Q) .empty db) : (transaction l b).Safe P i Q db :=
  ⟨h, fun _ _ _ => trivial⟩

end Call

/-! ## The rule -/

/-- A session from which only safe ends can be reached. -/
def Session.Safe (P : Protocol S ι) (i : ι) : Session S → S.Db → Prop
  | .call c, db => c.Safe P i (fun _ _ => True) db
  | .inTx l b k own, db =>
    b.Safe P i (CommitSafe P i l fun r => (k (.ok r)).Safe P i fun _ _ => True) own db ∧
    ∀ x db', P.Inv db' → (k (.error x)).Safe P i (fun _ _ => True) db'

theorem Session.Safe.rely {s : Session S} {db db' : S.Db} (h : s.Safe P i db)
    (hr : P.Rely s.own db db') : s.Safe P i db' := by
  cases s with
  | call c => exact Call.Safe.rely (fun _ _ _ _ h => h) h hr
  | inTx l b k own => exact ⟨h.1.rely CommitSafe.rely hr, h.2⟩

/-- Whoever was compatible with a session, and with every lock it was granted, still is. -/
theorem Session.Step.compatible {free : List (Lock S.Key) → Prop} {db db' : S.Db}
    {s s' : Session S} {a : Act S} (hs : Session.Step free db s a db' s')
    {o : List (Lock S.Key)} (hfree : ∀ ks, free ks → Compatible ks o)
    (hold : Compatible s.locks o) : Compatible s'.locks o := by
  have nil : Compatible ([] : List (Lock S.Key)) o := by intro a ha; cases ha
  cases hs with
  | stmt he hf => exact hold.append_left (hfree _ hf)
  | txDraw x => exact hold
  | txClock t => exact hold
  | _ => exact nil

/-- A safe session's step leads to a safe session. -/
theorem Session.Step.safe {free : List (Lock S.Key) → Prop} {db db' : S.Db} {s s' : Session S}
    {a : Act S} (hs : Session.Step free db s a db' s') (hinv : P.Inv db) (hsafe : s.Safe P i db)
    (hc : P.Cond i a db) : s'.Safe P i db' := by
  have now : ∀ own : Local S, P.Later own db db := fun own => ⟨P.rely_refl own db, hinv⟩
  cases hs with
  | auto he hf => exact (hsafe.1 db (now _) hc _ he).2
  | refused f => exact hsafe.2 _ db hinv
  | draw x => exact hsafe x
  | clock t => exact hsafe t
  | emit => exact hsafe
  | begin => exact hsafe
  | stmt he hf => exact ⟨hsafe.1 db (now _) hc _ he, hsafe.2⟩
  | txDraw x => exact ⟨hsafe.1 x, hsafe.2⟩
  | txClock t => exact ⟨hsafe.1 t, hsafe.2⟩
  | commit => exact (hsafe.1 db (now _) hc).2
  | throw => exact hsafe.2 _ db hinv
  | abort f => exact hsafe.2 _ db hinv

/-- A safe session's step leaves the committed rows alone or commits as the protocol allows. -/
theorem Session.Step.commits {free : List (Lock S.Key) → Prop} {db db' : S.Db}
    {s s' : Session S} {a : Act S} (hs : Session.Step free db s a db' s') (hinv : P.Inv db)
    (hsafe : s.Safe P i db) (hc : P.Cond i a db) :
    db' = db ∨ ∃ ks, P.Commits i a ks db db' ∧ (free ks ∨ ks = s.locks) := by
  have now : ∀ own : Local S, P.Later own db db := fun own => ⟨P.rely_refl own db, hinv⟩
  cases hs with
  | auto he hf => exact .inr ⟨_, (hsafe.1 db (now _) hc _ he).1, .inl hf⟩
  | commit => exact .inr ⟨_, (hsafe.1 db (now _) hc).1, .inr rfl⟩
  | _ => exact .inl rfl

/-- What holds of the whole system along every run. -/
structure Config.Good (P : Protocol S ι) (σ : Config S ι) : Prop where
  inv : P.Inv σ.db
  safe : ∀ i, (σ.pool i).Safe P i σ.db
  apart : ∀ i j, i ≠ j → Compatible (σ.pool i).locks (σ.pool j).locks

theorem Config.Good.start {db : S.Db} {calls : ι → Call S Unit} (hinv : P.Inv db)
    (h : ∀ i, (calls i).Safe P i (fun _ _ => True) db) : (Config.start db calls).Good P :=
  ⟨hinv, h, fun _ _ _ a ha => by cases ha⟩

variable [DecidableEq ι]

/-- A step of a good system: it stays good, and a change of the committed rows is one the
stepping session guarantees. -/
theorem Config.Good.step {σ σ' : Config S ι} {a : Act S} (hg : σ.Good P)
    (hc : P.Cond i a σ.db) (hs : σ.Step i a σ') :
    σ'.Good P ∧ (σ'.db = σ.db ∨ P.Guar i a σ.db σ'.db) := by
  obtain ⟨s', hstep, hpool⟩ := hs
  have hmoved := hstep.commits hg.inv (hg.safe i) hc
  have hrely : ∀ j, j ≠ i → P.Rely (σ.pool j).own σ.db σ'.db := by
    intro j hj
    rcases hmoved with heq | ⟨ks, hcom, hks⟩
    · rw [heq]; exact P.rely_refl _ _
    · have hlocks : (σ.pool j).own.locks = (σ.pool j).locks := by cases σ.pool j <;> rfl
      refine hcom.2.2 _ ?_
      rw [hlocks]
      rcases hks with hfree | rfl
      · exact hfree j hj
      · exact hg.apart i j hj.symm
  have hself : Function.update σ.pool i s' i = s' := Function.update_self i s' σ.pool
  have hother : ∀ j, j ≠ i → Function.update σ.pool i s' j = σ.pool j :=
    fun j hj => Function.update_of_ne hj s' σ.pool
  have hapart : ∀ j, j ≠ i → Compatible s'.locks (σ.pool j).locks := fun j hj =>
    hstep.compatible (fun ks hf => hf j hj) (hg.apart i j hj.symm)
  refine ⟨⟨?_, ?_, ?_⟩, ?_⟩
  · rcases hmoved with heq | ⟨ks, hcom, _⟩
    · rw [heq]; exact hg.inv
    · exact hcom.1
  · intro j
    rw [hpool]
    by_cases hj : j = i
    · subst hj; rw [hself]; exact hstep.safe hg.inv (hg.safe j) hc
    · rw [hother j hj]; exact (hg.safe j).rely (hrely j hj)
  · intro j k hjk
    rw [hpool]
    by_cases hj : j = i
    · subst hj; rw [hself, hother k hjk.symm]; exact hapart k hjk.symm
    · by_cases hk : k = i
      · subst hk; rw [hself, hother j hj]; exact (hapart j hj).symm
      · rw [hother j hj, hother k hk]; exact hg.apart j k hjk
  · rcases hmoved with heq | ⟨ks, hcom, _⟩
    · exact .inl heq
    · exact .inr hcom.2.1

/-- The rely–guarantee rule: a pool of safe calls keeps the invariant in every state of every
run whose steps meet the protocol's condition. -/
theorem Run.good {Ok : Config S ι → ι → Act S → Prop} {σ₀ σ : Config S ι} (hg : σ₀.Good P)
    (hok : ∀ σ i a, Ok σ i a → P.Cond i a σ.db) (hrun : Run Ok σ₀ σ) : σ.Good P := by
  induction hrun with
  | refl => exact hg
  | step _ ho hs ih => exact (ih.step (hok _ _ _ ho) hs).1

end Sql
