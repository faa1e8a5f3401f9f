import Kurul.Sql.RelyGuarantee
import Kurul.Sql.Schedule

/-!
# Kurul.Sql.Ledger

Interleaved calls, with a note kept for each session of what it has done and seen.

* `Ledger`      — how the notes are taken, what is assumed of a step in the light of them, and what a
  commit answers for.
* `Local.Held`  — what a transaction may count on: a row it has locked against writers stays as it is.
* `Call.Kept`   — the proof obligation for one call, a weakest precondition; `Tx.Kept_bind` and
  `Call.Kept_bind` compose it along a program.
* `Booked`      — a run, with the notes and every step that was taken.
* `Booked.good` — if every call is kept, every commit of every run answers for what it did.
-/

namespace Sql

variable {S : Sig} {ι G α β : Type}

/-! ## Rows that stay -/

namespace Local

/-- Nobody else has written a row this transaction has locked against writers. -/
def Held (own : Local S) (db db' : S.Db) : Prop :=
  ∀ l ∈ own.locks, l.mode ≠ .keyShare → db'.get? l.key = db.get? l.key

theorem held_refl (own : Local S) (db : S.Db) : own.Held db db := fun _ _ _ => rfl

theorem Held.trans {own : Local S} {db db₁ db₂ : S.Db} (h : own.Held db db₁)
    (h' : own.Held db₁ db₂) : own.Held db db₂ :=
  fun l hl hm => (h' l hl hm).trans (h l hl hm)

theorem Held.wrote {own : Local S} {db db' : S.Db} (h : own.Held db db') {k : S.Key}
    (hk : own.Wrote k) : db'.get? k = db.get? k := by
  obtain ⟨m, hm, hne⟩ := hk.locked
  exact h _ hm hne

theorem Held.of_add {own : Local S} {e : Effect S β} {db db' : S.Db}
    (h : (own.add e).Held db db') : own.Held db db' :=
  fun l hl hm => h l (List.mem_append_left _ hl) hm

/-- Writes made under locks that go with these leave the locked rows alone. -/
theorem held_of_compatible {own : Local S} {ks : List (Lock S.Key)} {ws : List S.RowWrite}
    (hws : ∀ w ∈ ws, w.lock ∈ ks) (hc : Compatible ks own.locks) (db : S.Db) :
    own.Held db (db.applyAll ws) := by
  intro l hl hm
  refine Store.get?_applyAll_of_not_mem (fun hk => ?_) db
  obtain ⟨w, hw, hkey⟩ := List.mem_map.mp hk
  refine hc _ (hws w hw) l hl ⟨by rw [Write.lock_key, hkey], ?_⟩
  cases w with
  | put v =>
    cases hmode : l.mode with
    | keyShare => exact absurd hmode hm
    | noKeyUpdate => rfl
    | update => rfl
  | del k =>
    cases hmode : l.mode with
    | keyShare => exact absurd hmode hm
    | noKeyUpdate => rfl
    | update => rfl

end Local

/-! ## What a call has to keep -/

structure Ledger (S : Sig) (ι G : Type) where
  /-- What a session notes of a step of its own: what it did, what it saw, and the committed rows
  before and after. -/
  note : G → Act S → (saw before after : S.Db) → G
  /-- How the notes of a transaction may come to differ before it commits. -/
  Within : G → G → Prop
  /-- What is always true of the committed rows. -/
  Inv : S.Db → Prop
  /-- What is assumed of the steps a run takes. -/
  Cond : ι → G → Act S → S.Db → Prop
  /-- What a commit answers for. -/
  Guar : ι → G → Act S → S.Db → S.Db → Prop
  /-- What a call that has ended leaves in its notes. -/
  Ends : ι → Option S.Error → G → Prop
  note_quiet : ∀ g saw db, note g .quiet saw db db = g
  within_refl : ∀ g, Within g g
  within_trans : ∀ {g g₁ g₂}, Within g g₁ → Within g₁ g₂ → Within g g₂
  within_exec : ∀ g l saw db, Within g (note g (.exec l) saw db db)

namespace Ledger

variable (L : Ledger S ι G) (i : ι)

/-- A step's move of the committed rows: the invariant stands, and the session answers for a commit
and for every change. -/
def Commits (g : G) (a : Act S) (db db' : S.Db) : Prop :=
  L.Inv db' ∧ ((db' = db ∧ ∀ l, a ≠ .commit l) ∨ L.Guar i g a db db')

/-- The rows as they are when the transaction's next step is taken. -/
def Now (own : Local S) (g : G) (a : Act S) (db db' : S.Db) : Prop :=
  own.Held db db' ∧ L.Inv db' ∧ L.Cond i g a db'

variable {L} {i}

theorem Commits.same {g : G} {a : Act S} {db : S.Db} (h : L.Inv db) (ha : ∀ l, a ≠ .commit l) :
    L.Commits i g a db db :=
  ⟨h, .inl ⟨rfl, ha⟩⟩

theorem Now.trans {own : Local S} {g : G} {a : Act S} {db db₁ db₂ : S.Db} (h : own.Held db db₁)
    (h' : L.Now i own g a db₁ db₂) : L.Now i own g a db db₂ :=
  ⟨h.trans h'.1, h'.2⟩

end Ledger

variable (L : Ledger S ι G) (i : ι)

/-- From these committed rows, with these notes, locks and writes, the body reaches only ends that
are kept. -/
def Tx.Kept (Q : α → G → Local S → S.Db → Prop) : Tx S α → G → Local S → S.Db → Prop
  | .ret a, g, own, db => Q a g own db
  | .throw _, _, _, _ => True
  | .stmt s k, g, own, db =>
    ∀ db', L.Now i own g (.exec s.label) db db' → ∀ e, s.eval (own.view db') = .ok e →
      (k e.result).Kept Q (L.note g (.exec s.label) (own.view db') db' db') (own.add e) db'
  | .draw k, g, own, db => ∀ x, (k x).Kept Q g own db
  | .clock k, g, own, db => ∀ t, (k t).Kept Q g own db

/-- What has to hold of a body's answer for its `COMMIT` to be kept. -/
def CommitKept (l : S.Label) (Q : β → G → Prop) (b : β) (g : G) (own : Local S) (db : S.Db) : Prop :=
  ∀ db', L.Now i own g (.commit l) db db' →
    L.Commits i g (.commit l) db' (own.view db') ∧
      Q b (L.note g (.commit l) (own.view db') db' (own.view db'))

/-- With these notes the call commits only what it can answer for. -/
def Call.Kept (Q : α → G → Prop) (E : S.Error → G → Prop) : Call S α → G → Prop
  | .ret a, g => Q a g
  | .throw e, g => E e g
  | .stmt s k, g =>
    (∀ db, L.Inv db → L.Cond i g (.exec s.label) db → ∀ e, s.eval db = .ok e →
      L.Commits i g (.exec s.label) db (db.applyAll e.writes) ∧
        (k (.ok e.result)).Kept Q E (L.note g (.exec s.label) db db (db.applyAll e.writes))) ∧
    ∀ x, (k (.error x)).Kept Q E g
  | .tx l b k, g =>
    (∀ db, L.Inv db →
      b.Kept L i (CommitKept L i l fun r => (k (.ok r)).Kept Q E) g .empty db) ∧
    ∀ x g', L.Within g g' → (k (.error x)).Kept Q E g'
  | .draw k, g => ∀ x, (k x).Kept Q E g
  | .clock k, g => ∀ t, (k t).Kept Q E g
  | .emit e k, g => ∀ db, L.Inv db → k.Kept Q E (L.note g (.publish e) db db db)

variable {L} {i}

namespace Tx

variable {Q : β → G → Local S → S.Db → Prop}

theorem Kept_bind (p : Tx S α) (f : α → Tx S β) :
    (p >>= f).Kept L i Q = p.Kept L i fun a => (f a).Kept L i Q := by
  induction p with
  | ret a => rfl
  | throw e => rfl
  | stmt s k ih => funext g own db; simp only [stmt_bind, Kept, ih]
  | draw k ih => funext g own db; simp only [draw_bind, Kept, ih]
  | clock k ih => funext g own db; simp only [clock_bind, Kept, ih]

/-- A weaker postcondition is easier. -/
theorem Kept.mono {Q Q' : α → G → Local S → S.Db → Prop}
    (hq : ∀ a g own db, Q a g own db → Q' a g own db) {p : Tx S α} :
    ∀ {g own db}, p.Kept L i Q g own db → p.Kept L i Q' g own db := by
  induction p with
  | ret a => intro g own db h; exact hq _ _ _ _ h
  | throw e => intro g own db _; trivial
  | stmt s k ih => intro g own db h db' hn e he; exact ih _ (h db' hn e he)
  | draw k ih => intro g own db h x; exact ih _ (h x)
  | clock k ih => intro g own db h t; exact ih _ (h t)

/-- What is kept stays so whatever the others commit. -/
theorem Kept.held {Q : α → G → Local S → S.Db → Prop}
    (hq : ∀ a g own db db', own.Held db db' → Q a g own db → Q a g own db') {p : Tx S α} :
    ∀ {g own db db'}, p.Kept L i Q g own db → own.Held db db' → p.Kept L i Q g own db' := by
  induction p with
  | ret a => intro g own db db' h hr; exact hq _ _ _ _ _ hr h
  | throw e => intro g own db db' _ _; trivial
  | stmt s k ih => intro g own db db' h hr db₂ hn e he; exact h db₂ (hn.trans hr) e he
  | draw k ih => intro g own db db' h hr x; exact ih _ (h x) hr
  | clock k ih => intro g own db db' h hr t; exact ih _ (h t) hr

/-- A body whose writes all pass a test ends with a transaction whose writes do. -/
theorem Writes.kept {p : S.RowWrite → Prop} {Q : α → G → Local S → S.Db → Prop}
    (hQ : ∀ a g own db, (∀ w ∈ own.delta, p w) → Q a g own db) {b : Tx S α} (hb : b.Writes p) :
    ∀ {g own db}, (∀ w ∈ own.delta, p w) → b.Kept L i Q g own db := by
  induction b with
  | ret a => intro g own db h; exact hQ a g own db h
  | throw e => intro g own db _; trivial
  | stmt s k ih =>
    intro g own db h db' _ e he
    refine ih e.result (hb.2 e.result) fun w hw => ?_
    rcases List.mem_append.mp hw with hw | hw
    · exact h w hw
    · exact hb.1 _ e he w hw
  | draw k ih => intro g own db h x; exact ih x (hb x) h
  | clock k ih => intro g own db h t; exact ih t (hb t) h

end Tx

theorem CommitKept.held {l : S.Label} {Q : β → G → Prop} (b : β) (g : G) (own : Local S)
    (db db' : S.Db) (hr : own.Held db db') (h : CommitKept L i l Q b g own db) :
    CommitKept L i l Q b g own db' :=
  fun db₂ hn => h db₂ (hn.trans hr)

namespace Call

variable {Q : β → G → Prop} {E : S.Error → G → Prop} {g : G}

theorem Kept_bind (p : Call S α) (f : α → Call S β) :
    (p >>= f).Kept L i Q E = p.Kept L i (fun a => (f a).Kept L i Q E) E := by
  induction p with
  | ret a => rfl
  | throw e => rfl
  | stmt s k ih => funext g; simp only [stmt_bind, Kept, ih]
  | tx l b k ih => funext g; simp only [tx_bind, Kept, ih]
  | draw k ih => funext g; simp only [draw_bind, Kept, ih]
  | clock k ih => funext g; simp only [clock_bind, Kept, ih]
  | emit e k ih => funext g; simp only [emit_bind, Kept, ih]

/-- A caught exception goes on with its handler. -/
theorem Kept_tryCatch (p : Call S β) (h : S.Error → Call S β) :
    (p.tryCatch h).Kept L i Q E = p.Kept L i Q fun e => (h e).Kept L i Q E := by
  induction p with
  | ret a => rfl
  | throw e => rfl
  | stmt s k ih => funext g; simp only [tryCatch, Kept, ih]
  | tx l b k ih => funext g; simp only [tryCatch, Kept, ih]
  | draw k ih => funext g; simp only [tryCatch, Kept, ih]
  | clock k ih => funext g; simp only [tryCatch, Kept, ih]
  | emit e k ih => funext g; simp only [tryCatch, Kept, ih]

/-- Weaker conditions at the end are easier. -/
theorem Kept.mono {Q Q' : α → G → Prop} {E E' : S.Error → G → Prop} (hq : ∀ a g, Q a g → Q' a g)
    (he : ∀ x g, E x g → E' x g) {p : Call S α} : ∀ {g}, p.Kept L i Q E g → p.Kept L i Q' E' g := by
  have hcommit : ∀ {β : Type} {l : S.Label} {k : Except S.Error β → Call S α},
      (∀ r {g}, (k r).Kept L i Q E g → (k r).Kept L i Q' E' g) → ∀ b g own db,
      CommitKept L i l (fun b => (k (.ok b)).Kept L i Q E) b g own db →
        CommitKept L i l (fun b => (k (.ok b)).Kept L i Q' E') b g own db :=
    fun ih b g own db h db' hn => ⟨(h db' hn).1, ih _ (h db' hn).2⟩
  induction p with
  | ret a => intro g h; exact hq a g h
  | throw e => intro g h; exact he e g h
  | stmt s k ih =>
    intro g h
    exact ⟨fun db hinv hc e heval => ⟨(h.1 db hinv hc e heval).1, ih _ (h.1 db hinv hc e heval).2⟩,
      fun x => ih _ (h.2 x)⟩
  | tx l b k ih =>
    intro g h
    exact ⟨fun db hinv => (h.1 db hinv).mono (hcommit ih), fun x g' hg => ih _ (h.2 x g' hg)⟩
  | draw k ih => intro g h x; exact ih x (h x)
  | clock k ih => intro g h t; exact ih t (h t)
  | emit e k ih => intro g h db hinv; exact ih (h db hinv)

theorem Kept_exec {s : Stmt S β} (herr : ∀ x, E x g)
    (h : ∀ db, L.Inv db → L.Cond i g (.exec s.label) db → ∀ e, s.eval db = .ok e →
      L.Commits i g (.exec s.label) db (db.applyAll e.writes) ∧
        Q e.result (L.note g (.exec s.label) db db (db.applyAll e.writes))) :
    (exec s).Kept L i Q E g :=
  ⟨h, herr⟩

theorem Kept_transaction {l : S.Label} {b : Tx S β} (herr : ∀ x g', L.Within g g' → E x g')
    (h : ∀ db, L.Inv db → b.Kept L i (CommitKept L i l Q) g .empty db) :
    (transaction l b).Kept L i Q E g :=
  ⟨h, herr⟩

/-- Reads outside a transaction, when what they answer and what is noted of them count for nothing. -/
theorem Kept_auto_read {p : Tx S β} (hread : p.ReadOnly) (hQ : ∀ b g, Q b g) (hE : ∀ x g, E x g) :
    ∀ g, (auto p).Kept L i Q E g := by
  induction p with
  | ret b => intro g; exact hQ b g
  | throw e => intro g; exact hE e g
  | stmt s k ih =>
    intro g
    simp only [auto, Kept]
    refine ⟨fun db hinv _ e he => ?_, fun x => hE x g⟩
    rw [(hread.1 db e he).1]
    exact ⟨.same hinv (by simp), ih e.result (hread.2 e.result) _⟩
  | draw k ih => intro g x; exact ih x (hread x) g
  | clock k ih => intro g t; exact ih t (hread t) g

/-- Reads outside a transaction, where statements are not noted. -/
theorem Kept_auto_unnoted {p : Tx S β} (hread : p.ReadOnly)
    (hnote : ∀ l saw db, L.note g (.exec l) saw db db = g) (hQ : ∀ b, Q b g) (hE : ∀ x, E x g) :
    (auto p).Kept L i Q E g := by
  induction p with
  | ret b => exact hQ b
  | throw e => exact hE e
  | stmt s k ih =>
    simp only [auto, Kept]
    refine ⟨fun db hinv _ e he => ?_, hE⟩
    rw [(hread.1 db e he).1, Store.applyAll_nil, hnote]
    exact ⟨.same hinv (by simp), ih e.result (hread.2 e.result)⟩
  | draw k ih => exact fun x => ih x (hread x)
  | clock k ih => exact fun t => ih t (hread t)

end Call

/-- Where nothing is asked of anybody, every body is kept. -/
theorem Tx.Kept_any {Q : α → G → Local S → S.Db → Prop} (hQ : ∀ a g own db, Q a g own db) (p : Tx S α) :
    ∀ {g own db}, p.Kept L i Q g own db := by
  induction p with
  | ret a => intro g own db; exact hQ a g own db
  | throw e => intro g own db; trivial
  | stmt s k ih => intro g own db db' _ e _; exact ih e.result
  | draw k ih => intro g own db x; exact ih x
  | clock k ih => intro g own db t; exact ih t

/-- And so is every call. -/
theorem Call.Kept_any {Q : α → G → Prop} {E : S.Error → G → Prop} (hinv : ∀ db, L.Inv db)
    (hguar : ∀ g a db db', L.Guar i g a db db') (hQ : ∀ a g, Q a g) (hE : ∀ e g, E e g) (p : Call S α) :
    ∀ {g}, p.Kept L i Q E g := by
  induction p with
  | ret a => intro g; exact hQ a g
  | throw e => intro g; exact hE e g
  | stmt s k ih =>
    intro g
    exact ⟨fun db _ _ e _ => ⟨⟨hinv _, .inr (hguar _ _ _ _)⟩, ih _⟩, fun x => ih _⟩
  | tx l b k ih =>
    intro g
    refine ⟨fun db _ => b.Kept_any fun r g own db => ?_, fun x g' _ => ih _⟩
    exact fun db' _ => ⟨⟨hinv _, .inr (hguar _ _ _ _)⟩, ih _⟩
  | draw k ih => intro g x; exact ih x
  | clock k ih => intro g t; exact ih t
  | emit e k ih => intro g db _; exact ih

/-! ## The rule -/

/-- A session that has only kept ends to reach. -/
def Session.Kept (L : Ledger S ι G) (i : ι) (g : G) : Session S → S.Db → Prop
  | .call c, _ => c.Kept L i (fun _ => L.Ends i none) (fun e => L.Ends i (some e)) g
  | .inTx l b k own, db =>
    b.Kept L i (CommitKept L i l fun r =>
      (k (.ok r)).Kept L i (fun _ => L.Ends i none) fun e => L.Ends i (some e)) g own db ∧
    ∀ x g', L.Within g g' →
      (k (.error x)).Kept L i (fun _ => L.Ends i none) (fun e => L.Ends i (some e)) g'

theorem Session.Kept.held {g : G} {s : Session S} {db db' : S.Db} (h : s.Kept L i g db)
    (hr : s.own.Held db db') : s.Kept L i g db' := by
  cases s with
  | call c => exact h
  | inTx l b k own => exact ⟨h.1.held CommitKept.held hr, h.2⟩

/-- One step of a session that is kept: it stays so under its new notes, and a change of the committed
rows is one it answers for. -/
theorem Session.Step.kept {free : List (Lock S.Key) → Prop} {db db' : S.Db} {s s' : Session S}
    {a : Act S} {g : G} (hs : Session.Step free db s a db' s') (hinv : L.Inv db)
    (hk : s.Kept L i g db) (hc : L.Cond i g a db) :
    L.Commits i g a db db' ∧ s'.Kept L i (L.note g a (s.own.view db) db db') db' := by
  have hnow : ∀ own : Local S, L.Now i own g a db db := fun own => ⟨own.held_refl db, hinv, hc⟩
  cases hs with
  | auto he hf => exact hk.1 db hinv hc _ he
  | refused f =>
    refine ⟨.same hinv (by simp), ?_⟩
    rw [L.note_quiet]
    exact hk.2 _
  | draw x =>
    refine ⟨.same hinv (by simp), ?_⟩
    rw [L.note_quiet]
    exact hk x
  | clock t =>
    refine ⟨.same hinv (by simp), ?_⟩
    rw [L.note_quiet]
    exact hk t
  | emit => exact ⟨.same hinv (by simp), hk db hinv⟩
  | begin =>
    refine ⟨.same hinv (by simp), ?_⟩
    rw [L.note_quiet]
    exact ⟨hk.1 db hinv, hk.2⟩
  | stmt he hf =>
    refine ⟨.same hinv (by simp), hk.1 db (hnow _) _ he, fun x g' hg' => ?_⟩
    exact hk.2 x g' (L.within_trans (L.within_exec _ _ _ _) hg')
  | txDraw x =>
    refine ⟨.same hinv (by simp), ?_⟩
    rw [L.note_quiet]
    exact ⟨hk.1 x, hk.2⟩
  | txClock t =>
    refine ⟨.same hinv (by simp), ?_⟩
    rw [L.note_quiet]
    exact ⟨hk.1 t, hk.2⟩
  | commit => exact hk.1 db (hnow _)
  | throw =>
    refine ⟨.same hinv (by simp), ?_⟩
    rw [L.note_quiet]
    exact hk.2 _ g (L.within_refl g)
  | abort f =>
    refine ⟨.same hinv (by simp), ?_⟩
    rw [L.note_quiet]
    exact hk.2 _ g (L.within_refl g)

/-- A step changes the committed rows by writes it has locked. -/
theorem Session.Step.locked {free : List (Lock S.Key) → Prop} {db db' : S.Db} {s s' : Session S}
    {a : Act S} (hs : Session.Step free db s a db' s') :
    db' = db ∨ ∃ ks ws, db' = db.applyAll ws ∧ (∀ w ∈ ws, Write.lock w ∈ ks) ∧ (free ks ∨ ks = s.locks) := by
  cases hs with
  | auto he hf =>
    refine .inr ⟨_, _, rfl, fun w hw => ?_, .inl hf⟩
    exact List.mem_append_right _ (List.mem_map_of_mem hw)
  | commit => exact .inr ⟨_, _, rfl, Local.covered _, .inr rfl⟩
  | _ => exact .inl rfl

/-! ## Runs with their notes -/

/-- A step that was taken, with the notes of its session from before it. -/
structure Past (S : Sig) (ι G : Type) where
  who : ι
  noted : G
  act : Act S
  before : S.Db
  after : S.Db

section Runs

variable [DecidableEq ι]

/-- A run whose steps all meet a condition on the session, its notes, the act and the committed rows
before it; with everybody's notes and every step taken. -/
inductive Booked (note : G → Act S → (saw before after : S.Db) → G) (g₀ : G)
    (Ok : ι → G → Act S → S.Db → Prop) (σ₀ : Config S ι) :
    Config S ι → (ι → G) → List (Past S ι G) → Prop where
  | refl : Booked note g₀ Ok σ₀ σ₀ (fun _ => g₀) []
  | step {σ σ' : Config S ι} {g : ι → G} {past : List (Past S ι G)} {i : ι} {a : Act S}
      (h : Booked note g₀ Ok σ₀ σ g past) (hok : Ok i (g i) a σ.db) (hs : σ.Step i a σ') :
      Booked note g₀ Ok σ₀ σ'
        (Function.update g i (note (g i) a ((σ.pool i).own.view σ.db) σ.db σ'.db))
        (past ++ [⟨i, g i, a, σ.db, σ'.db⟩])

/-- What holds of the whole system, with its notes, along every run. -/
structure Config.Kept (L : Ledger S ι G) (σ : Config S ι) (g : ι → G) : Prop where
  inv : L.Inv σ.db
  kept : ∀ i, (σ.pool i).Kept L i (g i) σ.db
  apart : ∀ i j, i ≠ j → Compatible (σ.pool i).locks (σ.pool j).locks

omit [DecidableEq ι] in
theorem Config.Kept.start {db : S.Db} {calls : ι → Call S Unit} {g₀ : G} (hinv : L.Inv db)
    (h : ∀ i, (calls i).Kept L i (fun _ => L.Ends i none) (fun e => L.Ends i (some e)) g₀) :
    (Config.start db calls).Kept L fun _ => g₀ :=
  ⟨hinv, h, fun _ _ _ a ha => by cases ha⟩

/-- One step of a kept system. -/
theorem Config.Kept.step {σ σ' : Config S ι} {g : ι → G} {a : Act S} (hg : σ.Kept L g)
    (hc : L.Cond i (g i) a σ.db) (hs : σ.Step i a σ') :
    L.Commits i (g i) a σ.db σ'.db ∧
      σ'.Kept L (Function.update g i
        (L.note (g i) a ((σ.pool i).own.view σ.db) σ.db σ'.db)) := by
  obtain ⟨s', hstep, hpool⟩ := hs
  obtain ⟨hcommits, hkept⟩ := hstep.kept hg.inv (hg.kept i) hc
  have hheld : ∀ j, j ≠ i → (σ.pool j).own.Held σ.db σ'.db := by
    intro j hj
    rcases hstep.locked with heq | ⟨ks, ws, heq, hws, hks⟩
    · rw [heq]
      exact Local.held_refl _ _
    · rw [heq]
      have hlocks : (σ.pool j).own.locks = (σ.pool j).locks := by cases σ.pool j <;> rfl
      refine Local.held_of_compatible hws ?_ _
      rw [hlocks]
      rcases hks with hfree | rfl
      · exact hfree j hj
      · exact hg.apart i j hj.symm
  have hother : ∀ j, j ≠ i → σ'.pool j = σ.pool j :=
    fun j hj => by rw [hpool, Function.update_of_ne hj]
  have hself : σ'.pool i = s' := by rw [hpool, Function.update_self]
  have hapart : ∀ j, j ≠ i → Compatible s'.locks (σ.pool j).locks := fun j hj =>
    hstep.compatible (fun ks hf => hf j hj) (hg.apart i j hj.symm)
  refine ⟨hcommits, hcommits.1, fun j => ?_, fun j k hjk => ?_⟩
  · by_cases hj : j = i
    · subst hj
      rw [hself, Function.update_self]
      exact hkept
    · rw [hother j hj, Function.update_of_ne hj]
      exact (hg.kept j).held (hheld j hj)
  · by_cases hj : j = i
    · subst hj
      rw [hself, hother k hjk.symm]
      exact hapart k hjk.symm
    · by_cases hk : k = i
      · subst hk
        rw [hself, hother j hj]
        exact (hapart j hj).symm
      · rw [hother j hj, hother k hk]
        exact hg.apart j k hjk

/-- Every run of calls that are kept stays kept, and every change of the committed rows in it is one
its session answers for. -/
theorem Booked.good {Ok : ι → G → Act S → S.Db → Prop} {g₀ : G} {σ₀ σ : Config S ι} {g : ι → G}
    {past : List (Past S ι G)} (hstart : σ₀.Kept L fun _ => g₀)
    (hok : ∀ i g a db, Ok i g a db → L.Cond i g a db) (h : Booked L.note g₀ Ok σ₀ σ g past) :
    σ.Kept L g ∧ ∀ p ∈ past, L.Commits p.who p.noted p.act p.before p.after := by
  induction h with
  | refl => exact ⟨hstart, fun p hp => by cases hp⟩
  | step _ ho hs ih =>
    obtain ⟨hcommits, hkept⟩ := ih.1.step (hok _ _ _ _ ho) hs
    refine ⟨hkept, fun p hp => ?_⟩
    rcases List.mem_append.mp hp with hp | hp
    · exact ih.2 p hp
    · rw [List.mem_singleton.mp hp]
      exact hcommits

/-- Every change of the committed rows in a run of safe calls is one its session guarantees. -/
theorem Booked.safe {P : Protocol S ι} {note : G → Act S → (saw before after : S.Db) → G}
    {Ok : ι → G → Act S → S.Db → Prop} {g₀ : G} {σ₀ σ : Config S ι} {g : ι → G}
    {past : List (Past S ι G)} (hstart : σ₀.Good P)
    (hok : ∀ i g a db, Ok i g a db → P.Cond i a db) (h : Booked note g₀ Ok σ₀ σ g past) :
    σ.Good P ∧ ∀ p ∈ past, p.after = p.before ∨ P.Guar p.who p.act p.before p.after := by
  induction h with
  | refl => exact ⟨hstart, fun p hp => by cases hp⟩
  | step _ ho hs ih =>
    obtain ⟨hgood, hguar⟩ := ih.1.step (hok _ _ _ _ ho) hs
    refine ⟨hgood, fun p hp => ?_⟩
    rcases List.mem_append.mp hp with hp | hp
    · exact ih.2 p hp
    · rw [List.mem_singleton.mp hp]
      exact hguar

/-- What a session has noted, and had not at first, it noted at a step it took. -/
theorem Booked.noted {X : Type} {f : G → Option X} {note : G → Act S → (saw before after : S.Db) → G}
    {Ok : ι → G → Act S → S.Db → Prop} {g₀ : G} {σ₀ σ : Config S ι} {g : ι → G} {past : List (Past S ι G)}
    (hnone : f g₀ = none) (h : Booked note g₀ Ok σ₀ σ g past) {x : X} (hx : f (g i) = some x) :
    ∃ p ∈ past, p.who = i ∧ f p.noted ≠ some x ∧
      ∃ saw, f (note p.noted p.act saw p.before p.after) = some x := by
  induction h with
  | refl =>
    rw [hnone] at hx
    cases hx
  | @step σ σ' g past j a _ _ _ ih =>
    by_cases hbefore : f (g i) = some x
    · obtain ⟨p, hp, hrest⟩ := ih hbefore
      exact ⟨p, List.mem_append_left _ hp, hrest⟩
    · by_cases hij : i = j
      · subst hij
        rw [Function.update_self] at hx
        exact ⟨_, List.mem_append_right _ (List.mem_singleton_self _), rfl, hbefore, _, hx⟩
      · rw [Function.update_of_ne hij] at hx
        exact absurd hx hbefore

/-- How a call has ended: with an exception or without. -/
def Config.ended (σ : Config S ι) (i : ι) : Option (Option S.Error) :=
  match σ.pool i with
  | .call (.ret _) => some none
  | .call (.throw e) => some (some e)
  | _ => none

omit [DecidableEq ι] in
/-- What a call that has ended has left in its notes. -/
theorem Config.Kept.ends {σ : Config S ι} {g : ι → G} {r : Option S.Error} (hg : σ.Kept L g)
    (h : σ.ended i = some r) : L.Ends i r (g i) := by
  have hk := hg.kept i
  unfold Config.ended at h
  cases hs : σ.pool i with
  | inTx l b k own =>
    rw [hs] at h
    cases h
  | call c =>
    rw [hs] at h hk
    cases c with
    | ret a =>
      cases h
      exact hk
    | throw e =>
      cases h
      exact hk
    | _ => cases h

omit [DecidableEq ι] in
theorem Config.ended_of_returned {σ : Config S ι} (h : σ.returned i = true) :
    σ.ended i = some none := by
  unfold Config.returned at h
  unfold Config.ended
  split at h
  · rename_i hs
    rw [hs]
  · cases h

omit [DecidableEq ι] in
/-- What a call that has returned has left in its notes. -/
theorem Config.Kept.returned {σ : Config S ι} {g : ι → G} (hg : σ.Kept L g)
    (h : σ.returned i = true) : L.Ends i none (g i) :=
  hg.ends (Config.ended_of_returned h)

/-! ## Booked runs that can be computed -/

variable [Fintype ι]

/-- Where a schedule leads, with the notes and the steps. -/
def Config.booked (note : G → Act S → (saw before after : S.Db) → G) (time : S.Time)
    (ok : ι → G → Act S → S.Db → Bool) : List (ι × S.Id) → Config S ι → (ι → G) →
      List (Past S ι G) → Option (Config S ι × (ι → G) × List (Past S ι G))
  | [], σ, g, past => some (σ, g, past)
  | (i, id) :: rest, σ, g, past =>
    match σ.advance time i id with
    | some (a, σ') =>
      if ok i (g i) a σ.db then
        booked note time ok rest σ'
          (Function.update g i (note (g i) a ((σ.pool i).own.view σ.db) σ.db σ'.db))
          (past ++ [⟨i, g i, a, σ.db, σ'.db⟩])
      else none
    | none => none

theorem booked_of_schedule {note : G → Act S → (saw before after : S.Db) → G} {g₀ : G}
    {Ok : ι → G → Act S → S.Db → Prop} {ok : ι → G → Act S → S.Db → Bool}
    (hok : ∀ i g a db, ok i g a db = true → Ok i g a db) {time : S.Time} {σ₀ : Config S ι} :
    ∀ {sched : List (ι × S.Id)} {σ : Config S ι} {g : ι → G} {past : List (Past S ι G)}
      {r : Config S ι × (ι → G) × List (Past S ι G)}, Booked note g₀ Ok σ₀ σ g past →
      σ.booked note time ok sched g past = some r → Booked note g₀ Ok σ₀ r.1 r.2.1 r.2.2 := by
  intro sched
  induction sched with
  | nil =>
    intro σ g past r hrun h
    cases h
    exact hrun
  | cons p rest ih =>
    intro σ g past r hrun h
    simp only [Config.booked] at h
    split at h
    · rename_i a σ₁ hstep
      split at h
      · rename_i ha
        exact ih (hrun.step (hok _ _ _ _ ha) (Config.step_of_advance hstep)) h
      · cases h
    · cases h

end Runs
end Sql
