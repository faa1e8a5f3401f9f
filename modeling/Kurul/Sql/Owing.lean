import Kurul.Sql.Ledger

/-!
# Kurul.Sql.Owing

A ledger of debts: a session that changes the committed rows may come to owe something for it, and pays
by what it publishes.

* `owe`          — the notes: what a session owes after each step.
* `owing`        — the ledger; a call that ends has to have paid, unless it is excused.
* `Booked.paid`  — whatever a step came to owe is owed still, or was paid by a later step of its session.
* `owing_paid`   — along every run of calls that are kept, a call that has ended has paid.
-/

namespace Sql

variable {S : Sig} {ι κ α β : Type} [DecidableEq κ]

/-- What a session owes after a step. -/
def owe (incurs : S.Db → S.Db → List κ) (pays : S.Event → Option κ) (g : List κ) (a : Act S)
    (_saw before after : S.Db) : List κ :=
  match a with
  | .publish e => g.filter fun k => pays e ≠ some k
  | _ => g ++ incurs before after

/-- What debts there are, and what is asked of the calls about them. -/
structure Debts (S : Sig) (ι κ : Type) where
  /-- What a change of the committed rows costs the session that makes it. -/
  incurs : S.Db → S.Db → List κ
  pays : S.Event → Option κ
  /-- What is assumed of the steps a run takes. -/
  Cond : ι → List κ → Act S → S.Db → Prop
  /-- A call that may end in debt. -/
  Excused : ι → Option S.Error → Prop
  incurs_self : ∀ db, incurs db db = []

variable (D : Debts S ι κ)

theorem owe_same {a : Act S} (ha : ∀ e, a ≠ .publish e) (g : List κ) (saw db : S.Db) :
    owe D.incurs D.pays g a saw db db = g := by
  cases a with
  | publish e => exact absurd rfl (ha e)
  | _ => simp [owe, D.incurs_self]

/-- Every call that ends has paid, or is excused. -/
def owing : Ledger S ι (List κ) where
  note := owe D.incurs D.pays
  Within := Eq
  Inv _ := True
  Cond := D.Cond
  Guar _ _ _ _ _ := True
  Ends i r g := D.Excused i r ∨ g = []
  note_quiet := owe_same D (by simp)
  within_refl := fun _ => rfl
  within_trans := fun h h' => h.trans h'
  within_exec := fun g _ saw db => (owe_same D (by simp) g saw db).symm

variable {D} {i : ι} {g : List κ} {own : Local S} {db : S.Db}

@[simp] theorem owing_note_exec (g : List κ) (l : S.Label) (saw db : S.Db) :
    (owing D).note g (.exec l) saw db db = g :=
  owe_same D (a := .exec l) (by simp) g saw db

/-! ## Rules -/

section Rules

/-- A statement inside a transaction costs nothing yet. -/
theorem owing_exec {Q : β → List κ → Local S → S.Db → Prop} {s : Stmt S β}
    (h : ∀ db', own.Held db db' → D.Cond i g (.exec s.label) db' → ∀ e,
      s.eval (own.view db') = .ok e → Q e.result g (own.add e) db') :
    (Tx.exec s).Kept (owing D) i Q g own db := by
  intro db' hn e he
  rw [owing_note_exec]
  exact h db' hn.1 hn.2.2 e he

/-- A commit costs what its change of the rows does. -/
theorem owing_commit {l : S.Label} {Q : β → List κ → Prop} {b : β}
    (h : ∀ db', own.Held db db' → Q b (g ++ D.incurs db' (own.view db'))) :
    CommitKept (owing D) i l Q b g own db :=
  fun db' hn => ⟨⟨trivial, .inr trivial⟩, h db' hn.1⟩

theorem owing_transaction {l : S.Label} {b : Tx S β} {Q : β → List κ → Prop}
    {E : S.Error → List κ → Prop} (herr : ∀ x, E x g)
    (h : ∀ db, b.Kept (owing D) i (CommitKept (owing D) i l Q) g .empty db) :
    (Call.transaction l b).Kept (owing D) i Q E g :=
  Call.Kept_transaction (fun x _ hg => hg ▸ herr x) fun db _ => h db

/-- A statement outside a transaction costs what its writes do. -/
theorem owing_auto {s : Stmt S β} {Q : β → List κ → Prop} {E : S.Error → List κ → Prop}
    (herr : ∀ x, E x g)
    (h : ∀ db e, s.eval db = .ok e → Q e.result (g ++ D.incurs db (db.applyAll e.writes))) :
    (Call.exec s).Kept (owing D) i Q E g :=
  Call.Kept_exec herr fun db _ _ e he => ⟨⟨trivial, .inr trivial⟩, h db e he⟩

/-- Reading costs nothing. -/
theorem owing_read {p : Tx S β} {Q : β → List κ → Prop} {E : S.Error → List κ → Prop}
    (hread : p.ReadOnly) (hQ : ∀ b, Q b g) (hE : ∀ x, E x g) :
    (Call.auto p).Kept (owing D) i Q E g := by
  induction p with
  | ret b => exact hQ b
  | throw e => exact hE e
  | stmt s k ih =>
    simp only [Call.auto, Call.Kept]
    refine ⟨fun db _ _ e he => ⟨⟨trivial, .inr trivial⟩, ?_⟩, hE⟩
    rw [(hread.1 db e he).1, Store.applyAll_nil, owing_note_exec]
    exact ih e.result (hread.2 e.result)
  | draw k ih => exact fun x => ih x (hread x)
  | clock k ih => exact fun t => ih t (hread t)

/-- An event pays. -/
theorem owing_publish {Q : Unit → List κ → Prop} {E : S.Error → List κ → Prop} {e : S.Event}
    (h : Q () (g.filter fun k => D.pays e ≠ some k)) :
    (Call.publish e).Kept (owing D) i Q E g :=
  fun _ _ => h

end Rules

/-! ## Runs -/

section Runs

variable [DecidableEq ι]

/-- Publishing changes no row. -/
theorem Session.Step.publish_db {free : List (Lock S.Key) → Prop} {db db' : S.Db} {s s' : Session S}
    {e : S.Event} (h : Session.Step free db s (.publish e) db' s') : db' = db := by
  cases h
  rfl

/-- What a step came to owe is owed still, or a later step of its session has paid it. -/
theorem Booked.paid {Ok : ι → List κ → Act S → S.Db → Prop} {σ₀ σ : Config S ι} {g : ι → List κ}
    {past : List (Past S ι (List κ))} (h : Booked (owe D.incurs D.pays) [] Ok σ₀ σ g past) :
    ∀ {pre post : List (Past S ι (List κ))} {p : Past S ι (List κ)} {k : κ},
      past = pre ++ p :: post → k ∈ D.incurs p.before p.after →
      k ∈ g p.who ∨ ∃ q ∈ post, q.who = p.who ∧ ∃ e, q.act = .publish e ∧ D.pays e = some k := by
  induction h with
  | refl =>
    intro pre post p k hsplit _
    simp at hsplit
  | @step σ σ' g past i a _ _ hs ih =>
    intro pre post p k hsplit hk
    obtain ⟨s', hstep, _⟩ := hs
    rcases List.eq_nil_or_concat post with rfl | ⟨post', q, rfl⟩
    · -- the step just taken
      obtain ⟨_, hp⟩ := List.append_inj' hsplit rfl
      obtain rfl := (List.cons.inj hp).1
      refine .inl ?_
      rw [Function.update_self]
      cases a with
      | publish e =>
        rw [hstep.publish_db, D.incurs_self] at hk
        cases hk
      | _ => exact List.mem_append_right _ hk
    · -- one taken before it
      rw [List.concat_eq_append] at hsplit ⊢
      rw [← List.cons_append, ← List.append_assoc] at hsplit
      obtain ⟨hpast, hq⟩ := List.append_inj' hsplit rfl
      obtain rfl := (List.cons.inj hq).1
      rcases ih hpast hk with howed | ⟨q, hq, hwho, hpays⟩
      · by_cases hi : p.who = i
        · rw [hi, Function.update_self]
          subst hi
          cases a with
          | publish e =>
            by_cases he : D.pays e = some k
            · exact .inr ⟨_, List.mem_append_right _ List.mem_cons_self, rfl, e, rfl, he⟩
            · exact .inl (List.mem_filter.mpr ⟨howed, decide_eq_true he⟩)
          | _ => exact .inl (List.mem_append_left _ howed)
        · rw [Function.update_of_ne hi]
          exact .inl howed
      · exact .inr ⟨q, List.mem_append_left _ hq, hwho, hpays⟩

/-- Along every run of calls that are kept: a call that has ended, and is not excused, has paid for
every step it took. -/
theorem owing_paid {Ok : ι → List κ → Act S → S.Db → Prop} {σ₀ σ : Config S ι} {g : ι → List κ}
    {past : List (Past S ι (List κ))} (hstart : σ₀.Kept (owing D) fun _ => [])
    (hok : ∀ i g a db, Ok i g a db → D.Cond i g a db)
    (h : Booked (owe D.incurs D.pays) [] Ok σ₀ σ g past) {pre post : List (Past S ι (List κ))}
    {p : Past S ι (List κ)} {k : κ} {r : Option S.Error} (hsplit : past = pre ++ p :: post)
    (hk : k ∈ D.incurs p.before p.after) (hend : σ.ended p.who = some r)
    (hexcused : ¬ D.Excused p.who r) :
    ∃ q ∈ post, q.who = p.who ∧ ∃ e, q.act = .publish e ∧ D.pays e = some k := by
  have hkept := (Booked.good (L := owing D) hstart hok h).1
  refine (h.paid hsplit hk).resolve_left fun howed => ?_
  rcases hkept.ends hend with hex | hnil
  · exact hexcused hex
  · rw [hnil] at howed
    cases howed

end Runs

end Sql
