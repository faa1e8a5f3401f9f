import Kurul.Activity
import Kurul.Sql.Ledger

/-!
# Kurul.Db.Kept

The statements of the client, and what a call that sends them has to keep under a ledger.

* `seen`         — notes of the rows each statement of a session was evaluated on, in order.
* `Kept_query` and its siblings — a statement inside a transaction.
* `Kept_auto_query` and its siblings — a statement outside one.
-/

namespace Kurul

open Sql

/-- Everything a session's statements have been evaluated on. -/
def seen (g : List Db) (a : Act kurul) (saw _before _after : Db) : List Db :=
  match a with
  | .exec _ => g ++ [saw]
  | _ => g

theorem seen_quiet (g : List Db) (saw db : Db) : seen g .quiet saw db db = g := rfl

section Statements

variable {R α : Type} [Model R] {ι G : Type} {L : Sql.Ledger kurul ι G} {i : ι} {g : G}
  {own : Local kurul} {db : Db}

/-! ## Inside a transaction -/

theorem Kept_query {Q : α → G → Local kurul → Db → Prop} {f : Db → α}
    (h : ∀ db', L.Now i own g (.exec .query) db db' →
      Q (f (own.view db')) (L.note g (.exec .query) (own.view db') db' db') own db') :
    (query f).Kept L i Q g own db := by
  intro db' hn e he
  rw [← Except.ok.inj he]
  have hown : own.add (⟨f (own.view db'), [], []⟩ : Effect kurul α) = own := Local.add_read _ _
  rw [hown]
  exact h db' hn

/-- A statement that locks a row, if there is one. -/
theorem Kept_lockRow {Q : Unit → G → Local kurul → Db → Prop} {k : Key}
    (h : ∀ db', L.Now i own g (.exec .lock) db db' → ∀ own' : Local kurul, own'.delta = own.delta →
      Q () (L.note g (.exec .lock) (own.view db') db' db') own' db') :
    (lockRow k).Kept L i Q g own db := by
  intro db' hn e he
  rw [← Except.ok.inj he]
  exact h db' hn _ (List.append_nil _)

theorem Kept_orThrow {Q : α → G → Local kurul → Db → Prop} {x : Option α} {e : ApiError}
    (h : ∀ a, x = some a → Q a g own db) : (orThrow x e).Kept L i Q g own db := by
  cases x with
  | none => trivial
  | some a => exact h a rfl

theorem Kept_throwIf {Q : Unit → G → Local kurul → Db → Prop} {c : Bool} {e : ApiError}
    (h : c = false → Q () g own db) : (throwIf c e).Kept L i Q g own db := by
  cases c with
  | true => trivial
  | false => exact h rfl

theorem Kept_ofExcept {Q : α → G → Local kurul → Db → Prop} {x : Except ApiError α}
    (h : ∀ a, x = .ok a → Q a g own db) : (ofExcept x).Kept L i Q g own db := by
  cases x with
  | error e => trivial
  | ok a => exact h a rfl

theorem Kept_create {Q : R → G → Local kurul → Db → Prop} {r : R}
    (h : ∀ db', L.Now i own g (.exec (.insert (Model.table R))) db db' →
      insertRefusal (Model.row r) (own.view db') = none →
      Q r (L.note g (.exec (.insert (Model.table R))) (own.view db') db' db')
        (own.add ⟨r, [.put (Model.row r)], refLocks (Model.row r)⟩) db') :
    (create r).Kept L i Q g own db := by
  intro db' hn e he
  obtain ⟨hnew, rfl⟩ := eval_create he
  exact h db' hn hnew

theorem Kept_update {Q : R → G → Local kurul → Db → Prop} {p : Db → R → Bool} {data : Patch R}
    (h : ∀ db', L.Now i own g (.exec (.update (Model.table R))) db db' → ∀ r,
      (rows R (own.view db')).find? (p (own.view db')) = some r →
      Q (data.apply r) (L.note g (.exec (.update (Model.table R))) (own.view db') db' db')
        (own.add ⟨data.apply r, [.put (Model.row (data.apply r))],
          newRefLocks (Model.row r) (Model.row (data.apply r))⟩) db') :
    (update p data).Kept L i Q g own db := by
  intro db' hn e he
  obtain ⟨r, hr, _, rfl⟩ := eval_update he
  exact h db' hn r hr

theorem Kept_deleteMany {Q : Nat → G → Local kurul → Db → Prop} {p : Db → R → Bool}
    (h : ∀ db', L.Now i own g (.exec (.delete (Model.table R))) db db' → ∀ ws,
      (own.view db').deletion references (((rows R (own.view db')).filter (p (own.view db'))).map
        fun r => (⟨Model.table R, Model.id r⟩ : Key)) = some ws →
      Q ((rows R (own.view db')).filter (p (own.view db'))).length
        (L.note g (.exec (.delete (Model.table R))) (own.view db') db' db')
        (own.add (⟨((rows R (own.view db')).filter (p (own.view db'))).length, ws, []⟩ :
          Effect kurul Nat)) db') :
    (deleteMany p).Kept L i Q g own db := by
  intro db' hn e he
  obtain ⟨ws, hws, rfl⟩ := eval_deleteMany he
  exact h db' hn ws hws

theorem Kept_record {Q : ActivityRow → G → Local kurul → Db → Prop} {input : RecordActivityInput}
    (h : ∀ (v : ActivityRow) db', L.Now i own g (.exec (.insert .activity)) db db' →
      v.workspaceId = input.workspaceId → v.taskId = input.taskId → v.type = input.type →
      v.payload = .obj input.payload → insertRefusal (.activity v) (own.view db') = none →
      Q v (L.note g (.exec (.insert .activity)) (own.view db') db' db')
        (own.add ⟨v, [.put (.activity v)], refLocks (.activity v)⟩) db') :
    (ActivityService.record input).Kept L i Q g own db := by
  intro id now
  exact Kept_create fun db' hn hnew => h _ db' hn rfl rfl rfl rfl hnew

omit [Model R] in
theorem Kept_withIds {T : Type} {row : Id → T → R} {Q : List R → G → Local kurul → Db → Prop}
    {items : List T}
    (h : ∀ data, (∀ r ∈ data, ∃ id, ∃ item ∈ items, r = row id item) → Q data g own db) :
    (withIds row items).Kept L i Q g own db := by
  induction items generalizing Q with
  | nil => exact h [] fun r hr => by cases hr
  | cons item rest ih =>
    simp only [withIds, Tx.Kept_bind]
    intro id
    refine ih fun data hdata => h _ fun r hr => ?_
    rcases List.mem_cons.mp hr with rfl | hr
    · exact ⟨id, item, List.mem_cons_self, rfl⟩
    · obtain ⟨id', item', hitem, heq⟩ := hdata r hr
      exact ⟨id', item', List.mem_cons_of_mem _ hitem, heq⟩

/-! ## Outside one -/

variable {Q : α → G → Prop} {E : ApiError → G → Prop}

theorem Kept_auto_query {f : Db → α} (herr : ∀ x, E x g)
    (h : ∀ db, L.Inv db → L.Cond i g (.exec .query) db →
      Q (f db) (L.note g (.exec .query) db db db)) :
    (Call.auto (query f)).Kept L i Q E g := by
  rw [query, Call.auto_exec]
  refine Call.Kept_exec herr fun db hinv hc e he => ?_
  rw [← Except.ok.inj he]
  exact ⟨.same hinv (by simp), h db hinv hc⟩

theorem Kept_auto_orThrow {x : Option α} {e : ApiError} (herr : E e g)
    (h : ∀ a, x = some a → Q a g) : (Call.auto (orThrow x e)).Kept L i Q E g := by
  cases x with
  | none => exact herr
  | some a => exact h a rfl

theorem Kept_auto_throwIf {Q : Unit → G → Prop} {c : Bool} {e : ApiError} (herr : E e g)
    (h : c = false → Q () g) : (Call.auto (throwIf c e)).Kept L i Q E g := by
  cases c with
  | true => exact herr
  | false => exact h rfl

theorem Kept_auto_ofExcept {x : Except ApiError α} (herr : ∀ e, E e g)
    (h : ∀ a, x = .ok a → Q a g) : (Call.auto (ofExcept x)).Kept L i Q E g := by
  cases x with
  | error e => exact herr e
  | ok a => exact h a rfl

theorem Kept_auto_create {Q : R → G → Prop} {r : R} (herr : ∀ x, E x g)
    (h : ∀ db, L.Inv db → L.Cond i g (.exec (.insert (Model.table R))) db →
      insertRefusal (Model.row r) db = none →
      L.Commits i g (.exec (.insert (Model.table R))) db (db.put (Model.row r)) ∧
        Q r (L.note g (.exec (.insert (Model.table R))) db db (db.put (Model.row r)))) :
    (Call.auto (create r)).Kept L i Q E g := by
  rw [create, Call.auto_exec]
  refine Call.Kept_exec herr fun db hinv hc e he => ?_
  obtain ⟨hnew, rfl⟩ := eval_create he
  exact h db hinv hc hnew

theorem Kept_auto_update {Q : R → G → Prop} {p : Db → R → Bool} {data : Patch R} (herr : ∀ x, E x g)
    (h : ∀ db, L.Inv db → L.Cond i g (.exec (.update (Model.table R))) db → ∀ r,
      (rows R db).find? (p db) = some r →
      L.Commits i g (.exec (.update (Model.table R))) db (db.put (Model.row (data.apply r))) ∧
        Q (data.apply r) (L.note g (.exec (.update (Model.table R))) db db
          (db.put (Model.row (data.apply r))))) :
    (Call.auto (update p data)).Kept L i Q E g := by
  rw [update, Call.auto_exec]
  refine Call.Kept_exec herr fun db hinv hc e he => ?_
  obtain ⟨r, hr, _, rfl⟩ := eval_update he
  exact h db hinv hc r hr

theorem Kept_auto_deleteMany {Q : Nat → G → Prop} {p : Db → R → Bool} (herr : ∀ x, E x g)
    (h : ∀ db, L.Inv db → L.Cond i g (.exec (.delete (Model.table R))) db → ∀ ws,
      db.deletion references (((rows R db).filter (p db)).map
        fun r => (⟨Model.table R, Model.id r⟩ : Key)) = some ws →
      L.Commits i g (.exec (.delete (Model.table R))) db (db.applyAll ws) ∧
        Q ((rows R db).filter (p db)).length
          (L.note g (.exec (.delete (Model.table R))) db db (db.applyAll ws))) :
    (Call.auto (deleteMany p)).Kept L i Q E g := by
  rw [deleteMany, Call.auto_exec]
  refine Call.Kept_exec herr fun db hinv hc e he => ?_
  obtain ⟨ws, hws, rfl⟩ := eval_deleteMany he
  exact h db hinv hc ws hws

theorem Kept_auto_now {Q : Instant → G → Prop} (h : ∀ t, Q t g) :
    (Call.auto Tx.now).Kept L i Q E g :=
  h

omit [Model R] in
theorem Kept_auto_withIds {T : Type} {row : Id → T → R} {Q : List R → G → Prop} {items : List T}
    (h : ∀ data, (∀ r ∈ data, ∃ id, ∃ item ∈ items, r = row id item) → Q data g) :
    (Call.auto (withIds row items)).Kept L i Q E g := by
  induction items generalizing Q with
  | nil => exact h [] fun r hr => by cases hr
  | cons item rest ih =>
    simp only [withIds, Call.auto_bind, Call.Kept_bind]
    intro id
    refine ih fun data hdata => h _ fun r hr => ?_
    rcases List.mem_cons.mp hr with rfl | hr
    · exact ⟨id, item, List.mem_cons_self, rfl⟩
    · obtain ⟨id', item', hitem, heq⟩ := hdata r hr
      exact ⟨id', item', List.mem_cons_of_mem _ hitem, heq⟩

theorem Kept_auto_record {Q : ActivityRow → G → Prop} {input : RecordActivityInput}
    (herr : ∀ x, E x g)
    (h : ∀ (v : ActivityRow) db, L.Inv db → L.Cond i g (.exec (.insert .activity)) db →
      insertRefusal (.activity v) db = none →
      L.Commits i g (.exec (.insert .activity)) db (db.put (.activity v)) ∧
        Q v (L.note g (.exec (.insert .activity)) db db (db.put (.activity v)))) :
    (Call.auto (ActivityService.record input)).Kept L i Q E g := by
  intro id now
  exact Kept_auto_create herr fun db hinv hc hnew => h _ db hinv hc hnew

end Statements
end Kurul
