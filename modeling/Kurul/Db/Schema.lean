import Kurul.Db.Rows
import Kurul.Sql.References

/-!
# Kurul.Db.Schema

What `schema.prisma` says beyond the columns: foreign keys with their `onDelete`, unique
constraints, and, for the generic queries, how a model's rows sit among all the rows (`Model`).
-/

namespace Kurul

open Sql

/-! ## Foreign keys -/

/-- The keys a row names. `Task.column` is one composite key: `Row.composite` adds its other
half. -/
def Row.refs : Row → List (Key × OnDelete)
  | .user _ => []
  | .session r => [(⟨.user, r.userId⟩, .cascade)]
  | .account r => [(⟨.user, r.userId⟩, .cascade)]
  | .verification _ => []
  | .workspace _ => []
  | .workspaceMember r => [(⟨.workspace, r.workspaceId⟩, .cascade), (⟨.user, r.userId⟩, .restrict)]
  | .workspaceInvitation r =>
    [(⟨.workspace, r.workspaceId⟩, .cascade), (⟨.user, r.inviterId⟩, .restrict)]
  | .board r => [(⟨.workspace, r.workspaceId⟩, .cascade)]
  | .column r => [(⟨.board, r.boardId⟩, .cascade)]
  | .task r =>
    [(⟨.board, r.boardId⟩, .cascade), (⟨.column, r.columnId⟩, .cascade),
      (⟨.user, r.createdById⟩, .restrict)]
  | .taskAssignee r => [(⟨.task, r.taskId⟩, .cascade), (⟨.user, r.userId⟩, .restrict)]
  | .label r => [(⟨.board, r.boardId⟩, .cascade)]
  | .taskLabel r => [(⟨.task, r.taskId⟩, .cascade), (⟨.label, r.labelId⟩, .cascade)]
  | .comment r => [(⟨.task, r.taskId⟩, .cascade), (⟨.user, r.userId⟩, .restrict)]
  | .attachment r => [(⟨.task, r.taskId⟩, .cascade), (⟨.user, r.uploadedById⟩, .restrict)]
  | .checklist r => [(⟨.task, r.taskId⟩, .cascade)]
  | .checklistItem r => [(⟨.checklist, r.checklistId⟩, .cascade)]
  | .activity r =>
    (⟨.workspace, r.workspaceId⟩, .cascade) :: (⟨.user, r.userId⟩, .restrict) ::
      r.taskId.toList.map fun t => (⟨.task, t⟩, .setNull)
  | .notification r =>
    (⟨.workspace, r.workspaceId⟩, .cascade) :: (⟨.user, r.userId⟩, .cascade) ::
      (r.taskId.toList.map fun t => (⟨.task, t⟩, .cascade)) ++
      r.activityId.toList.map fun a => (⟨.activity, a⟩, .setNull)
  | .usagePing r => [(⟨.user, r.userId⟩, .cascade), (⟨.workspace, r.workspaceId⟩, .cascade)]

/-- Only a task names a column. -/
theorem task_of_refs {v : Row} {columnId : Id} {a : OnDelete}
    (h : (⟨.column, columnId⟩, a) ∈ v.refs) : ∃ t : TaskRow, v = .task t ∧ t.columnId = columnId := by
  cases v with
  | task t =>
    simp only [Row.refs, List.mem_cons, Prod.mk.injEq, Key.mk.injEq, reduceCtorEq, false_and,
      true_and, false_or, or_false, List.not_mem_nil] at h
    exact ⟨t, rfl, h.1.symm⟩
  | _ => simp [Row.refs] at h

/-- `onDelete: SetNull`, the two columns that carry it. -/
def Row.clear (gone : Key → Bool) : Row → Row
  | .activity r =>
    .activity { r with taskId := r.taskId.filter fun t => !gone ⟨.task, t⟩ }
  | .notification r =>
    .notification { r with activityId := r.activityId.filter fun a => !gone ⟨.activity, a⟩ }
  | v => v

def references : References Key Row where
  refs := Row.refs
  clear := Row.clear
  key_clear := by intro p v; cases v <;> rfl

abbrev Db : Type := Store Row

/-- `Task.column` references `(boardId, id)`: the column has to be on the task's own board. -/
def Row.composite (db : Db) : Row → Bool
  | .task r =>
    match db.get? ⟨.column, r.columnId⟩ with
    | some (.column c) => c.boardId = r.boardId
    | _ => false
  | _ => true

/-- Every foreign key of the row resolves. -/
def Row.resolves (db : Db) (v : Row) : Bool :=
  (v.refs.all fun r => (db.get? r.1).isSome) && v.composite db

/-- Tables whose rows go with a task. -/
def Table.belowTask : Table → Bool
  | .task | .taskAssignee | .taskLabel | .comment | .attachment | .checklist | .checklistItem
  | .notification => true
  | _ => false

theorem belowTask_closed (v : Row) (k : Key) (hr : (k, OnDelete.cascade) ∈ v.refs)
    (hk : k.table.belowTask = true) : v.key.table.belowTask = true := by
  cases v <;> simp only [Row.refs, List.mem_cons, List.mem_append, List.mem_map] at hr <;>
    grind [Row.key, Table.belowTask]

/-! ## Unique constraints -/

/-- Two rows no table may hold together, apart from rows under one primary key. -/
def Row.clashes : Row → Row → Bool
  | .user a, .user b => a.email = b.email
  | .session a, .session b => a.token = b.token
  | .workspace a, .workspace b => a.slug = b.slug
  | .workspaceMember a, .workspaceMember b => a.workspaceId = b.workspaceId && a.userId = b.userId
  | .taskAssignee a, .taskAssignee b => a.taskId = b.taskId && a.userId = b.userId
  | .taskLabel a, .taskLabel b => a.taskId = b.taskId && a.labelId = b.labelId
  | .notification a, .notification b =>
    a.type = .dueSoon && b.type = .dueSoon && a.readAt.isNone && b.readAt.isNone &&
      a.taskId.isSome && a.taskId = b.taskId && a.userId = b.userId
  | .usagePing a, .usagePing b =>
    a.userId = b.userId && a.workspaceId = b.workspaceId && a.kind = b.kind && a.day = b.day
  | _, _ => false

/-- The row breaks no unique constraint against the rows under other keys. -/
def Row.unique (db : Db) (v : Row) : Bool :=
  db.rows.all fun u => !(decide (u.key ≠ v.key) && u.clashes v)

/-! ## Models -/

/-- How the rows of one model sit among all the rows. -/
class Model (R : Type) where
  table : Table
  id : R → Id
  row : R → Row
  ofRow : Row → Option R
  ofRow_eq : ∀ {v r}, ofRow v = some r ↔ v = row r
  key_row : ∀ r, (row r).key = ⟨table, id r⟩
  of_table : ∀ {v : Row}, v.key.table = table → (ofRow v).isSome = true

instance : Model UserRow where
  table := .user
  id := UserRow.id
  row := .user
  ofRow
    | .user r => some r
    | _ => none
  ofRow_eq := by intro v r; cases v <;> simp [eq_comm]
  key_row := fun _ => rfl
  of_table := by intro v h; cases v <;> simp [Row.key] at h ⊢

instance : Model SessionRow where
  table := .session
  id := SessionRow.id
  row := .session
  ofRow
    | .session r => some r
    | _ => none
  ofRow_eq := by intro v r; cases v <;> simp [eq_comm]
  key_row := fun _ => rfl
  of_table := by intro v h; cases v <;> simp [Row.key] at h ⊢

instance : Model AccountRow where
  table := .account
  id := AccountRow.id
  row := .account
  ofRow
    | .account r => some r
    | _ => none
  ofRow_eq := by intro v r; cases v <;> simp [eq_comm]
  key_row := fun _ => rfl
  of_table := by intro v h; cases v <;> simp [Row.key] at h ⊢

instance : Model VerificationRow where
  table := .verification
  id := VerificationRow.id
  row := .verification
  ofRow
    | .verification r => some r
    | _ => none
  ofRow_eq := by intro v r; cases v <;> simp [eq_comm]
  key_row := fun _ => rfl
  of_table := by intro v h; cases v <;> simp [Row.key] at h ⊢

instance : Model WorkspaceRow where
  table := .workspace
  id := WorkspaceRow.id
  row := .workspace
  ofRow
    | .workspace r => some r
    | _ => none
  ofRow_eq := by intro v r; cases v <;> simp [eq_comm]
  key_row := fun _ => rfl
  of_table := by intro v h; cases v <;> simp [Row.key] at h ⊢

instance : Model WorkspaceMemberRow where
  table := .workspaceMember
  id := WorkspaceMemberRow.id
  row := .workspaceMember
  ofRow
    | .workspaceMember r => some r
    | _ => none
  ofRow_eq := by intro v r; cases v <;> simp [eq_comm]
  key_row := fun _ => rfl
  of_table := by intro v h; cases v <;> simp [Row.key] at h ⊢

instance : Model WorkspaceInvitationRow where
  table := .workspaceInvitation
  id := WorkspaceInvitationRow.id
  row := .workspaceInvitation
  ofRow
    | .workspaceInvitation r => some r
    | _ => none
  ofRow_eq := by intro v r; cases v <;> simp [eq_comm]
  key_row := fun _ => rfl
  of_table := by intro v h; cases v <;> simp [Row.key] at h ⊢

instance : Model BoardRow where
  table := .board
  id := BoardRow.id
  row := .board
  ofRow
    | .board r => some r
    | _ => none
  ofRow_eq := by intro v r; cases v <;> simp [eq_comm]
  key_row := fun _ => rfl
  of_table := by intro v h; cases v <;> simp [Row.key] at h ⊢

instance : Model ColumnRow where
  table := .column
  id := ColumnRow.id
  row := .column
  ofRow
    | .column r => some r
    | _ => none
  ofRow_eq := by intro v r; cases v <;> simp [eq_comm]
  key_row := fun _ => rfl
  of_table := by intro v h; cases v <;> simp [Row.key] at h ⊢

instance : Model TaskRow where
  table := .task
  id := TaskRow.id
  row := .task
  ofRow
    | .task r => some r
    | _ => none
  ofRow_eq := by intro v r; cases v <;> simp [eq_comm]
  key_row := fun _ => rfl
  of_table := by intro v h; cases v <;> simp [Row.key] at h ⊢

instance : Model TaskAssigneeRow where
  table := .taskAssignee
  id := TaskAssigneeRow.id
  row := .taskAssignee
  ofRow
    | .taskAssignee r => some r
    | _ => none
  ofRow_eq := by intro v r; cases v <;> simp [eq_comm]
  key_row := fun _ => rfl
  of_table := by intro v h; cases v <;> simp [Row.key] at h ⊢

instance : Model LabelRow where
  table := .label
  id := LabelRow.id
  row := .label
  ofRow
    | .label r => some r
    | _ => none
  ofRow_eq := by intro v r; cases v <;> simp [eq_comm]
  key_row := fun _ => rfl
  of_table := by intro v h; cases v <;> simp [Row.key] at h ⊢

instance : Model TaskLabelRow where
  table := .taskLabel
  id := TaskLabelRow.id
  row := .taskLabel
  ofRow
    | .taskLabel r => some r
    | _ => none
  ofRow_eq := by intro v r; cases v <;> simp [eq_comm]
  key_row := fun _ => rfl
  of_table := by intro v h; cases v <;> simp [Row.key] at h ⊢

instance : Model CommentRow where
  table := .comment
  id := CommentRow.id
  row := .comment
  ofRow
    | .comment r => some r
    | _ => none
  ofRow_eq := by intro v r; cases v <;> simp [eq_comm]
  key_row := fun _ => rfl
  of_table := by intro v h; cases v <;> simp [Row.key] at h ⊢

instance : Model AttachmentRow where
  table := .attachment
  id := AttachmentRow.id
  row := .attachment
  ofRow
    | .attachment r => some r
    | _ => none
  ofRow_eq := by intro v r; cases v <;> simp [eq_comm]
  key_row := fun _ => rfl
  of_table := by intro v h; cases v <;> simp [Row.key] at h ⊢

instance : Model ChecklistRow where
  table := .checklist
  id := ChecklistRow.id
  row := .checklist
  ofRow
    | .checklist r => some r
    | _ => none
  ofRow_eq := by intro v r; cases v <;> simp [eq_comm]
  key_row := fun _ => rfl
  of_table := by intro v h; cases v <;> simp [Row.key] at h ⊢

instance : Model ChecklistItemRow where
  table := .checklistItem
  id := ChecklistItemRow.id
  row := .checklistItem
  ofRow
    | .checklistItem r => some r
    | _ => none
  ofRow_eq := by intro v r; cases v <;> simp [eq_comm]
  key_row := fun _ => rfl
  of_table := by intro v h; cases v <;> simp [Row.key] at h ⊢

instance : Model ActivityRow where
  table := .activity
  id := ActivityRow.id
  row := .activity
  ofRow
    | .activity r => some r
    | _ => none
  ofRow_eq := by intro v r; cases v <;> simp [eq_comm]
  key_row := fun _ => rfl
  of_table := by intro v h; cases v <;> simp [Row.key] at h ⊢

instance : Model NotificationRow where
  table := .notification
  id := NotificationRow.id
  row := .notification
  ofRow
    | .notification r => some r
    | _ => none
  ofRow_eq := by intro v r; cases v <;> simp [eq_comm]
  key_row := fun _ => rfl
  of_table := by intro v h; cases v <;> simp [Row.key] at h ⊢

instance : Model UsagePingRow where
  table := .usagePing
  id := UsagePingRow.id
  row := .usagePing
  ofRow
    | .usagePing r => some r
    | _ => none
  ofRow_eq := by intro v r; cases v <;> simp [eq_comm]
  key_row := fun _ => rfl
  of_table := by intro v h; cases v <;> simp [Row.key] at h ⊢

/-- All rows of a model, in physical order. -/
def rows (R : Type) [Model R] (db : Db) : List R := db.rows.filterMap Model.ofRow

section Model

variable {R : Type} [Model R] {db : Db}

theorem row_injective : Function.Injective (Model.row : R → Row) := by
  intro a b h
  have ha : Model.ofRow (Model.row a) = some a := Model.ofRow_eq.mpr rfl
  rw [h, Model.ofRow_eq.mpr rfl] at ha
  exact (Option.some.inj ha).symm

theorem mem_rows {r : R} : r ∈ rows R db ↔ Model.row r ∈ db.rows := by
  unfold rows
  rw [List.mem_filterMap]
  constructor
  · rintro ⟨v, hv, h⟩
    rw [Model.ofRow_eq] at h
    exact h ▸ hv
  · intro h
    exact ⟨_, h, Model.ofRow_eq.mpr rfl⟩

theorem exists_row_of_table {v : Row} (h : v.key.table = Model.table R) : ∃ r : R, v = Model.row r := by
  obtain ⟨r, hr⟩ := Option.isSome_iff_exists.mp (Model.of_table (R := R) h)
  exact ⟨r, Model.ofRow_eq.mp hr⟩

/-- Lookup by primary key, at a model's own type. -/
theorem get?_eq_some {i : Id} {v : Row} :
    db.get? ⟨Model.table R, i⟩ = some v ↔ ∃ r : R, v = Model.row r ∧ r ∈ rows R db ∧ Model.id r = i := by
  rw [Store.get?_eq_some_iff]
  constructor
  · rintro ⟨hv, hk⟩
    have hsome := Model.of_table (R := R) (v := v) (by rw [← keyed_key, hk])
    obtain ⟨r, hr⟩ := Option.isSome_iff_exists.mp hsome
    rw [Model.ofRow_eq] at hr
    subst hr
    refine ⟨r, rfl, mem_rows.mpr hv, ?_⟩
    rw [keyed_key, Model.key_row] at hk
    exact congrArg Key.id hk
  · rintro ⟨r, rfl, hr, rfl⟩
    exact ⟨mem_rows.mp hr, Model.key_row r⟩

theorem get?_row {r : R} (h : r ∈ rows R db) :
    db.get? ⟨Model.table R, Model.id r⟩ = some (Model.row r) :=
  get?_eq_some.mpr ⟨r, rfl, h, rfl⟩

/-- A model's rows carry distinct ids. -/
theorem nodup_ids (R : Type) [Model R] (db : Db) : ((rows R db).map Model.id).Nodup := by
  have hkeys : ((rows R db).map fun r => (⟨Model.table R, Model.id r⟩ : Key)).Sublist
      (db.rows.map Keyed.key) := by
    unfold rows
    induction db.rows with
    | nil => simp
    | cons v l ih =>
      cases hv : Model.ofRow (R := R) v with
      | none =>
        rw [List.filterMap_cons_none hv]
        exact ih.trans (List.sublist_cons_self _ _)
      | some r =>
        rw [List.filterMap_cons_some hv]
        have hk : Keyed.key v = ⟨Model.table R, Model.id r⟩ := by
          rw [Model.ofRow_eq.mp hv]; exact Model.key_row r
        simp only [List.map_cons, hk]
        exact ih.cons_cons _
  have := db.nodup.sublist hkeys
  rw [← Function.comp_def (fun i => (⟨Model.table R, i⟩ : Key)) Model.id, ← List.map_map] at this
  exact this.of_map _

theorem eq_of_id {r r' : R} (h : r ∈ rows R db) (h' : r' ∈ rows R db)
    (hid : Model.id r = Model.id r') : r = r' :=
  List.inj_on_of_nodup_map (nodup_ids R db) h h' hid

/-! ### Writes -/

theorem ofRow_eq_none {v : Row} (h : v.key.table ≠ Model.table R) :
    Model.ofRow (R := R) v = none := by
  cases hv : Model.ofRow (R := R) v with
  | none => rfl
  | some r =>
    rw [Model.ofRow_eq] at hv
    rw [hv, Model.key_row] at h
    exact absurd rfl h

/-- A write to another table is not seen. -/
theorem rows_apply_of_ne {w : Write Key Row} (h : w.key.table ≠ Model.table R) :
    rows R (db.apply w) = rows R db := by
  cases w with
  | put v =>
    have hv : Model.ofRow (R := R) v = none := ofRow_eq_none h
    simp only [Store.apply, Store.put, rows]
    split
    · rw [List.filterMap_map]
      apply List.filterMap_congr
      intro u _
      by_cases hk : u.key = v.key
      · have hu : Model.ofRow (R := R) u = none := ofRow_eq_none (by rw [hk]; exact h)
        simp [hk, hu, hv]
      · simp [hk]
    · simp [hv]
  | del k =>
    simp only [Store.apply, Store.erase, Store.rows_filter, rows, List.filterMap_filter]
    apply List.filterMap_congr
    intro u _
    by_cases hk : u.key = k
    · have hu : Model.ofRow (R := R) u = none := ofRow_eq_none (by rw [hk]; exact h)
      simp [hk, hu]
    · simp [hk]

theorem rows_applyAll_of_ne {ws : List (Write Key Row)}
    (h : ∀ w ∈ ws, w.key.table ≠ Model.table R) : rows R (db.applyAll ws) = rows R db := by
  induction ws generalizing db with
  | nil => rfl
  | cons w ws ih =>
    rw [Store.applyAll_cons, ih fun w' hw' => h w' (List.mem_cons_of_mem w hw')]
    exact rows_apply_of_ne (h w (by simp))

theorem rows_put_of_ne {v : Row} (h : v.key.table ≠ Model.table R) :
    rows R (db.put v) = rows R db :=
  rows_apply_of_ne (w := .put v) h

/-- After a write to its own table: the row written, and every row under another id. -/
theorem mem_rows_put {r r' : R} :
    r' ∈ rows R (db.put (Model.row r)) ↔
      r' = r ∨ (r' ∈ rows R db ∧ Model.id r' ≠ Model.id r) := by
  rw [mem_rows, Store.mem_rows_put, mem_rows, keyed_key, keyed_key, Model.key_row, Model.key_row]
  simp [row_injective.eq_iff]

theorem mem_rows_erase {r : R} {i : Id} :
    r ∈ rows R (db.erase ⟨Model.table R, i⟩) ↔ r ∈ rows R db ∧ Model.id r ≠ i := by
  rw [mem_rows, mem_rows]
  simp [Store.erase, Store.filter, Model.key_row]

/-- A row written over another stands where that one stood. -/
theorem rows_put_of_mem {r r' : R} (hr : r' ∈ rows R db) (hid : Model.id r' = Model.id r) :
    rows R (db.put (Model.row r)) = (rows R db).map fun u => if Model.id u = Model.id r then r else u := by
  have hmem : Keyed.key (Model.row r) ∈ db.rows.map Keyed.key := by
    rw [keyed_key, Model.key_row, ← hid, ← Model.key_row]
    exact List.mem_map_of_mem (mem_rows.mp hr)
  have hput : (db.put (Model.row r)).rows =
      db.rows.map fun u => if u.key = (Model.row r).key then Model.row r else u := by
    unfold Store.put
    rw [dif_pos hmem]
    rfl
  unfold rows
  rw [hput, List.filterMap_map, List.map_filterMap]
  refine List.filterMap_congr fun v _ => ?_
  cases hv : Model.ofRow (R := R) v with
  | some u =>
    have hkey : v.key = (Model.row r).key ↔ Model.id u = Model.id r := by
      rw [Model.ofRow_eq.mp hv, Model.key_row, Model.key_row]
      simp
    rw [Function.comp_apply]
    by_cases hu : Model.id u = Model.id r
    · rw [if_pos (hkey.mpr hu), Option.map_some, if_pos hu, Model.ofRow_eq.mpr rfl]
    · rw [if_neg (mt hkey.mp hu), hv, Option.map_some, if_neg hu]
  | none =>
    have hkey : v.key ≠ (Model.row r).key := by
      intro heq
      obtain ⟨u, rfl⟩ := exists_row_of_table (R := R) (by rw [heq, Model.key_row])
      rw [Model.ofRow_eq.mpr rfl] at hv
      cases hv
    rw [Function.comp_apply, if_neg hkey, hv]
    rfl

/-- After writing rows under distinct ids: the rows written, and every row under another id. -/
theorem mem_rows_puts {α : Type} {l : List α} {f : α → R} (hnd : (l.map fun a => Model.id (f a)).Nodup)
    {r' : R} :
    r' ∈ rows R (db.applyAll (l.map fun a => .put (Model.row (f a)))) ↔
      (∃ a ∈ l, r' = f a) ∨ (r' ∈ rows R db ∧ ∀ a ∈ l, Model.id r' ≠ Model.id (f a)) := by
  induction l generalizing db with
  | nil => simp
  | cons a l ih =>
    rw [List.map_cons, List.nodup_cons] at hnd
    rw [List.map_cons, Store.applyAll_cons, ih hnd.2]
    simp only [Store.apply, mem_rows_put, List.mem_cons, forall_eq_or_imp, exists_eq_or_imp]
    constructor
    · rintro (h | ⟨rfl | ⟨hr, hne⟩, hl⟩)
      · exact .inl (.inr h)
      · exact .inl (.inl rfl)
      · exact .inr ⟨hr, hne, hl⟩
    · rintro ((rfl | h) | ⟨hr, hne, hl⟩)
      · refine .inr ⟨.inl rfl, fun b hb heq => hnd.1 ?_⟩
        exact List.mem_map.mpr ⟨b, hb, heq.symm⟩
      · exact .inl h
      · exact .inr ⟨.inr ⟨hr, hne⟩, hl⟩

/-- A row that is there after some writes was put by one of them, or was there before. -/
theorem mem_rows_applyAll {ws : List (Write Key Row)} {r : R} (h : r ∈ rows R (db.applyAll ws)) :
    .put (Model.row r) ∈ ws ∨ r ∈ rows R db := by
  have hget := get?_row h
  by_cases hk : (⟨Model.table R, Model.id r⟩ : Key) ∈ ws.map Write.key
  · exact .inl (Store.put_mem_of_get?_applyAll hk db hget)
  · rw [Store.get?_applyAll_of_not_mem hk] at hget
    exact .inr (mem_rows.mpr (Store.mem_of_get? hget))

/-- A delete of rows in tables closed under cascading removes rows there, and writes no other row
but an activity or a notification, to clear what it points at. -/
theorem mem_deletion_closed {T : Table → Bool} {l : List R} {ws : List (Write Key Row)}
    (hT : ∀ (v : Row) (k : Key), (k, OnDelete.cascade) ∈ v.refs → T k.table = true →
      T v.key.table = true)
    (hR : T (Model.table R) = true)
    (h : db.deletion references (l.map fun r => (⟨Model.table R, Model.id r⟩ : Key)) = some ws)
    {w : Write Key Row} (hw : w ∈ ws) :
    (∃ k, T k.table = true ∧ w = .del k) ∨
      ∃ v : Row, (v.key.table = .activity ∨ v.key.table = .notification) ∧ w = .put v := by
  rcases Store.mem_deletion h hw with ⟨v, _, hv, rfl⟩ | ⟨v, _, _, hn, rfl⟩
  · refine .inl ⟨_, Store.doomed_subset (P := fun k => T k.table = true) ?_
      (fun v _ k hr hk => hT v k hr hk) _ hv, rfl⟩
    intro k hk
    obtain ⟨r, _, rfl⟩ := List.mem_map.mp hk
    exact hR
  · obtain ⟨k, _, hr⟩ := references.names_iff.mp hn
    refine .inr ⟨_, ?_, rfl⟩
    rw [← keyed_key, references.key_clear]
    cases v <;> simp_all [references, Row.refs, Row.key]

end Model
end Kurul
