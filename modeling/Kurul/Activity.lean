import Kurul.Db.Scope

/-!
# Kurul.Activity

The activity log: one row for each recorded event, with a JSON payload.
-/

namespace Kurul

open Sql

/-- A string member of a payload. -/
def field (name : String) (value : JsString) : JsString × Json := (js name, .str value)

def Priority.text : Priority → JsString
  | .low => js "LOW"
  | .medium => js "MEDIUM"
  | .high => js "HIGH"
  | .urgent => js "URGENT"

def ColumnCategory.text : ColumnCategory → JsString
  | .backlog => js "BACKLOG"
  | .unstarted => js "UNSTARTED"
  | .started => js "STARTED"
  | .completed => js "COMPLETED"
  | .canceled => js "CANCELED"

def MemberRole.text : MemberRole → JsString
  | .owner => js "OWNER"
  | .admin => js "ADMIN"
  | .member => js "MEMBER"
  | .guest => js "GUEST"

/-- A column an audit entry reports on: its name, and what a row holds there. -/
abbrev AuditField (R : Type) : Type := String × (R → Option JsString)

/-- `fieldChanges`: the fields a write has altered, each with what it held and what was put there. -/
def fieldChanges {R : Type} (before after : R) (fields : List (AuditField R)) :
    List (JsString × Json) :=
  fields.flatMap fun f =>
    if f.2 before = f.2 after then []
    else [(js f.1, .obj [(js "from", .ofOption (f.2 before)), (js "to", .ofOption (f.2 after))])]

structure RecordActivityInput where
  workspaceId : Id
  taskId : Option Id
  userId : Id
  type : ActivityType
  payload : List (JsString × Json)

def ActivityService.record (input : RecordActivityInput) : Tx kurul ActivityRow := do
  let id ← Tx.fresh
  let now ← Tx.now
  create {
    id
    workspaceId := input.workspaceId
    taskId := input.taskId
    userId := input.userId
    type := input.type
    payload := .obj input.payload
    createdAt := now
  }

variable {env : Env kurul} {w w' : World kurul}

/-- The entry that has been written. -/
theorem run_record_entry {input : RecordActivityInput} {a : ActivityRow}
    (h : (ActivityService.record input).run env w = (.ok a, w')) :
    insertRefusal (.activity a) w.db = none ∧ w'.db = w.db.put (.activity a) ∧
      a.workspaceId = input.workspaceId ∧ a.taskId = input.taskId ∧ a.type = input.type ∧
      a.payload = .obj input.payload := by
  obtain ⟨i, w₁, h₁, h⟩ := Tx.run_bind_ok h
  obtain ⟨t, w₂, h₂, h⟩ := Tx.run_bind_ok h
  obtain ⟨hnew, rfl, rfl⟩ := run_create_ok h
  have hdb : w₂.db = w.db := (run_now_ok h₂).trans (run_fresh_ok h₁)
  rw [hdb] at hnew ⊢
  exact ⟨hnew, rfl, rfl, rfl, rfl, rfl⟩

theorem run_record_ok {input : RecordActivityInput} {a : ActivityRow}
    (h : (ActivityService.record input).run env w = (.ok a, w')) :
    ∃ v : ActivityRow, w'.db = w.db.put (.activity v) :=
  ⟨a, (run_record_entry h).2.1⟩

/-- Recording an activity leaves every other table alone. -/
theorem rows_record {R : Type} [Model R] (hR : Model.table R ≠ .activity)
    {input : RecordActivityInput} {a : ActivityRow}
    (h : (ActivityService.record input).run env w = (.ok a, w')) : rows R w'.db = rows R w.db := by
  obtain ⟨v, hv⟩ := run_record_ok h
  rw [hv]
  exact rows_put_of_ne fun heq => hR heq.symm

/-- An entry that is written is the one asked for, and is new. -/
theorem ends_record {input : RecordActivityInput} {ok : ActivityRow → World kurul → Prop}
    {err : ApiError → World kurul → Prop}
    (hok : ∀ (v : ActivityRow) w', v.workspaceId = input.workspaceId → v.userId = input.userId →
      v.type = input.type → v.payload = .obj input.payload →
      insertRefusal (.activity v) w.db = none → w'.db = w.db.put (.activity v) → ok v w')
    (herr : ∀ e w', w'.db = w.db → err e w') :
    (Call.auto (ActivityService.record input)).Ends env w ok err := by
  simp only [ActivityService.record, Tx.fresh, Tx.now, Tx.draw_bind, Tx.ret_bind, Tx.clock_bind,
    Call.auto]
  exact ends_create (w := { w with ids := w.ids + 1, ticks := w.ticks + 1 })
    (fun w' hnew hdb => hok _ w' rfl rfl rfl rfl hnew hdb) herr

theorem writes_record {p : Write Key Row → Prop} (hp : ∀ r, p (.put (.activity r)))
    (input : RecordActivityInput) : (ActivityService.record input).Writes p :=
  fun _ _ => writes_create hp _

theorem record_safe {ι : Type} {P : Protocol kurul ι} {i : ι} {own : Local kurul} {db : Db}
    {input : RecordActivityInput} {Q : ActivityRow → Local kurul → Db → Prop}
    (h : ∀ (v : ActivityRow) db', P.Later own db db' →
      insertRefusal (.activity v) (own.view db') = none →
      Q v (own.add ⟨v, [.put (.activity v)], refLocks (.activity v)⟩) db') :
    (ActivityService.record input).Safe P i Q own db := by
  intro id now
  exact Safe_create fun db' hl hnew => h _ db' hl hnew

end Kurul
