import Kurul.Db.Scope
import Kurul.Order.SortBy
import Kurul.Runtime

/-!
# Kurul.Task.TaskDto

What a task read includes, and the pure mapping from rows to what the client receives.
-/

namespace Kurul

open Sql

inductive LabelColorSlot where
  | slot1 | slot2 | slot3 | slot4 | slot5 | slot6 | slot7 | slot8
  deriving DecidableEq

/-- Narrows the stored color to a slot; anything else reads as the first. -/
def toLabelColorSlot (value : JsString) : LabelColorSlot :=
  if value = js "slot-2" then .slot2
  else if value = js "slot-3" then .slot3
  else if value = js "slot-4" then .slot4
  else if value = js "slot-5" then .slot5
  else if value = js "slot-6" then .slot6
  else if value = js "slot-7" then .slot7
  else if value = js "slot-8" then .slot8
  else .slot1

structure TaskAssigneeDto where
  userId : Id
  name : JsString
  avatarUrl : Option JsString
  deriving DecidableEq

structure LabelDto where
  id : Id
  boardId : Id
  name : JsString
  color : LabelColorSlot
  deriving DecidableEq

structure ChecklistItemDto where
  id : Id
  content : JsString
  isDone : Bool
  position : Position
  deriving DecidableEq

structure ChecklistDto where
  id : Id
  title : JsString
  position : Position
  items : List ChecklistItemDto
  deriving DecidableEq

structure ChecklistSummaryDto where
  total : Nat
  done : Nat
  deriving DecidableEq

structure TaskDto where
  id : Id
  boardId : Id
  columnId : Id
  title : JsString
  description : Option JsString
  priority : Priority
  position : Position
  dueDate : Option JsString
  estimatedMinutes : Option Int
  createdById : Id
  createdAt : JsString
  updatedAt : JsString
  assignees : List TaskAssigneeDto
  labels : List LabelDto
  checklistSummary : ChecklistSummaryDto
  checklists : Option (List ChecklistDto)
  attachmentCount : Nat
  deriving DecidableEq

/-! ## Includes -/

/-- A task with the relations a single-task read includes. -/
structure TaskDetailRow where
  task : TaskRow
  assignees : List UserRow
  labels : List LabelRow
  checklists : List (ChecklistRow × List ChecklistItemRow)

/-- `taskInclude`: assignees and labels in the order of their join rows. -/
def taskAssignees (db : Db) (taskId : Id) : List UserRow :=
  (sortBy TaskAssigneeRow.id ((rows TaskAssigneeRow db).filter fun a => a.taskId = taskId)).filterMap
    fun a => byId UserRow db a.userId

def taskLabels (db : Db) (taskId : Id) : List LabelRow :=
  (sortBy TaskLabelRow.id ((rows TaskLabelRow db).filter fun l => l.taskId = taskId)).filterMap
    fun l => byId LabelRow db l.labelId

/-- `checklistDetailInclude`: lists and items in position order. -/
def taskChecklists (db : Db) (taskId : Id) : List (ChecklistRow × List ChecklistItemRow) :=
  (sortBy ChecklistRow.position ((rows ChecklistRow db).filter fun c => c.taskId = taskId)).map
    fun c => (c, sortBy ChecklistItemRow.position
      ((rows ChecklistItemRow db).filter fun i => i.checklistId = c.id))

def taskDetailInclude (db : Db) (task : TaskRow) : TaskDetailRow :=
  ⟨task, taskAssignees db task.id, taskLabels db task.id, taskChecklists db task.id⟩

/-- A task as the board list reads it: checklist items reduced to their state. -/
structure TaskListRow where
  task : TaskRow
  assignees : List UserRow
  labels : List LabelRow
  checklists : List (List Bool)

def taskListInclude (db : Db) (task : TaskRow) : TaskListRow :=
  ⟨task, taskAssignees db task.id, taskLabels db task.id,
    ((rows ChecklistRow db).filter fun c => c.taskId = task.id).map fun c =>
      ((rows ChecklistItemRow db).filter fun i => i.checklistId = c.id).map ChecklistItemRow.isDone⟩

/-- A new task has nothing pointing at it. -/
def emptyTaskRelations (task : TaskRow) : TaskDetailRow := ⟨task, [], [], []⟩

/-! ## Mapping -/

def toTaskAssigneeDto (user : UserRow) : TaskAssigneeDto := ⟨user.id, user.name, user.avatarUrl⟩

def toLabelDto (label : LabelRow) : LabelDto :=
  ⟨label.id, label.boardId, label.name, toLabelColorSlot label.color⟩

/-- `done`/`total` across every checklist of the task. -/
def summarizeChecklists (checklists : List (List Bool)) : ChecklistSummaryDto where
  total := checklists.flatten.length
  done := checklists.flatten.count true

def toTaskCore (row : TaskRow) (assignees : List UserRow) (labels : List LabelRow)
    (checklistSummary : ChecklistSummaryDto) (checklists : Option (List ChecklistDto))
    (attachmentCount : Nat) : TaskDto where
  id := row.id
  boardId := row.boardId
  columnId := row.columnId
  title := row.title
  description := row.description
  priority := row.priority
  position := row.position
  dueDate := row.dueDate.map toISOString
  estimatedMinutes := row.estimatedMinutes
  createdById := row.createdById
  createdAt := toISOString row.createdAt
  updatedAt := toISOString row.updatedAt
  assignees := assignees.map toTaskAssigneeDto
  labels := labels.map toLabelDto
  checklistSummary
  checklists
  attachmentCount

def toChecklistDto (list : ChecklistRow × List ChecklistItemRow) : ChecklistDto where
  id := list.1.id
  title := list.1.title
  position := list.1.position
  items := list.2.map fun i => ⟨i.id, i.content, i.isDone, i.position⟩

/-- Single-task mapping: the full checklists, plus the summary the card reads. -/
def toTaskDetailDto (row : TaskDetailRow) (attachmentCount : Nat) : TaskDto :=
  toTaskCore row.task row.assignees row.labels
    (summarizeChecklists (row.checklists.map fun c => c.2.map ChecklistItemRow.isDone))
    (some (row.checklists.map toChecklistDto)) attachmentCount

/-- Board list mapping: `checklists` is `null`, not `[]`. -/
def toTaskListDto (row : TaskListRow) (attachmentCount : Nat) : TaskDto :=
  toTaskCore row.task row.assignees row.labels (summarizeChecklists row.checklists) none
    attachmentCount

/-! ## Attachment counts -/

def attachmentsOf (db : Db) (taskId : Id) : Nat :=
  ((rows AttachmentRow db).filter fun a => a.taskId = taskId).length

def countAttachments (taskId : Id) : Tx kurul Nat := query fun db => attachmentsOf db taskId

@[simp] theorem toTaskDetailDto_id (row : TaskDetailRow) (n : Nat) :
    (toTaskDetailDto row n).id = row.task.id := rfl
@[simp] theorem toTaskDetailDto_columnId (row : TaskDetailRow) (n : Nat) :
    (toTaskDetailDto row n).columnId = row.task.columnId := rfl
@[simp] theorem toTaskDetailDto_boardId (row : TaskDetailRow) (n : Nat) :
    (toTaskDetailDto row n).boardId = row.task.boardId := rfl
@[simp] theorem toTaskDetailDto_position (row : TaskDetailRow) (n : Nat) :
    (toTaskDetailDto row n).position = row.task.position := rfl

end Kurul
