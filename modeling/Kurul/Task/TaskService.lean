import Kurul.Position.RebalanceSql
import Kurul.Task.TaskDto
import Kurul.Task.TaskFields
import Kurul.Task.TaskRead

/-!
# Kurul.Task.TaskService

`TaskService`: creating, updating, moving and removing a task. A task is put into a column in one
transaction, under the lock of the column.
-/

namespace Kurul

open Sql

namespace TaskService

def findColumnOnBoard (workspaceId boardId columnId : Id) : Tx kurul ColumnRow := do
  let column ← findFirst fun db (c : ColumnRow) =>
    c.id = columnId && c.boardId = boardId && onBoardOf db workspaceId c.boardId
  orThrow column (.notFound (js "Column not found"))

theorem readOnly_findColumnOnBoard (workspaceId boardId columnId : Id) :
    (findColumnOnBoard workspaceId boardId columnId).ReadOnly :=
  (readOnly_query _).bind fun _ => readOnly_orThrow _ _

def get (workspaceId taskId : Id) : Tx kurul TaskDto := do
  let found ← TaskReadService.findTask workspaceId taskId
  return toTaskDetailDto found.1 found.2

/-! ## Create -/

def createBody (workspaceId boardId userId : Id) (column : ColumnRow) (attributes : TaskAttributes)
    (afterTaskId : Option Id) : Tx kurul TaskDto := do
  lockRow ⟨.column, column.id⟩
  let siblings ← findSiblings TaskRow column.id
  -- `afterTaskId` is the task the new one goes after: its `prev`.
  let slot ← ofExcept (resolveCreateNeighbors siblings afterTaskId (js "Task not found"))
  let position ← makeRoom TaskRow column.id siblings slot
  let id ← Tx.fresh
  let now ← Tx.now
  let created ← create ({
    id
    boardId
    columnId := column.id
    title := attributes.title
    description := attributes.description
    priority := attributes.priority
    position
    dueDate := attributes.dueDate
    estimatedMinutes := attributes.estimatedMinutes
    createdById := userId
    createdAt := now
    updatedAt := now } : TaskRow)
  let _ ← ActivityService.record {
    workspaceId
    taskId := some created.id
    userId
    type := .taskCreated
    payload := [field "title" created.title, field "columnId" created.columnId,
      field "boardId" created.boardId] }
  return toTaskDetailDto (emptyTaskRelations created) 0

def create (rt : Runtime) (workspaceId boardId userId : Id) (dto : CreateTaskDto) :
    Call kurul TaskDto := do
  let _ ← Call.auto (assertBoard workspaceId boardId)
  let column ← Call.auto (findColumnOnBoard workspaceId boardId dto.columnId)
  let attributes ← Call.auto (ofExcept (createTaskAttributes rt dto))
  let result ← Call.transaction .transaction
    (createBody workspaceId boardId userId column attributes dto.afterTaskId)
  Call.publish (.toBoard result.boardId workspaceId userId (.taskCreated result.id))
  return result

/-! ## Update -/

/-- The write of a plan that changes something. -/
def updateBody (workspaceId taskId userId : Id) (plan : TaskUpdatePlan) : Tx kurul TaskDto := do
  let found ← findFirst (taskScope workspaceId taskId)
  let _ ← orThrow found (.notFound (js "Task not found"))
  let now ← Tx.now
  let updated ← Kurul.update (taskScope workspaceId taskId)
    ⟨plan.data.apply now, fun _ => rfl⟩
  let detail ← query fun db => taskDetailInclude db updated
  let _ ← ActivityService.record {
    workspaceId
    taskId := some taskId
    userId
    type := .taskUpdated
    payload := [field "title" updated.title, (js "changes", .obj plan.changes)] }
  let attachmentCount ← countAttachments taskId
  return toTaskDetailDto detail attachmentCount

/-- A request that changes nothing of the task it reads writes nothing. -/
def update (rt : Runtime) (workspaceId taskId userId : Id) (dto : UpdateTaskDto) :
    Call kurul TaskDto := do
  let existing ← Call.auto (TaskReadService.findTask workspaceId taskId)
  let plan ← Call.auto (ofExcept (planTaskUpdate rt existing.1.task dto))
  if plan.changes.isEmpty then return toTaskDetailDto existing.1 existing.2
  else do
    let result ← Call.transaction .transaction (updateBody workspaceId taskId userId plan)
    Call.publish (.toBoard result.boardId workspaceId userId (.taskUpdated result.id))
    return result

/-! ## Remove -/

def removeBody (workspaceId taskId userId : Id) : Tx kurul TaskRow := do
  let found ← findFirst (taskScope workspaceId taskId)
  let row ← orThrow found (.notFound (js "Task not found"))
  let _ ← ActivityService.record {
    workspaceId
    taskId := none
    userId
    type := .taskDeleted
    payload := [field "taskId" row.id, field "title" row.title, field "columnId" row.columnId,
      field "boardId" row.boardId] }
  let count ← deleteMany (taskScope workspaceId taskId)
  throwIf (count = 0) (.notFound (js "Task not found"))
  return row

def remove (workspaceId taskId userId : Id) : Call kurul Unit := do
  let task ← Call.transaction .transaction (removeBody workspaceId taskId userId)
  Call.publish (.toBoard task.boardId workspaceId userId (.taskDeleted task.id))

/-! ## Move -/

/-- The column a task is moved out of, for its name. -/
def fromColumn (task : TaskRow) (targetColumn : ColumnRow) : Tx kurul (Option ColumnRow) :=
  if task.columnId = targetColumn.id then .ret (some targetColumn)
  else findFirst fun _ c => c.id = task.columnId

/-- `tx.task.update` with the move's two columns. -/
def writeMove (workspaceId taskId columnId : Id) (position : Position) : Tx kurul TaskRow := do
  let now ← Tx.now
  Kurul.update (taskScope workspaceId taskId)
    ⟨fun t => { t with columnId, position, updatedAt := now }, fun _ => rfl⟩

/-- The write of a move: the row between its neighbours, or the row and then the whole column
respread around it. -/
def place (workspaceId taskId : Id) (task : TaskDetailRow) (columnId : Id)
    (remaining : List Sibling) (slot : InsertionSlot Sibling) (attachmentCount : Nat) :
    Tx kurul TaskDto :=
  let prevPos := slot.prev.map Sibling.position
  let nextPos := slot.next.map Sibling.position
  if needsRebalance prevPos nextPos then do
    let reordered := remaining.insertIdx slot.insertionIndex ⟨task.task.id, task.task.position⟩
    let positions := rebalancePositions reordered.length
    let otherUpdates := moveUpdates reordered taskId positions
    let _ ← writeMove workspaceId taskId columnId (positions.getD slot.insertionIndex 0)
    batchUpdateTaskPositions columnId otherUpdates
    let now ← Tx.now
    return toTaskDetailDto { task with task := { task.task with
      columnId
      position := positions.getD slot.insertionIndex 0
      updatedAt := now } } attachmentCount
  else do
    let updated ← writeMove workspaceId taskId columnId (midpoint prevPos nextPos)
    let updated ← query fun db => taskDetailInclude db updated
    return toTaskDetailDto updated attachmentCount

def moveBody (workspaceId taskId userId : Id) (dto : MoveTaskDto) : Tx kurul TaskDto := do
  let found ← query fun db =>
    ((rows TaskRow db).find? (taskScope workspaceId taskId db)).map (taskDetailInclude db)
  let task ← orThrow found (.notFound (js "Task not found"))
  throwIf (dto.beforeTaskId = some taskId || dto.afterTaskId = some taskId)
    (.badRequest (js "A task cannot be its own neighbor"))
  let found ← findFirst (columnScope workspaceId dto.columnId)
  let targetColumn ← orThrow found (.notFound (js "Column not found"))
  throwIf (targetColumn.boardId ≠ task.task.boardId)
    (.unprocessableEntity (js "Cannot move a task to a column on another board"))
  let fromColumn ← fromColumn task.task targetColumn
  lockRow ⟨.column, targetColumn.id⟩
  let siblings ← findSiblings TaskRow targetColumn.id
  let remaining := siblings.filter fun item => item.id ≠ taskId
  let slot ← ofExcept (resolveMoveNeighbors remaining dto.beforeTaskId dto.afterTaskId)
  let attachmentCount ← countAttachments taskId
  let result ← place workspaceId taskId task targetColumn.id remaining slot attachmentCount
  let _ ← ActivityService.record {
    workspaceId
    taskId := some taskId
    userId
    type := .taskMoved
    payload := [field "title" task.task.title, field "fromColumnId" task.task.columnId,
      field "fromColumnName" ((fromColumn.map ColumnRow.name).getD []),
      field "toColumnId" targetColumn.id, field "toColumnName" targetColumn.name,
      field "toColumnCategory" targetColumn.category.text] }
  return result

def move (workspaceId taskId userId : Id) (dto : MoveTaskDto) : Call kurul TaskDto := do
  let result ← Call.transaction .transaction (moveBody workspaceId taskId userId dto)
  Call.publish (.toBoard result.boardId workspaceId userId
    (.taskMoved result.id result.columnId result.position))
  return result

/-! ## What is written -/

section Writes

variable {p : Write Key Row → Prop} (ht : ∀ t : TaskRow, p (.put (Model.row t)))
  (ha : ∀ a : ActivityRow, p (.put (Model.row a)))

include ht ha

theorem writes_createBody {workspaceId boardId userId : Id} {column : ColumnRow}
    {attributes : TaskAttributes} {afterTaskId : Option Id} :
    (createBody workspaceId boardId userId column attributes afterTaskId).Writes p :=
  (writes_lockRow _).bind fun _ => (writes_query _).bind fun _ => (writes_ofExcept _).bind fun _ =>
    (writes_makeRoom ht _ _ _).bind fun _ _ _ => (writes_create ht _).bind fun _ =>
    (writes_record ha _).bind fun _ => trivial

omit ha in
theorem writes_place {workspaceId taskId columnId : Id} {task : TaskDetailRow}
    {remaining : List Sibling} {slot : InsertionSlot Sibling} {n : Nat} :
    (place workspaceId taskId task columnId remaining slot n).Writes p := by
  have hmove : ∀ q, (writeMove workspaceId taskId columnId q).Writes p :=
    fun q _ => writes_update ht _ _
  simp only [place]
  split
  · exact (hmove _).bind fun _ => (writes_batchUpdatePositions ht _).bind fun _ _ => trivial
  · exact (hmove _).bind fun _ => (writes_query _).bind fun _ => trivial

theorem writes_moveBody {workspaceId taskId userId : Id} {dto : MoveTaskDto} :
    (moveBody workspaceId taskId userId dto).Writes p := by
  have hfrom : ∀ task column, (fromColumn task column).Writes p := by
    intro task column
    simp only [fromColumn]
    split
    · trivial
    · exact writes_query _
  exact (writes_query _).bind fun _ => (writes_orThrow _ _).bind fun _ =>
    (writes_throwIf _ _).bind fun _ => (writes_query _).bind fun _ =>
    (writes_orThrow _ _).bind fun _ => (writes_throwIf _ _).bind fun _ =>
    (hfrom _ _).bind fun _ => (writes_lockRow _).bind fun _ => (writes_query _).bind fun _ =>
    (writes_ofExcept _).bind fun _ => (writes_query _).bind fun _ => (writes_place ht).bind fun _ =>
    (writes_record ha _).bind fun _ => trivial

end Writes

end TaskService
end Kurul
