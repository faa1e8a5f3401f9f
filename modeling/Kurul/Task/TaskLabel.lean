import Kurul.Task.TaskRead

/-!
# Kurul.Task.TaskLabel

`TaskLabelService`: the labels on a task. A label goes on a task of its own board only.
-/

namespace Kurul

open Sql TaskReadService

namespace TaskLabelService

structure AddTaskLabelDto where
  labelId : Id

/-- The checks made before the insert. -/
def addLabelChecks (workspaceId taskId : Id) (dto : AddTaskLabelDto) : Tx kurul (TaskRow × LabelRow) := do
  let task ← findTaskBasic workspaceId taskId
  let label ← findFirst fun _ (l : LabelRow) => l.id = dto.labelId && l.boardId = task.boardId
  let label ← orThrow label (.unprocessableEntity (js "Label does not belong to this task board"))
  return (task, label)

def createRow (taskId labelId : Id) : Tx kurul TaskLabelRow := do
  let id ← Tx.fresh
  create ({ id, taskId, labelId } : TaskLabelRow)

def addLabel (workspaceId taskId actorId : Id) (dto : AddTaskLabelDto) : Call kurul TaskDto := do
  let found ← Call.auto (addLabelChecks workspaceId taskId dto)
  let _ ← conflictOnUniqueViolation (Call.auto (createRow found.1.id found.2.id))
    (js "Label is already assigned to this task")
  TaskEventsService.emitUpdated workspaceId taskId actorId

/-- `where: { taskId, labelId, task: { board: { workspaceId } } }`. -/
def taskLabelScope (workspaceId taskId labelId : Id) (db : Db) (l : TaskLabelRow) : Bool :=
  l.taskId = taskId && l.labelId = labelId && onTaskOf db workspaceId l.taskId

def removeLabel (workspaceId taskId actorId labelId : Id) : Call kurul TaskDto := do
  let _ ← Call.auto (findTaskBasic workspaceId taskId)
  let count ← Call.auto (deleteMany (taskLabelScope workspaceId taskId labelId))
  Call.auto (throwIf (count = 0) (.notFound (js "Task label not found")))
  TaskEventsService.emitUpdated workspaceId taskId actorId

end TaskLabelService
end Kurul
