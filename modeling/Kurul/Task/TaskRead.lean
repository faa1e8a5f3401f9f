import Kurul.Task.TaskDto
import Kurul.Activity

/-!
# Kurul.Task.TaskRead

`TaskReadService` and `TaskEventsService`: the scoped reads of a task, and the announcement of a change
to it.
-/

namespace Kurul

open Sql

namespace TaskReadService

/-- The read every mutation's response goes through. The attachments are counted in a second
statement. -/
def findTask (workspaceId taskId : Id) : Tx kurul (TaskDetailRow × Nat) := do
  let found ← query fun db =>
    ((rows TaskRow db).find? (taskScope workspaceId taskId db)).map (taskDetailInclude db)
  let task ← orThrow found (.notFound (js "Task not found"))
  let attachmentCount ← countAttachments taskId
  return (task, attachmentCount)

theorem readOnly_findTask (workspaceId taskId : Id) : (findTask workspaceId taskId).ReadOnly :=
  (readOnly_query _).bind fun _ => (readOnly_orThrow _ _).bind fun _ =>
    (readOnly_query _).bind fun _ => trivial

/-- The task without its relations. -/
def findTaskBasic (workspaceId taskId : Id) : Tx kurul TaskRow := do
  let found ← findFirst (taskScope workspaceId taskId)
  orThrow found (.notFound (js "Task not found"))

theorem readOnly_findTaskBasic (workspaceId taskId : Id) : (findTaskBasic workspaceId taskId).ReadOnly :=
  (readOnly_query _).bind fun _ => readOnly_orThrow _ _

end TaskReadService

/-- Reads the task again and tells its board: the answer and the broadcast are of one read. -/
def TaskEventsService.emitUpdated (workspaceId taskId actorId : Id) : Call kurul TaskDto := do
  let found ← Call.auto (TaskReadService.findTask workspaceId taskId)
  let dto := toTaskDetailDto found.1 found.2
  Call.publish (.toBoard dto.boardId workspaceId actorId (.taskUpdated dto.id))
  return dto

/-- A refused unique constraint under the name its caller has for it. -/
def conflictOnUniqueViolation {α : Type} (write : Call kurul α) (message : JsString) : Call kurul α :=
  write.tryCatch fun error =>
    if error = .prisma .p2002 then .throw (.conflict message) else .throw error

end Kurul
