import Kurul.Notification.NotificationService
import Kurul.Task.TaskRead
import Kurul.Workspace.WorkspaceMember

/-!
# Kurul.Task.TaskAssignee

`TaskAssigneeService`: who works on a task. Only members of the workspace are assigned; the membership
is looked up before the transaction that writes the assignment.
-/

namespace Kurul

open Sql TaskReadService

namespace TaskAssigneeService

structure AddAssigneeDto where
  userId : Id

/-- The assignment, its entry and its notification; whether there is somebody to signal. -/
def addAssigneeBody (workspaceId actorId : Id) (task : TaskRow) (dto : AddAssigneeDto) :
    Tx kurul Bool := do
  let id ← Tx.fresh
  let _ ← create ({ id, taskId := task.id, userId := dto.userId } : TaskAssigneeRow)
  let activity ← ActivityService.record {
    workspaceId
    taskId := some task.id
    userId := actorId
    type := .taskAssigned
    payload := [field "title" task.title, field "assigneeUserId" dto.userId] }
  let notification ← NotificationService.createAssignment {
    workspaceId
    userId := dto.userId
    actorId
    taskId := some task.id
    activityId := some activity.id
    payload := [field "title" task.title, field "assigneeUserId" dto.userId,
      field "actorId" actorId] }
  return notification.isSome

/-- The checks made before the transaction. -/
def addAssigneeChecks (workspaceId taskId : Id) (dto : AddAssigneeDto) : Tx kurul TaskRow := do
  let task ← findTaskBasic workspaceId taskId
  let member ← findFirst fun _ => WorkspaceMemberService.memberWhere workspaceId dto.userId
  let _ ← orThrow member (.unprocessableEntity (js "User is not a member of this workspace"))
  return task

def addAssignee (workspaceId taskId actorId : Id) (dto : AddAssigneeDto) : Call kurul TaskDto := do
  let task ← Call.auto (addAssigneeChecks workspaceId taskId dto)
  let notified ← conflictOnUniqueViolation
    (Call.transaction .transaction (addAssigneeBody workspaceId actorId task dto))
    (js "User is already assigned to this task")
  NotificationService.signalIf notified workspaceId dto.userId
  TaskEventsService.emitUpdated workspaceId taskId actorId

/-- `where: { taskId, userId, task: { board: { workspaceId } } }`. -/
def assigneeScope (workspaceId taskId userId : Id) (db : Db) (a : TaskAssigneeRow) : Bool :=
  a.taskId = taskId && a.userId = userId && onTaskOf db workspaceId a.taskId

def removeAssigneeBody (workspaceId taskId actorId assigneeUserId : Id) (task : TaskRow) :
    Tx kurul Unit := do
  let count ← deleteMany (assigneeScope workspaceId taskId assigneeUserId)
  throwIf (count = 0) (.notFound (js "Assignee not found"))
  let _ ← ActivityService.record {
    workspaceId
    taskId := some taskId
    userId := actorId
    type := .taskUnassigned
    payload := [field "title" task.title, field "assigneeUserId" assigneeUserId] }

def removeAssignee (workspaceId taskId actorId assigneeUserId : Id) : Call kurul TaskDto := do
  let task ← Call.auto (findTaskBasic workspaceId taskId)
  Call.transaction .transaction (removeAssigneeBody workspaceId taskId actorId assigneeUserId task)
  TaskEventsService.emitUpdated workspaceId taskId actorId

end TaskAssigneeService
end Kurul
