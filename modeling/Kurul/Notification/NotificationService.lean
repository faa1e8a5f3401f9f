import Kurul.Activity
import Kurul.Order.Paging
import Kurul.Runtime

/-!
# Kurul.Notification.NotificationService

`NotificationService`: rows for what a member should hear of, and the signal that the number of unread
ones has changed. What is written inside a caller's transaction is signalled by the caller.
-/

namespace Kurul

open Sql

def NotificationType.text : NotificationType → JsString
  | .assignment => js "assignment"
  | .mention => js "mention"
  | .dueSoon => js "due_soon"

structure CreateNotificationInput where
  workspaceId : Id
  /-- The recipient. -/
  userId : Id
  /-- Who acts: never notified of it. -/
  actorId : Id
  taskId : Option Id
  activityId : Option Id
  payload : List (JsString × Json)

structure MentionBatchInput where
  workspaceId : Id
  actorId : Id
  taskId : Id
  activityId : Option Id
  userIds : List Id
  payload : List (JsString × Json)

structure NotificationCursorQuery where
  limit : Option Nat
  cursor : Option Id
  unreadOnly : Bool
  type : Option NotificationType

structure NotificationDto where
  id : Id
  workspaceId : Id
  userId : Id
  type : NotificationType
  taskId : Option Id
  activityId : Option Id
  payload : Json
  readAt : Option JsString
  createdAt : JsString

namespace NotificationService

/-- One signal for each user of a list without repetitions. -/
def emitEach (workspaceId : Id) : List Id → Call kurul Unit
  | [] => return
  | userId :: rest => do
    Call.publish (.toUser workspaceId userId)
    emitEach workspaceId rest

/-- Tells each recipient that their unread count in the workspace has changed; called once the write
has committed. -/
def emitUnreadChanged (workspaceId : Id) (userIds : List Id) : Call kurul Unit :=
  emitEach workspaceId userIds.eraseDups

def toDto (row : NotificationRow) : NotificationDto where
  id := row.id
  workspaceId := row.workspaceId
  userId := row.userId
  type := row.type
  taskId := row.taskId
  activityId := row.activityId
  payload := match row.payload with
    | .null => .obj []
    | payload => payload
  readAt := row.readAt.map toISOString
  createdAt := toISOString row.createdAt

/-- Inserts a notification unless the actor is the recipient. -/
def create (type : NotificationType) (input : CreateNotificationInput) :
    Tx kurul (Option NotificationRow) :=
  if input.userId = input.actorId then return none
  else do
    let id ← Tx.fresh
    let now ← Tx.now
    let row ← Kurul.create ({
      id
      workspaceId := input.workspaceId
      userId := input.userId
      type
      taskId := input.taskId
      activityId := input.activityId
      payload := .obj input.payload
      readAt := none
      createdAt := now } : NotificationRow)
    return some row

def createAssignment (input : CreateNotificationInput) : Tx kurul (Option NotificationRow) :=
  create .assignment input

/-- Everybody a batch is for, once, without the actor. -/
def MentionBatchInput.recipients (input : MentionBatchInput) : List Id :=
  input.userIds.eraseDups.filter fun userId => userId ≠ input.actorId

def mentionRow (input : MentionBatchInput) (now : Instant) (id userId : Id) : NotificationRow where
  id
  workspaceId := input.workspaceId
  userId
  type := .mention
  taskId := some input.taskId
  activityId := input.activityId
  payload := .obj input.payload
  readAt := none
  createdAt := now

/-- The notifications of a comment's mentions, in one statement. -/
def createMentionBatch (input : MentionBatchInput) : Tx kurul Nat :=
  let recipients := MentionBatchInput.recipients input
  if recipients.isEmpty then return 0
  else do
    let now ← Tx.now
    let data ← withIds (mentionRow input now) recipients
    createMany data

/-- `where: { workspaceId, userId, readAt: null }`. -/
def unreadWhere (workspaceId userId : Id) (n : NotificationRow) : Bool :=
  n.workspaceId = workspaceId && n.userId = userId && n.readAt.isNone

/-- `unreadCount`. -/
def unreadCount (workspaceId userId : Id) : Tx kurul Nat :=
  count fun _ => unreadWhere workspaceId userId

/-- The `where` of a list, but for the cursor. -/
def listWhere (workspaceId userId : Id) (query : NotificationCursorQuery) (n : NotificationRow) : Bool :=
  n.workspaceId = workspaceId && n.userId = userId && (!query.unreadOnly || n.readAt.isNone) &&
    query.type.all fun type => n.type = type

/-- `orderBy: { id: 'desc' }`. -/
def newestFirst (n : NotificationRow) : Idᵒᵈ := OrderDual.toDual n.id

/-- One page of the rows: those before the cursor, the newest first. -/
def listPage (workspaceId userId : Id) (query : NotificationCursorQuery) (all : List NotificationRow) :
    Paging.CursorPage Id NotificationDto :=
  let limit := query.limit.getD 50
  let found := Paging.readPage newestFirst limit ((query.cursor.filter truthy).map OrderDual.toDual)
    (all.filter (listWhere workspaceId userId query))
  Paging.toCursorPage NotificationRow.id found limit toDto

def list (workspaceId userId : Id) (query : NotificationCursorQuery) :
    Tx kurul (Paging.CursorPage Id NotificationDto) :=
  Kurul.query fun db => listPage workspaceId userId query (rows NotificationRow db)

/-- What is answered is a page of the rows there are. -/
theorem run_list_ok {env : Env kurul} {w w' : World kurul} {workspaceId userId : Id}
    {query : NotificationCursorQuery} {page : Paging.CursorPage Id NotificationDto}
    (h : (list workspaceId userId query).run env w = (.ok page, w')) :
    page = listPage workspaceId userId query (rows NotificationRow w.db) :=
  (run_query_ok h).1

/-- `where: { id, workspaceId, userId }`. -/
def ownWhere (workspaceId userId notificationId : Id) (n : NotificationRow) : Bool :=
  n.id = notificationId && n.workspaceId = workspaceId && n.userId = userId

def readNow (now : Instant) : Patch NotificationRow :=
  ⟨fun n => { n with readAt := some now }, fun _ => rfl⟩

/-- The row, and whether it was unread. -/
def markReadBody (workspaceId userId notificationId : Id) : Tx kurul (NotificationRow × Bool) := do
  let existing ← findFirst fun _ => ownWhere workspaceId userId notificationId
  let existing ← orThrow existing (.notFound (js "Notification not found"))
  if existing.readAt.isSome then return (existing, false)
  else do
    let now ← Tx.now
    let updated ← update (fun _ => ownWhere workspaceId userId notificationId) (readNow now)
    return (updated, true)

/-- A signal only when the count has moved. -/
def signalIf (changed : Bool) (workspaceId userId : Id) : Call kurul Unit :=
  if changed then emitUnreadChanged workspaceId [userId] else return

def markRead (workspaceId userId notificationId : Id) : Call kurul NotificationDto := do
  let done ← Call.transaction .transaction (markReadBody workspaceId userId notificationId)
  signalIf done.2 workspaceId userId
  return toDto done.1

def markAllRead (workspaceId userId : Id) : Call kurul Nat := do
  let count ← Call.auto do
    let now ← Tx.now
    updateMany (fun _ => unreadWhere workspaceId userId) (readNow now)
  signalIf (0 < count) workspaceId userId
  return count

end NotificationService
end Kurul
