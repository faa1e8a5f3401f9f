import Kurul.Comment.Mentions
import Kurul.Notification.NotificationService
import Kurul.Order.Paging
import Kurul.Task.TaskRead

/-!
# Kurul.Comment.CommentService

`CommentService`: the comments of a task page by page; a comment, its audit entry and the notifications
of the members it mentions, in one transaction, then the signals; and a comment taken back.
-/

namespace Kurul

open Sql

/-- `parseMentions`: the users a body mentions, each once. -/
def parseMentions (body : JsString) : List Id := ((mentionsIn body).map Mention.userId).eraseDups

/-- The person behind a comment, as a client reads them. -/
structure AuthorDto where
  id : Id
  name : JsString
  avatarUrl : Option JsString
  deleted : Bool

def toAuthorDto (user : UserRow) : AuthorDto :=
  ⟨user.id, user.name, user.avatarUrl, user.deletedAt.isSome⟩

structure CreateCommentDto where
  body : JsString

structure CommentDto where
  id : Id
  taskId : Id
  userId : Id
  body : JsString
  createdAt : JsString
  author : AuthorDto

namespace CommentService

def toDto (row : CommentRow) (user : UserRow) : CommentDto :=
  ⟨row.id, row.taskId, row.userId, row.body, toISOString row.createdAt, toAuthorDto user⟩

/-- The members of the workspace among those mentioned; nothing is asked when nobody is. -/
def mentionedMembers (workspaceId : Id) (mentionIds : List Id) : Tx kurul (List Id) :=
  if mentionIds.isEmpty then return []
  else do
    let members ← findMany fun _ (m : WorkspaceMemberRow) =>
      m.workspaceId = workspaceId && decide (m.userId ∈ mentionIds)
    return members.map WorkspaceMemberRow.userId

def notifyMentioned (input : MentionBatchInput) : Tx kurul Unit :=
  if input.userIds.isEmpty then return
  else do
    let _ ← NotificationService.createMentionBatch input

/-- The comment, and whom it mentions. -/
def createBody (workspaceId taskId userId : Id) (task : TaskRow) (mentionIds : List Id)
    (dto : CreateCommentDto) : Tx kurul (CommentDto × List Id) := do
  let id ← Tx.fresh
  let now ← Tx.now
  let created ← Kurul.create ({ id, taskId, userId, body := dto.body, createdAt := now } : CommentRow)
  let author ← query fun db => byId UserRow db userId
  -- the foreign key has the author there
  let user ← orThrow author (.prisma .p2025)
  let memberIds ← mentionedMembers workspaceId mentionIds
  let activity ← ActivityService.record {
    workspaceId
    taskId := some taskId
    userId
    type := .commentCreated
    payload := [field "commentId" created.id, field "title" task.title,
      (js "mentionedUserIds", .arr (memberIds.map .str))] }
  notifyMentioned {
    workspaceId
    actorId := userId
    taskId
    activityId := some activity.id
    userIds := memberIds
    payload := [field "commentId" created.id, field "taskId" taskId, field "title" task.title,
      field "actorId" userId] }
  return (toDto created user, memberIds)

def create (workspaceId taskId userId : Id) (dto : CreateCommentDto) : Call kurul CommentDto := do
  let task ← Call.auto (TaskReadService.findTaskBasic workspaceId taskId)
  let mentionIds := (parseMentions dto.body).filter fun id => id ≠ userId
  let created ← Call.transaction .transaction
    (createBody workspaceId taskId userId task mentionIds dto)
  NotificationService.emitUnreadChanged workspaceId created.2
  Call.publish (.toBoard task.boardId workspaceId userId (.commentAdded taskId created.1.id))
  return created.1

/-! ## List -/

structure CommentCursorQuery where
  cursor : Option Id
  limit : Option Nat

/-- The comments of a task, oldest first, each with its author. -/
def list (workspaceId taskId : Id) (query : CommentCursorQuery) :
    Tx kurul (Paging.CursorPage Id CommentDto) := do
  let _ ← TaskReadService.findTaskBasic workspaceId taskId
  let limit := query.limit.getD 100
  let rows ← Kurul.query fun db =>
    (Paging.readPage CommentRow.id limit (query.cursor.filter truthy)
      ((rows CommentRow db).filter fun c => c.taskId = taskId)).filterMap fun c =>
        (byId UserRow db c.userId).map fun user => (c, user)
  return Paging.toCursorPage (fun row => row.1.id) rows limit fun row => toDto row.1 row.2

/-! ## Remove -/

/-- `where: { id, task: { board: { workspaceId } } }`. -/
def commentScope (workspaceId commentId : Id) (db : Db) (c : CommentRow) : Bool :=
  c.id = commentId && onTaskOf db workspaceId c.taskId

def removeBody (workspaceId commentId actorId : Id) (actorRole : MemberRole) : Tx kurul Unit := do
  let found ← findFirst (commentScope workspaceId commentId)
  let comment ← orThrow found (.notFound (js "Comment not found"))
  let isAuthor := comment.userId = actorId
  let isElevated := actorRole = .owner ∨ actorRole = .admin
  throwIf (!isAuthor && !isElevated)
    (.forbidden (js "Only the author or an admin can delete this comment"))
  let count ← deleteMany (commentScope workspaceId commentId)
  throwIf (count = 0) (.notFound (js "Comment not found"))

def remove (workspaceId commentId actorId : Id) (actorRole : MemberRole) : Call kurul Unit :=
  Call.transaction .transaction (removeBody workspaceId commentId actorId actorRole)

end CommentService
end Kurul
