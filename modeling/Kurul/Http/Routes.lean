import Kurul.Activation.UsagePing
import Kurul.ActivityFeed
import Kurul.Attachment.AttachmentService
import Kurul.Board.BoardService
import Kurul.Board.ColumnService
import Kurul.Board.LabelService
import Kurul.Import.TrelloImportService
import Kurul.Task.Checklists
import Kurul.Task.TaskAssignee
import Kurul.Task.TaskLabel
import Kurul.Task.TaskList
import Kurul.Task.TaskService
import Kurul.Workspace.WorkspaceMember

/-!
# Kurul.Http.Routes

The routes under `/workspaces/:workspaceId` that read and write the content of a workspace: whom each
admits, and what it hands on to. Members, invitations and the workspace itself have routes of their own.

* `Request.serve` — the guards, then the handler.
* `Client`        — what is asked next may depend on everything answered before.
-/

namespace Kurul

open Sql

/-- Roles allowed to change board content. -/
def contentRoles : List MemberRole := [.owner, .admin, .member]

/-- A request to a route, with its path parameters and its body. -/
inductive Request where
  -- `BoardController`
  | listBoards
  | createBoard (dto : CreateBoardDto) (acceptLanguage : Option JsString)
  | getBoard (boardId : Id)
  | updateBoard (boardId : Id) (dto : UpdateBoardDto)
  | removeBoard (boardId : Id)
  -- `ColumnController`
  | listColumns (boardId : Id)
  | createColumn (boardId : Id) (dto : CreateColumnDto)
  | createDefaultColumns (boardId : Id) (acceptLanguage : Option JsString)
  | updateColumn (columnId : Id) (dto : UpdateColumnDto)
  | removeColumn (columnId : Id)
  | moveColumn (columnId : Id) (dto : MoveColumnDto)
  -- `LabelController`
  | listLabels (boardId : Id)
  | createLabel (boardId : Id) (dto : CreateLabelDto)
  | updateLabel (labelId : Id) (dto : UpdateLabelDto)
  | removeLabel (labelId : Id)
  -- `TaskController`
  | listTasks (boardId : Id) (query : TaskQueryDto)
  | createTask (boardId : Id) (dto : CreateTaskDto)
  | getTask (taskId : Id)
  | updateTask (taskId : Id) (dto : UpdateTaskDto)
  | removeTask (taskId : Id)
  | moveTask (taskId : Id) (dto : MoveTaskDto)
  | addAssignee (taskId : Id) (dto : TaskAssigneeService.AddAssigneeDto)
  | removeAssignee (taskId userId : Id)
  | addTaskLabel (taskId : Id) (dto : TaskLabelService.AddTaskLabelDto)
  | removeTaskLabel (taskId labelId : Id)
  | createChecklist (taskId : Id) (dto : CreateChecklistDto)
  | updateChecklist (taskId checklistId : Id) (dto : UpdateChecklistDto)
  | moveChecklist (taskId checklistId : Id) (dto : MoveChecklistDto)
  | removeChecklist (taskId checklistId : Id)
  | createChecklistItem (taskId checklistId : Id) (dto : CreateChecklistItemDto)
  | updateChecklistItem (taskId itemId : Id) (dto : UpdateChecklistItemDto)
  | moveChecklistItem (taskId itemId : Id) (dto : MoveChecklistItemDto)
  | removeChecklistItem (taskId itemId : Id)
  -- `CommentController`
  | listComments (taskId : Id) (query : CommentService.CommentCursorQuery)
  | createComment (taskId : Id) (dto : CreateCommentDto)
  | removeComment (commentId : Id)
  -- `AttachmentController`
  | listAttachments (taskId : Id)
  | createLink (taskId : Id) (dto : AttachmentService.CreateAttachmentDto)
  | createFile (taskId : Id) (file : AttachmentService.UploadedFile) (accepted : Except ApiError JsString)
      (written : Except ApiError Unit)
  | findAttachment (attachmentId : Id)
  | removeAttachment (attachmentId : Id)
  -- `ActivityController`
  | listActivities (query : ActivityCursorQuery)
  | listTaskActivities (taskId : Id) (query : ActivityCursorQuery)
  -- `NotificationController`
  | listNotifications (query : NotificationCursorQuery)
  | unreadCount
  | markAllRead
  | markRead (notificationId : Id)
  -- `DashboardController`
  | summary (boardId : Option Id)
  -- `ImportController`
  | importTrello (uuidv7 : Nat → Id) (parsed : Option Json)

namespace Request

/-- What a route answers when it succeeds. -/
def Answer : Request → Type
  | .listBoards => List BoardDto
  | .createBoard _ _ | .getBoard _ | .updateBoard _ _ => BoardDto
  | .listColumns _ | .createDefaultColumns _ _ => List ColumnDto
  | .createColumn _ _ | .updateColumn _ _ | .moveColumn _ _ => ColumnDto
  | .listLabels _ => List LabelDto
  | .createLabel _ _ | .updateLabel _ _ => LabelDto
  | .listTasks _ _ => Paging.CursorPage Id TaskDto
  | .createTask _ _ | .getTask _ | .updateTask _ _ | .moveTask _ _ | .addAssignee _ _
  | .removeAssignee _ _ | .addTaskLabel _ _ | .removeTaskLabel _ _ => TaskDto
  | .createChecklist _ _ | .updateChecklist _ _ _ | .moveChecklist _ _ _ | .removeChecklist _ _
  | .createChecklistItem _ _ _ | .updateChecklistItem _ _ _ | .moveChecklistItem _ _ _
  | .removeChecklistItem _ _ => TaskDto
  | .listComments _ _ => Paging.CursorPage Id CommentDto
  | .createComment _ _ => CommentDto
  | .listAttachments _ => List AttachmentService.AttachmentDto
  | .createLink _ _ | .createFile _ _ _ _ | .findAttachment _ => AttachmentService.AttachmentDto
  | .listActivities _ | .listTaskActivities _ _ => Paging.CursorPage Id ActivityDto
  | .listNotifications _ => Paging.CursorPage Id NotificationDto
  | .unreadCount | .markAllRead => Nat
  | .markRead _ => NotificationDto
  | .summary _ => DashboardSummaryDto
  | .importTrello _ _ => TrelloImportReport
  | .removeBoard _ | .removeColumn _ | .removeLabel _ | .removeTask _ | .removeComment _
  | .removeAttachment _ => Unit

/-- `@WorkspaceRoles(…)`; no roles where a route is `@WorkspaceScoped()` only. -/
def roles : Request → List MemberRole
  | .listBoards | .getBoard _ | .listColumns _ | .listLabels _ | .listTasks _ _ | .getTask _
  | .listComments _ _ | .listAttachments _ | .findAttachment _ | .listActivities _
  | .listTaskActivities _ _ | .listNotifications _ | .unreadCount | .markAllRead | .markRead _
  | .summary _ => []
  | .createBoard _ _ | .updateBoard _ _ | .createTask _ _ | .updateTask _ _ | .removeTask _
  | .moveTask _ _ | .addAssignee _ _ | .removeAssignee _ _ | .addTaskLabel _ _ | .removeTaskLabel _ _
  | .createChecklist _ _ | .updateChecklist _ _ _ | .moveChecklist _ _ _ | .removeChecklist _ _
  | .createChecklistItem _ _ _ | .updateChecklistItem _ _ _ | .moveChecklistItem _ _ _
  | .removeChecklistItem _ _ | .createComment _ _ | .removeComment _ | .createLink _ _
  | .createFile _ _ _ _ | .removeAttachment _ => contentRoles
  | .removeBoard _ | .createColumn _ _ | .createDefaultColumns _ _ | .updateColumn _ _
  | .removeColumn _ | .moveColumn _ _ | .createLabel _ _ | .updateLabel _ _ | .removeLabel _
  | .importTrello _ _ => adminRoles

end Request

/-- What the server and its database bring along. -/
structure Server where
  rt : Runtime
  /-- How the database orders names. -/
  collate : JsString → JsString
  /-- `ILIKE`. -/
  ilike : JsString → JsString → Bool

namespace Request

/-- The handler of a route, for a user who has passed the guards. -/
def handle (server : Server) (workspaceId userId : Id) (role : MemberRole) :
    (rq : Request) → Call kurul rq.Answer
  | .listBoards => Call.auto (BoardService.list workspaceId)
  | .createBoard dto acceptLanguage =>
    BoardService.create server.rt workspaceId userId dto acceptLanguage
  | .getBoard boardId => Call.auto (BoardService.get workspaceId boardId)
  | .updateBoard boardId dto => BoardService.update workspaceId boardId userId dto
  | .removeBoard boardId => BoardService.remove workspaceId boardId userId
  | .listColumns boardId => Call.auto (ColumnService.list workspaceId boardId)
  | .createColumn boardId dto => ColumnService.create workspaceId boardId userId dto
  | .createDefaultColumns boardId acceptLanguage =>
    ColumnService.createDefaults server.rt workspaceId boardId userId acceptLanguage
  | .updateColumn columnId dto => ColumnService.update workspaceId columnId userId dto
  | .removeColumn columnId => ColumnService.remove workspaceId columnId userId
  | .moveColumn columnId dto => ColumnService.move workspaceId columnId userId dto
  | .listLabels boardId => Call.auto (LabelService.list server.collate workspaceId boardId)
  | .createLabel boardId dto => LabelService.create workspaceId boardId userId dto
  | .updateLabel labelId dto => LabelService.update workspaceId labelId userId dto
  | .removeLabel labelId => LabelService.remove workspaceId labelId userId
  | .listTasks boardId query =>
    Call.auto (TaskService.list server.ilike server.rt workspaceId boardId query)
  | .createTask boardId dto => TaskService.create server.rt workspaceId boardId userId dto
  | .getTask taskId => Call.auto (TaskService.get workspaceId taskId)
  | .updateTask taskId dto => TaskService.update server.rt workspaceId taskId userId dto
  | .removeTask taskId => TaskService.remove workspaceId taskId userId
  | .moveTask taskId dto => TaskService.move workspaceId taskId userId dto
  | .addAssignee taskId dto => TaskAssigneeService.addAssignee workspaceId taskId userId dto
  | .removeAssignee taskId assigneeUserId =>
    TaskAssigneeService.removeAssignee workspaceId taskId userId assigneeUserId
  | .addTaskLabel taskId dto => TaskLabelService.addLabel workspaceId taskId userId dto
  | .removeTaskLabel taskId labelId =>
    TaskLabelService.removeLabel workspaceId taskId userId labelId
  | .createChecklist taskId dto => ChecklistService.create workspaceId taskId userId dto
  | .updateChecklist taskId checklistId dto =>
    ChecklistService.update workspaceId taskId userId checklistId dto
  | .moveChecklist taskId checklistId dto =>
    ChecklistService.move workspaceId taskId userId checklistId dto
  | .removeChecklist taskId checklistId =>
    ChecklistService.remove workspaceId taskId userId checklistId
  | .createChecklistItem taskId checklistId dto =>
    ChecklistItemService.create workspaceId taskId userId checklistId dto
  | .updateChecklistItem taskId itemId dto =>
    ChecklistItemService.update workspaceId taskId userId itemId dto
  | .moveChecklistItem taskId itemId dto =>
    ChecklistItemService.move workspaceId taskId userId itemId dto
  | .removeChecklistItem taskId itemId =>
    ChecklistItemService.remove workspaceId taskId userId itemId
  | .listComments taskId query => Call.auto (CommentService.list workspaceId taskId query)
  | .createComment taskId dto => CommentService.create workspaceId taskId userId dto
  | .removeComment commentId => CommentService.remove workspaceId commentId userId role
  | .listAttachments taskId => Call.auto (AttachmentService.list workspaceId taskId)
  | .createLink taskId dto => AttachmentService.createLink server.rt workspaceId taskId userId dto
  | .createFile taskId file accepted written =>
    AttachmentService.createFile accepted written workspaceId taskId userId file
  | .findAttachment attachmentId => Call.auto (AttachmentService.findOne workspaceId attachmentId)
  | .removeAttachment attachmentId => AttachmentService.remove workspaceId attachmentId userId
  | .listActivities query => Call.auto (ActivityService.listWorkspace workspaceId query)
  | .listTaskActivities taskId query =>
    Call.auto (ActivityService.listForTask workspaceId taskId query)
  | .listNotifications query => Call.auto (NotificationService.list workspaceId userId query)
  | .unreadCount => Call.auto (NotificationService.unreadCount workspaceId userId)
  | .markAllRead => NotificationService.markAllRead workspaceId userId
  | .markRead notificationId => NotificationService.markRead workspaceId userId notificationId
  | .summary boardId => DashboardService.summary server.collate workspaceId boardId
  | .importTrello uuidv7 parsed => importBoard server.rt uuidv7 workspaceId userId parsed

/-- `WorkspaceGuard` and `RolesGuard`: the membership a request is made with. -/
def guards (rq : Request) (workspaceId userId : Id) :
    Tx kurul WorkspaceMembership := do
  let membership ← WorkspaceMemberService.workspaceGuard userId workspaceId
  WorkspaceMemberService.rolesGuard rq.roles membership
  return membership

def serve (server : Server) (workspaceId userId : Id) (rq : Request) : Call kurul rq.Answer := do
  let membership ← Call.auto (rq.guards workspaceId userId)
  rq.handle server workspaceId userId membership.role

end Request

/-! ## Clients -/

/-- How a call ended, as its caller sees it. -/
def settled {α : Type} (call : Call kurul α) : Call kurul (Except ApiError α) :=
  (call >>= fun a => .ret (.ok a)).tryCatch fun e => .ret (.error e)

/-- Somebody asking one thing after the other. -/
inductive Client where
  | done
  | ask (rq : Request) (next : Except ApiError rq.Answer → Client)

def Client.call (server : Server) (workspaceId userId : Id) : Client → Call kurul Unit
  | .done => return ()
  | .ask rq next => do
    let answer ← settled (rq.serve server workspaceId userId)
    (next answer).call server workspaceId userId

/-- What is under way for one user in one workspace: a client, or a view being recorded beside the
request it came with. -/
inductive Job where
  | client (c : Client)
  | view (kind : UsagePingKind)

def Job.call (server : Server) (workspaceId userId : Id) : Job → Call kurul Unit
  | .client c => c.call server workspaceId userId
  | .view kind => UsagePingService.recordQuietly userId workspaceId kind

/-- A job, with the user and the workspace it is for. -/
structure Visit where
  workspaceId : Id
  userId : Id
  job : Job

def Visit.call (server : Server) (v : Visit) : Call kurul Unit :=
  v.job.call server v.workspaceId v.userId

/-- Any number of visits, all at their beginning. -/
def opened {ι : Type} (server : Server) (visits : ι → Visit) (db : Db) : Config kurul ι :=
  .start db fun i => (visits i).call server

end Kurul
