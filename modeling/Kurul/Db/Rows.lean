import Kurul.Json
import Kurul.Sql.Store

/-!
# Kurul.Db.Rows

The rows of the schema, one structure a model and one enumeration a Prisma `enum`, with the
columns the modelled code reads or writes.
-/

namespace Kurul

inductive Priority where
  | low | medium | high | urgent
  deriving DecidableEq

inductive MemberRole where
  | owner | admin | member | guest
  deriving DecidableEq

inductive ColumnCategory where
  | backlog | unstarted | started | completed | canceled
  deriving DecidableEq

inductive AttachmentKind where
  | file | link
  deriving DecidableEq

/-- `Activity.type`, as far as the modelled services write it. -/
inductive ActivityType where
  | taskCreated | taskUpdated | taskMoved | taskDeleted | taskAssigned | taskUnassigned
  | commentCreated | attachmentCreated | attachmentDeleted
  | boardCreated | boardUpdated | boardDeleted | boardImported
  | columnCreated | columnUpdated | columnDeleted
  | labelCreated | labelUpdated | labelDeleted
  | memberRemoved | memberLeft | memberRoleChanged | accountDeleted
  | invitationCreated | invitationRevoked | invitationAccepted
  deriving DecidableEq

/-- `Notification.type`. -/
inductive NotificationType where
  | assignment | mention | dueSoon
  deriving DecidableEq

structure UserRow where
  id : Id
  email : JsString
  name : JsString
  emailVerified : Bool
  avatarUrl : Option JsString
  locale : Option JsString
  deletedAt : Option Instant

structure SessionRow where
  id : Id
  userId : Id
  token : JsString
  expiresAt : Instant

structure AccountRow where
  id : Id
  userId : Id

structure VerificationRow where
  id : Id
  identifier : JsString
  expiresAt : Instant

structure WorkspaceRow where
  id : Id
  name : JsString
  slug : JsString

structure WorkspaceMemberRow where
  id : Id
  workspaceId : Id
  userId : Id
  role : MemberRole

structure WorkspaceInvitationRow where
  id : Id
  email : JsString
  inviterId : Id
  workspaceId : Id
  role : Option JsString
  status : JsString
  expiresAt : Instant

structure BoardRow where
  id : Id
  workspaceId : Id
  name : JsString
  description : Option JsString
  createdAt : Instant

structure ColumnRow where
  id : Id
  boardId : Id
  name : JsString
  position : Position
  color : Option JsString
  category : ColumnCategory

structure TaskRow where
  id : Id
  boardId : Id
  columnId : Id
  title : JsString
  description : Option JsString
  priority : Priority
  position : Position
  dueDate : Option Instant
  estimatedMinutes : Option Int
  createdById : Id
  createdAt : Instant
  updatedAt : Instant

structure TaskAssigneeRow where
  id : Id
  taskId : Id
  userId : Id

structure LabelRow where
  id : Id
  boardId : Id
  name : JsString
  color : JsString

structure TaskLabelRow where
  id : Id
  taskId : Id
  labelId : Id

structure CommentRow where
  id : Id
  taskId : Id
  userId : Id
  body : JsString
  createdAt : Instant

structure AttachmentRow where
  id : Id
  taskId : Id
  uploadedById : Id
  kind : AttachmentKind
  filename : JsString
  storageKey : Option JsString
  mimeType : Option JsString
  size : Option Nat
  url : Option JsString
  createdAt : Instant

structure ChecklistRow where
  id : Id
  taskId : Id
  title : JsString
  position : Position

structure ChecklistItemRow where
  id : Id
  checklistId : Id
  content : JsString
  isDone : Bool
  position : Position

structure ActivityRow where
  id : Id
  workspaceId : Id
  taskId : Option Id
  userId : Id
  type : ActivityType
  payload : Json
  createdAt : Instant

structure NotificationRow where
  id : Id
  workspaceId : Id
  userId : Id
  type : NotificationType
  taskId : Option Id
  activityId : Option Id
  payload : Json
  readAt : Option Instant
  createdAt : Instant

structure UsagePingRow where
  id : Id
  userId : Id
  workspaceId : Id
  kind : JsString
  day : Int
  createdAt : Instant

inductive Table where
  | user | session | account | verification | workspace | workspaceMember | workspaceInvitation
  | board | column | task | taskAssignee | label | taskLabel | comment | attachment
  | checklist | checklistItem | activity | notification | usagePing
  deriving DecidableEq

/-- A primary key of the whole database. -/
structure Key where
  table : Table
  id : Id
  deriving DecidableEq

/-- A row of the whole database. -/
inductive Row where
  | user (r : UserRow)
  | session (r : SessionRow)
  | account (r : AccountRow)
  | verification (r : VerificationRow)
  | workspace (r : WorkspaceRow)
  | workspaceMember (r : WorkspaceMemberRow)
  | workspaceInvitation (r : WorkspaceInvitationRow)
  | board (r : BoardRow)
  | column (r : ColumnRow)
  | task (r : TaskRow)
  | taskAssignee (r : TaskAssigneeRow)
  | label (r : LabelRow)
  | taskLabel (r : TaskLabelRow)
  | comment (r : CommentRow)
  | attachment (r : AttachmentRow)
  | checklist (r : ChecklistRow)
  | checklistItem (r : ChecklistItemRow)
  | activity (r : ActivityRow)
  | notification (r : NotificationRow)
  | usagePing (r : UsagePingRow)

namespace Row

def key : Row → Key
  | .user r => ⟨.user, r.id⟩
  | .session r => ⟨.session, r.id⟩
  | .account r => ⟨.account, r.id⟩
  | .verification r => ⟨.verification, r.id⟩
  | .workspace r => ⟨.workspace, r.id⟩
  | .workspaceMember r => ⟨.workspaceMember, r.id⟩
  | .workspaceInvitation r => ⟨.workspaceInvitation, r.id⟩
  | .board r => ⟨.board, r.id⟩
  | .column r => ⟨.column, r.id⟩
  | .task r => ⟨.task, r.id⟩
  | .taskAssignee r => ⟨.taskAssignee, r.id⟩
  | .label r => ⟨.label, r.id⟩
  | .taskLabel r => ⟨.taskLabel, r.id⟩
  | .comment r => ⟨.comment, r.id⟩
  | .attachment r => ⟨.attachment, r.id⟩
  | .checklist r => ⟨.checklist, r.id⟩
  | .checklistItem r => ⟨.checklistItem, r.id⟩
  | .activity r => ⟨.activity, r.id⟩
  | .notification r => ⟨.notification, r.id⟩
  | .usagePing r => ⟨.usagePing, r.id⟩

end Row

instance : Sql.Keyed Key Row := ⟨Row.key⟩

@[simp] theorem keyed_key (r : Row) : Sql.Keyed.key r = r.key := rfl

end Kurul
