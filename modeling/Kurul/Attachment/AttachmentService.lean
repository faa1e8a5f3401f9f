import Kurul.Attachment.CreateFile
import Kurul.Task.TaskRead

/-!
# Kurul.Attachment.AttachmentService

`AttachmentService` as the database sees it: the attachments of a task, a link or a file added, an
attachment removed. The bytes of a file are written before its row and are not removed with it; what
becomes of them is in `Upload`, and here whether they were accepted and written is given.
-/

namespace Kurul

open Sql

def AttachmentKind.text : AttachmentKind → JsString
  | .file => js "FILE"
  | .link => js "LINK"

namespace AttachmentService

def announce (workspaceId boardId taskId actorId : Id) : Call kurul Unit :=
  Call.publish (.toBoard boardId workspaceId actorId (.taskUpdated taskId))

/-- The one check of the task, with the columns the callers read. -/
def findTask (workspaceId taskId : Id) : Tx kurul TaskRow := do
  let found ← findFirst (taskScope workspaceId taskId)
  orThrow found (.notFound (js "Task not found"))

/-- `where: { id, task: { board: { workspaceId } } }`. -/
def attachmentScope (workspaceId attachmentId : Id) (db : Db) (a : AttachmentRow) : Bool :=
  a.id = attachmentId && onTaskOf db workspaceId a.taskId

/-- The attachment, with the board of its task. -/
def requireAttachment (workspaceId attachmentId : Id) : Tx kurul (AttachmentRow × Id) := do
  let found ← query fun db =>
    ((rows AttachmentRow db).find? (attachmentScope workspaceId attachmentId db)).bind fun a =>
      (byId TaskRow db a.taskId).map fun task => (a, task.boardId)
  orThrow found (.notFound (js "Attachment not found"))

/-! ## Reads -/

/-- `orderBy: { id: 'desc' }`. -/
def newestFirst (a : AttachmentRow) : Idᵒᵈ := OrderDual.toDual a.id

def list (workspaceId taskId : Id) : Tx kurul (List AttachmentDto) := do
  let _ ← findTask workspaceId taskId
  let rows ← query fun db => sortBy newestFirst ((rows AttachmentRow db).filter fun a =>
    a.taskId = taskId && onTaskOf db workspaceId a.taskId)
  return rows.map toAttachmentDto

def findOne (workspaceId attachmentId : Id) : Tx kurul AttachmentDto := do
  let found ← requireAttachment workspaceId attachmentId
  return toAttachmentDto found.1

/-! ## Links -/

structure CreateAttachmentDto where
  url : Option JsString
  filename : Option JsString

def notStorable : ApiError := .badRequest (js "A link attachment needs an http or https URL")

/-- `http:` or `https:`, and nothing else. -/
def requireStorableUrl (rt : Runtime) (value : Option JsString) : Except ApiError JsString :=
  match rt.parseUrl (trim (value.getD [])) with
  | none => .error notStorable
  | some parsed =>
    if parsed.protocol = js "http:" ∨ parsed.protocol = js "https:" then .ok parsed.href
    else .error notStorable

/-- The label of a link, or its address if nothing of the label may be shown. -/
def linkName (dto : CreateAttachmentDto) (url : JsString) : JsString :=
  let cleaned := safeDisplayName (dto.filename.getD [])
  if cleaned = [] then url else cleaned

/-- The audit entry of an attachment that came or went. -/
def entry (workspaceId taskId actorId : Id) (type : ActivityType) (row : AttachmentRow) :
    RecordActivityInput where
  workspaceId
  taskId := some taskId
  userId := actorId
  type
  payload := [field "attachmentId" row.id, field "kind" row.kind.text,
    field "filename" row.filename]

def createLinkBody (workspaceId taskId actorId : Id) (dto : CreateAttachmentDto) (url : JsString) :
    Tx kurul AttachmentRow := do
  let id ← Tx.fresh
  let now ← Tx.now
  let row ← create ({
    id
    taskId
    uploadedById := actorId
    kind := .link
    filename := linkName dto url
    storageKey := none
    mimeType := none
    size := none
    url := some url
    createdAt := now } : AttachmentRow)
  let _ ← ActivityService.record (entry workspaceId taskId actorId .attachmentCreated row)
  return row

def createLink (rt : Runtime) (workspaceId taskId actorId : Id) (dto : CreateAttachmentDto) :
    Call kurul AttachmentDto := do
  let task ← Call.auto (findTask workspaceId taskId)
  let url ← Call.auto (ofExcept (requireStorableUrl rt dto.url))
  let created ← Call.transaction .transaction (createLinkBody workspaceId task.id actorId dto url)
  announce workspaceId task.boardId task.id actorId
  return toAttachmentDto created

/-! ## Files -/

/-- `accepted` is what the type check makes of the bytes, `written` how writing them ended. The
`catch` around the transaction takes the bytes away and throws on. -/
def createFileBody (workspaceId taskId actorId : Id) (file : UploadedFile) (mimeType : JsString) (id : Id) :
    Tx kurul AttachmentRow := do
  let now ← Tx.now
  let row ← create ((Upload.start taskId actorId file mimeType id).row now)
  let _ ← ActivityService.record (entry workspaceId taskId actorId .attachmentCreated row)
  return row

def createFile (accepted : Except ApiError JsString) (written : Except ApiError Unit)
    (workspaceId taskId actorId : Id) (file : UploadedFile) : Call kurul AttachmentDto := do
  let task ← Call.auto (findTask workspaceId taskId)
  let mimeType ← Call.auto (ofExcept accepted)
  let id ← Call.auto Tx.fresh
  Call.auto (ofExcept written)
  let created ← Call.transaction .transaction
    (createFileBody workspaceId task.id actorId file mimeType id)
  announce workspaceId task.boardId task.id actorId
  return toAttachmentDto created

/-! ## Remove -/

def removeBody (workspaceId attachmentId actorId : Id) (attachment : AttachmentRow) : Tx kurul Unit := do
  let count ← deleteMany (attachmentScope workspaceId attachmentId)
  throwIf (count = 0) (.notFound (js "Attachment not found"))
  let _ ← ActivityService.record
    (entry workspaceId attachment.taskId actorId .attachmentDeleted attachment)

def remove (workspaceId attachmentId actorId : Id) : Call kurul Unit := do
  let found ← Call.auto (requireAttachment workspaceId attachmentId)
  Call.transaction .transaction (removeBody workspaceId attachmentId actorId found.1)
  announce workspaceId found.2 found.1.taskId actorId

end AttachmentService
end Kurul
