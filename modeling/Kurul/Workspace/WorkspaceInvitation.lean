import Kurul.Order.Paging
import Kurul.Runtime
import Kurul.Workspace.Ownership

/-!
# Kurul.Workspace.WorkspaceInvitation

`WorkspaceInvitationService`: who is invited, again or at another role, and whose invitation is
withdrawn. The invitation row is written by the auth library's organization plugin, which is a
parameter; the service looks for pending invitations before it, and records in the activity log after
it.
-/

namespace Kurul

open Sql

/-! ## The organization plugin -/

/-- `MailDeliveryStatus`. -/
inductive MailDeliveryStatus where
  | sent | notConfigured | failed

def MailDeliveryStatus.text : MailDeliveryStatus → JsString
  | .sent => js "SENT"
  | .notConfigured => js "NOT_CONFIGURED"
  | .failed => js "FAILED"

/-- An invitation as the plugin answers it; a missing text is empty. -/
structure PluginInvitation where
  id : Id
  email : JsString
  role : Option JsString
  status : JsString
  expiresAt : Option Instant

/-- `auth.api`, for the session of a user. `createInvitation` is called with `resend: true`, and its
answer comes with what `captureMailDelivery` saw of the mail. -/
structure InvitationApi where
  cancelInvitation (sessionUserId invitationId : Id) : Call kurul Unit
  createInvitation (sessionUserId : Id) (email : JsString) (role : MemberRole) (organizationId : Id) :
    Call kurul (Option PluginInvitation × Option MailDeliveryStatus)

namespace WorkspaceInvitationService

/-! ## The service -/

structure CreateInvitationDto where
  email : JsString
  role : MemberRole

structure InvitationDto where
  id : Id
  workspaceId : Id
  email : JsString
  role : JsString
  status : JsString
  expiresAt : JsString
  acceptUrl : JsString
  emailDelivery : Option MailDeliveryStatus

def buildInviteAcceptUrl (webAppUrl : JsString) (invitationId : Id) : JsString :=
  webAppUrl ++ js "/invite" ++ js "/" ++ invitationId

def toInvitationDto (webAppUrl : JsString) (row : WorkspaceInvitationRow) : InvitationDto where
  id := row.id
  workspaceId := row.workspaceId
  email := row.email
  role := row.role.getD MemberRole.guest.text
  status := row.status
  expiresAt := toISOString row.expiresAt
  acceptUrl := buildInviteAcceptUrl webAppUrl row.id
  emailDelivery := none

/-- Pending, and not expired by `now`. -/
def live (workspaceId : Id) (now : Instant) (i : WorkspaceInvitationRow) : Bool :=
  i.workspaceId = workspaceId && i.status = js "pending" && decide (now < i.expiresAt)

/-- Pending, unexpired invitations for an email in a workspace. -/
def findPendingInvitations (workspaceId : Id) (email : JsString) :
    Tx kurul (List WorkspaceInvitationRow) := do
  let now ← Tx.now
  findMany fun _ i => live workspaceId now i && i.email = email

/-- Every page of `listPendingInvitations`, one after the other. -/
def listPendingInvitations (webAppUrl : JsString) (workspaceId : Id) (now : Instant) (db : Db) :
    List InvitationDto :=
  (sortBy WorkspaceInvitationRow.id ((rows WorkspaceInvitationRow db).filter
    fun i => live workspaceId now i)).map (toInvitationDto webAppUrl)

/-- The pending invitations are withdrawn, one after the other. -/
def cancelAll (auth : InvitationApi) (sessionUserId : Id) :
    List WorkspaceInvitationRow → Call kurul Unit
  | [] => return ()
  | invitation :: rest => do
    (auth.cancelInvitation sessionUserId invitation.id).tryCatch fun error =>
      .throw (rethrowBetterAuthError error (js "Failed to replace the pending invitation") [])
    cancelAll auth sessionUserId rest

/-- The answer of the plugin, if nothing is missing in it. -/
def requireWhole : Option PluginInvitation → Tx kurul (PluginInvitation × Instant)
  | some ⟨id, email, role, status, some expiresAt⟩ =>
    if id = [] ∨ email = [] ∨ status = [] then .throw (.badRequest (js "Failed to create invitation"))
    else return (⟨id, email, role, status, some expiresAt⟩, expiresAt)
  | _ => .throw (.badRequest (js "Failed to create invitation"))

/-- The entry of an invitation. -/
def invitationCreated (workspaceId actorId : Id) (role : MemberRole) (id : Id)
    (delivery : Option MailDeliveryStatus) : RecordActivityInput where
  workspaceId
  taskId := none
  userId := actorId
  type := .invitationCreated
  payload := [field "invitationId" id, field "role" role.text] ++
    match delivery with
    | none => []
    | some status => [field "emailDelivery" status.text]

/-- What follows on the plugin's answer. -/
def issued (webAppUrl : JsString) (workspaceId actorId : Id) (dto : CreateInvitationDto)
    (answer : Option PluginInvitation × Option MailDeliveryStatus) : Tx kurul InvitationDto := do
  let (invitation, expiresAt) ← requireWhole answer.1
  throwIf (invitation.role.any fun granted => granted ≠ dto.role.text)
    (.conflict (js "Invitation was changed concurrently, please try again"))
  let _ ← ActivityService.record
    (invitationCreated workspaceId actorId dto.role invitation.id answer.2)
  return {
    id := invitation.id
    workspaceId
    email := invitation.email
    role := dto.role.text
    status := invitation.status
    expiresAt := toISOString expiresAt
    acceptUrl := buildInviteAcceptUrl webAppUrl invitation.id
    emailDelivery := answer.2 }

/-- The pending invitations of the address, withdrawn if one of them is at another role. -/
def clearPending (auth : InvitationApi) (workspaceId : Id) (email : JsString) (role : MemberRole)
    (sessionUserId : Id) : Call kurul Unit := do
  let pending ← Call.auto (findPendingInvitations workspaceId email)
  if pending.any fun i => i.role ≠ some role.text then cancelAll auth sessionUserId pending
  else return ()

/-- Invites an email to the workspace, or re-issues the pending invitation it already has. -/
def createInvitation (rt : Runtime) (auth : InvitationApi) (webAppUrl : JsString)
    (workspaceId actorId : Id) (dto : CreateInvitationDto) (sessionUserId : Id) :
    Call kurul InvitationDto := do
  Call.auto (throwIf (dto.role = .owner) (.badRequest (js "Cannot invite someone as OWNER")))
  let email := rt.toLowerCase dto.email
  clearPending auth workspaceId email dto.role sessionUserId
  Call.tryCatch (do
      let answer ← auth.createInvitation sessionUserId email dto.role workspaceId
      Call.auto (issued webAppUrl workspaceId actorId dto answer))
    fun error => .throw (rethrowBetterAuthError error (js "Failed to create invitation")
      [(403, js "You are not allowed to send this invitation")])

/-- The entry of a withdrawal. -/
def invitationRevoked (workspaceId actorId : Id) (invitation : WorkspaceInvitationRow) :
    RecordActivityInput where
  workspaceId
  taskId := none
  userId := actorId
  type := .invitationRevoked
  payload := [field "invitationId" invitation.id,
    (js "role", .ofOption invitation.role)]

def revokeInvitation (auth : InvitationApi) (workspaceId actorId invitationId sessionUserId : Id) :
    Call kurul Unit := do
  let invitation ← Call.auto do
    let invitation ← findFirst fun _ (i : WorkspaceInvitationRow) =>
      i.id = invitationId && i.workspaceId = workspaceId
    orThrow invitation (.notFound (js "Invitation not found"))
  (auth.cancelInvitation sessionUserId invitationId).tryCatch fun error =>
    .throw (rethrowBetterAuthError error (js "Failed to revoke invitation")
      [(404, js "Invitation not found")])
  let _ ← Call.auto (ActivityService.record (invitationRevoked workspaceId actorId invitation))

end WorkspaceInvitationService
end Kurul
