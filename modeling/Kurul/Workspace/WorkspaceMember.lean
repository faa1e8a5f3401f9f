import Kurul.Activity
import Kurul.Sql.Ends

/-!
# Kurul.Workspace.WorkspaceMember

`WorkspaceMemberService`: who may remove whom, change whose role, and leave. The membership row is
written by the auth library's organization plugin, which is a parameter; the service decides before
it, and records in the activity log after it.
-/

namespace Kurul

open Sql

/-! ## The organization plugin -/

/-- `auth.api`, for the session of a user. -/
structure OrganizationApi where
  removeMember (sessionUserId memberIdOrEmail organizationId : Id) : Call kurul Unit
  updateMemberRole (sessionUserId memberId : Id) (role : MemberRole) (organizationId : Id) :
    Call kurul Unit
  leaveOrganization (sessionUserId organizationId : Id) : Call kurul Unit

/-- The library's error code, when the error carries one. -/
def betterAuthErrorCode : ApiError → Option JsString
  | .betterAuth _ code => code
  | _ => none

def toHttpException (statusCode : Nat) (message : JsString) : Option ApiError :=
  match statusCode with
  | 401 => some (.unauthorized message)
  | 403 => some (.forbidden message)
  | 404 => some (.notFound message)
  | 409 => some (.conflict message)
  | 422 => some (.unprocessableEntity message)
  | _ => if 400 ≤ statusCode ∧ statusCode < 500 then some (.badRequest message) else none

def rethrowBetterAuthError (error : ApiError) (message : JsString)
    (statusMessages : List (Nat × JsString)) : ApiError :=
  match error with
  | .betterAuth statusCode _ =>
    (toHttpException statusCode ((statusMessages.lookup statusCode).getD message)).getD error
  | _ => error

/-! ## The guards -/

/-- The membership a request is made with. -/
structure WorkspaceMembership where
  id : Id
  workspaceId : Id
  userId : Id
  role : MemberRole

def adminRoles : List MemberRole := [.owner, .admin]

namespace WorkspaceMemberService

/-- `where: { workspaceId_userId: { workspaceId, userId } }`. -/
def memberWhere (workspaceId userId : Id) (m : WorkspaceMemberRow) : Bool :=
  m.workspaceId = workspaceId && m.userId = userId

/-- `WorkspaceGuard`: the caller's membership, or `404`. -/
def workspaceGuard (userId workspaceId : Id) : Tx kurul WorkspaceMembership := do
  throwIf (workspaceId = []) (.notFound (js "Workspace not found"))
  let membership ← findFirst fun _ => memberWhere workspaceId userId
  let membership ← orThrow membership (.notFound (js "Workspace not found"))
  return ⟨membership.id, membership.workspaceId, membership.userId, membership.role⟩

/-- `RolesGuard`. -/
def rolesGuard (required : List MemberRole) (membership : WorkspaceMembership) : Tx kurul Unit :=
  throwIf (!required.isEmpty && membership.role ∉ required)
    (.forbidden (js "Insufficient role for this action"))

/-! ## The service -/

/-- A membership with its user's name and avatar. -/
structure MemberRow where
  id : Id
  workspaceId : Id
  userId : Id
  role : MemberRole
  name : JsString
  avatarUrl : Option JsString

structure WorkspaceMemberDto where
  id : Id
  workspaceId : Id
  userId : Id
  role : MemberRole
  name : JsString
  avatarUrl : Option JsString

def toMemberDto (row : MemberRow) : WorkspaceMemberDto :=
  ⟨row.id, row.workspaceId, row.userId, row.role, row.name, row.avatarUrl⟩

def lastOwnerCodes : List JsString :=
  [js "YOU_CANNOT_LEAVE_THE_ORGANIZATION_AS_THE_ONLY_OWNER",
    js "YOU_CANNOT_LEAVE_THE_ORGANIZATION_WITHOUT_AN_OWNER"]

def memberWriteForbiddenCodes : List JsString :=
  [js "YOU_ARE_NOT_ALLOWED_TO_DELETE_THIS_MEMBER", js "YOU_ARE_NOT_ALLOWED_TO_UPDATE_THIS_MEMBER"]

def memberNotFoundMessage : JsString := js "Workspace member not found"

/-- The membership of a user, with the user it joins. -/
def findMember (workspaceId userId : Id) (db : Db) : Option MemberRow := do
  let m ← (rows WorkspaceMemberRow db).find? (memberWhere workspaceId userId)
  let user ← byId UserRow db m.userId
  return ⟨m.id, m.workspaceId, m.userId, m.role, user.name, user.avatarUrl⟩

/-- The target membership, or `404`. -/
def requireMember (workspaceId userId : Id) : Tx kurul MemberRow := do
  let member ← query (findMember workspaceId userId)
  orThrow member (.notFound memberNotFoundMessage)

/-- `where: { workspaceId, role: MemberRole.OWNER }`. -/
def ownerWhere (workspaceId : Id) (m : WorkspaceMemberRow) : Bool :=
  m.workspaceId = workspaceId && m.role = .owner

/-- True when the workspace would be left with no OWNER once this one stops being one. -/
def isLastOwner (workspaceId : Id) : Tx kurul Bool := do
  let owners ← count fun _ => ownerWhere workspaceId
  return owners ≤ 1

def rethrowMemberWriteError (error : ApiError) (message lastOwnerMessage : JsString) : ApiError :=
  let code := betterAuthErrorCode error
  if code.any fun c => c ∈ lastOwnerCodes then .conflict lastOwnerMessage
  else if code.any fun c => c ∈ memberWriteForbiddenCodes then .forbidden message
  else if code = some (js "MEMBER_NOT_FOUND") then .notFound memberNotFoundMessage
  else rethrowBetterAuthError error message [(404, memberNotFoundMessage)]

/-- `try { … } catch (error) { this.rethrowMemberWriteError(…) }`. -/
def memberWrite (write : Call kurul Unit) (message lastOwnerMessage : JsString) : Call kurul Unit :=
  write.tryCatch fun error => .throw (rethrowMemberWriteError error message lastOwnerMessage)

/-- Refuses to take the last owner's role away. -/
def requireOtherOwner (workspaceId : Id) (message : JsString) : Tx kurul Unit := do
  let last ← isLastOwner workspaceId
  throwIf last (.conflict message)

/-- The checks an owner is protected by. -/
def removalGuard (workspaceId : Id) (target : MemberRow) (actor : WorkspaceMembership) :
    Tx kurul Unit :=
  if target.role = .owner then do
    throwIf (actor.role ≠ .owner) (.forbidden (js "Only an OWNER can remove another OWNER"))
    requireOtherOwner workspaceId (js "The last OWNER cannot be removed from the workspace")
  else return ()

/-- `removeMember`, up to and with the write of the plugin. -/
def removeMemberWrite (auth : OrganizationApi) (workspaceId targetUserId : Id)
    (actor : WorkspaceMembership) (sessionUserId : Id) : Call kurul MemberRow := do
  let target ← Call.auto do
    throwIf (targetUserId = actor.userId)
      (.badRequest (js "Use POST /workspaces/:workspaceId/members/me/leave to remove yourself"))
    let target ← requireMember workspaceId targetUserId
    removalGuard workspaceId target actor
    return target
  memberWrite (auth.removeMember sessionUserId target.id workspaceId)
    (js "Failed to remove the member")
    (js "The last OWNER cannot be removed from the workspace")
  return target

/-- The entry of a removal. -/
def memberRemoved (workspaceId targetUserId : Id) (actor : WorkspaceMembership)
    (target : MemberRow) : RecordActivityInput where
  workspaceId
  taskId := none
  userId := actor.userId
  type := .memberRemoved
  payload := [field "targetUserId" targetUserId, field "targetName" target.name,
    field "previousRole" target.role.text, field "actorRole" actor.role.text]

/-- Removes another member from the workspace. OWNER / ADMIN only. -/
def removeMember (auth : OrganizationApi) (workspaceId targetUserId : Id)
    (actor : WorkspaceMembership) (sessionUserId : Id) : Call kurul Unit := do
  let target ← removeMemberWrite auth workspaceId targetUserId actor sessionUserId
  let _ ← Call.auto (ActivityService.record (memberRemoved workspaceId targetUserId actor target))

structure UpdateMemberRoleDto where
  role : MemberRole

/-- The checks ownership is protected by. -/
def roleGuard (workspaceId : Id) (target : MemberRow) (nextRole : MemberRole)
    (actor : WorkspaceMembership) : Tx kurul Unit := do
  throwIf ((target.role = .owner || nextRole = .owner) && actor.role ≠ .owner)
    (.forbidden (js "Only an OWNER can change ownership"))
  if target.role = .owner then
    requireOtherOwner workspaceId
      (js "The last OWNER cannot be demoted; promote another OWNER first")
  else return ()

/-- `updateMemberRole`, up to and with the write of the plugin; the role stands if it is the one
asked for. -/
def updateMemberRoleWrite (auth : OrganizationApi) (workspaceId targetUserId : Id)
    (dto : UpdateMemberRoleDto) (actor : WorkspaceMembership) (sessionUserId : Id) :
    Call kurul MemberRow := do
  let target ← Call.auto (requireMember workspaceId targetUserId)
  if target.role = dto.role then return target
  else do
    Call.auto (roleGuard workspaceId target dto.role actor)
    memberWrite (auth.updateMemberRole sessionUserId target.id dto.role workspaceId)
      (js "Failed to change the member role")
      (js "The last OWNER cannot be demoted; promote another OWNER first")
    return target

/-- The entry of a change of role. -/
def memberRoleChanged (workspaceId targetUserId : Id) (nextRole : MemberRole)
    (actor : WorkspaceMembership) (target : MemberRow) : RecordActivityInput where
  workspaceId
  taskId := none
  userId := actor.userId
  type := .memberRoleChanged
  payload := [field "targetUserId" targetUserId, field "targetName" target.name,
    field "previousRole" target.role.text, field "newRole" nextRole.text,
    field "actorRole" actor.role.text]

/-- Changes another member's role, or the caller's own. OWNER / ADMIN only. -/
def updateMemberRole (auth : OrganizationApi) (workspaceId targetUserId : Id)
    (dto : UpdateMemberRoleDto) (actor : WorkspaceMembership) (sessionUserId : Id) :
    Call kurul WorkspaceMemberDto := do
  let target ← updateMemberRoleWrite auth workspaceId targetUserId dto actor sessionUserId
  if target.role = dto.role then return toMemberDto target
  else do
    let _ ← Call.auto
      (ActivityService.record (memberRoleChanged workspaceId targetUserId dto.role actor target))
    return toMemberDto { target with role := dto.role }

/-- The check the last owner is kept by. -/
def departureGuard (workspaceId : Id) (membership : MemberRow) : Tx kurul Unit :=
  if membership.role = .owner then
    requireOtherOwner workspaceId (js
      "The last OWNER cannot leave the workspace; transfer ownership or delete the workspace")
  else return ()

/-- `leave`, up to and with the write of the plugin. -/
def leaveWrite (auth : OrganizationApi) (workspaceId : Id) (actor : WorkspaceMembership)
    (sessionUserId : Id) : Call kurul MemberRow := do
  let membership ← Call.auto do
    let membership ← requireMember workspaceId actor.userId
    departureGuard workspaceId membership
    return membership
  memberWrite (auth.leaveOrganization sessionUserId workspaceId)
    (js "Failed to leave the workspace")
    (js "The last OWNER cannot leave the workspace; transfer ownership or delete the workspace")
  return membership

/-- The entry of a departure. -/
def memberLeft (workspaceId : Id) (actor : WorkspaceMembership) (membership : MemberRow) :
    RecordActivityInput where
  workspaceId
  taskId := none
  userId := actor.userId
  type := .memberLeft
  payload := [field "targetUserId" actor.userId, field "targetName" membership.name,
    field "previousRole" membership.role.text]

/-- The caller leaves the workspace. Any member, any role. -/
def leave (auth : OrganizationApi) (workspaceId : Id) (actor : WorkspaceMembership)
    (sessionUserId : Id) : Call kurul Unit := do
  let membership ← leaveWrite auth workspaceId actor sessionUserId
  let _ ← Call.auto (ActivityService.record (memberLeft workspaceId actor membership))
  Call.publish (.evicted workspaceId actor.userId)

/-! ## Requests -/

inductive MemberAction where
  | remove (targetUserId : Id)
  | updateRole (targetUserId : Id) (dto : UpdateMemberRoleDto)
  | leave

/-- A request of a signed-in user to a workspace. -/
structure MemberRequest where
  userId : Id
  workspaceId : Id
  action : MemberAction

/-- The roles a route asks for; none asks for none. -/
def MemberAction.roles : MemberAction → List MemberRole
  | .remove _ => adminRoles
  | .updateRole _ _ => adminRoles
  | .leave => []

/-- The guards of a route: the membership the request is made with. -/
def MemberRequest.guards (rq : MemberRequest) : Tx kurul WorkspaceMembership := do
  let actor ← workspaceGuard rq.userId rq.workspaceId
  rolesGuard rq.action.roles actor
  return actor

/-- What the guards hand on to. -/
def MemberRequest.dispatch (auth : OrganizationApi) (rq : MemberRequest)
    (actor : WorkspaceMembership) : Call kurul Unit :=
  match rq.action with
  | .remove targetUserId => removeMember auth rq.workspaceId targetUserId actor rq.userId
  | .updateRole targetUserId dto => do
    let _ ← updateMemberRole auth rq.workspaceId targetUserId dto actor rq.userId
  | .leave => leave auth rq.workspaceId actor rq.userId

def MemberRequest.serve (auth : OrganizationApi) (rq : MemberRequest) : Call kurul Unit := do
  let actor ← Call.auto rq.guards
  rq.dispatch auth actor

/-! ## A request in two parts -/

/-- A request, up to and with the write of the plugin. -/
def MemberRequest.upToWrite (auth : OrganizationApi) (rq : MemberRequest) :
    Call kurul (WorkspaceMembership × MemberRow) := do
  let actor ← Call.auto rq.guards
  let target ← match rq.action with
    | .remove targetUserId => removeMemberWrite auth rq.workspaceId targetUserId actor rq.userId
    | .updateRole targetUserId dto =>
      updateMemberRoleWrite auth rq.workspaceId targetUserId dto actor rq.userId
    | .leave => leaveWrite auth rq.workspaceId actor rq.userId
  return (actor, target)

/-- What is left of it then. -/
def MemberRequest.finish (rq : MemberRequest) (done : WorkspaceMembership × MemberRow) :
    Call kurul Unit :=
  match rq.action with
  | .remove targetUserId => do
    let _ ← Call.auto
      (ActivityService.record (memberRemoved rq.workspaceId targetUserId done.1 done.2))
  | .updateRole targetUserId dto =>
    if done.2.role = dto.role then return ()
    else do
      let _ ← Call.auto (ActivityService.record
        (memberRoleChanged rq.workspaceId targetUserId dto.role done.1 done.2))
  | .leave => do
    let _ ← Call.auto (ActivityService.record (memberLeft rq.workspaceId done.1 done.2))
    Call.publish (.evicted rq.workspaceId done.1.userId)

theorem serve_eq (auth : OrganizationApi) (rq : MemberRequest) :
    rq.serve auth = rq.upToWrite auth >>= rq.finish := by
  unfold MemberRequest.serve MemberRequest.upToWrite
  rw [Call.bind_assoc]
  congr 1
  funext actor
  obtain ⟨userId, workspaceId, action⟩ := rq
  cases action with
  | remove targetUserId =>
    simp only [MemberRequest.dispatch, MemberRequest.finish, removeMember, bind_assoc, pure_bind]
  | updateRole targetUserId dto =>
    simp only [MemberRequest.dispatch, MemberRequest.finish, updateMemberRole, bind_assoc, pure_bind]
    congr 1
    funext target
    split
    · rfl
    · simp only [bind_assoc, pure_bind]
  | leave =>
    simp only [MemberRequest.dispatch, MemberRequest.finish, leave, bind_assoc, pure_bind]

end WorkspaceMemberService
end Kurul
