import Kurul.Activity
import Kurul.Comment.Mentions
import Kurul.JsMap
import Kurul.Order.SortBy
import Kurul.Runtime

/-!
# Kurul.Account.AccountDeletion

`AccountDeletionService.deleteAccount`: who is deleted, what becomes of the workspaces they alone own,
and the one transaction that takes away what is theirs and anonymises the rest.

The lines it writes to the log are left out, apart from what one is made of before its workspace goes.
-/

namespace Kurul

open Sql

/-! ## The anonymised user -/

/-- `ANONYMOUS_USER_NAME`. -/
def anonymousUserName : JsString := js "Deleted user"

/-- `ANONYMOUS_EMAIL_DOMAIN`. -/
def anonymousEmailDomain : JsString := js "deleted.invalid"

def anonymisedEmailFor (userId : Id) : JsString :=
  js "deleted-" ++ userId ++ js "@" ++ anonymousEmailDomain

/-- What is written over the user's row. -/
def anonymisedUserFields (userId : Id) (deletedAt : Instant) : Patch UserRow where
  apply r := { r with
    email := anonymisedEmailFor userId
    name := anonymousUserName
    emailVerified := false
    avatarUrl := none
    locale := none
    deletedAt := some deletedAt }
  id_apply _ := rfl

/-! ## The request -/

inductive WorkspaceDispositionAction where
  | transfer
  | delete
  deriving DecidableEq

structure WorkspaceDispositionDto where
  workspaceId : Id
  action : WorkspaceDispositionAction
  newOwnerUserId : Option Id
  deriving DecidableEq

structure DeleteAccountDto where
  confirmEmail : JsString
  dispositions : Option (List WorkspaceDispositionDto)

inductive DeletionInitiator where
  | self
  | instanceAdmin
  deriving DecidableEq

def DeletionInitiator.text : DeletionInitiator → JsString
  | .self => js "self"
  | .instanceAdmin => js "instance_admin"

/-- Rows touched by one execution. -/
structure AccountDeletionCounts where
  workspacesTransferred : Nat
  workspacesDeleted : Nat
  membershipsRemoved : Nat
  assignmentsRemoved : Nat
  invitationsRevoked : Nat
  commentsRedacted : Nat
  activitiesRedacted : Nat
  sessionsDeleted : Nat
  accountsDeleted : Nat
  verificationsDeleted : Nat
  notificationsDeleted : Nat
  usagePingsDeleted : Nat
  deriving DecidableEq

/-- What the log says of a workspace that went with an account. -/
structure AccountWorkspaceDeletedLogLine where
  workspaceId : Id
  actorId : Id
  name : Option JsString
  slug : Option JsString
  memberCount : Option Nat
  boardCount : Option Nat
  deletedWithAccount : Id

/-- The columns of a membership that are read. -/
structure MembershipRow where
  workspaceId : Id
  role : MemberRole
  deriving DecidableEq

namespace AccountDeletionService

/-! ## Before the transaction -/

/-- `where: { id }` on a user. -/
def userScope (userId : Id) (_ : Db) (r : UserRow) : Bool := r.id = userId

/-- The live user row, or `404`. -/
def requireLiveUser (userId : Id) : Tx kurul UserRow := do
  let user ← findFirst (userScope userId)
  orThrow (user.filter fun r => r.deletedAt.isNone) (.notFound (js "Account not found"))

def membershipsOf (userId : Id) (db : Db) : List MembershipRow :=
  (sortBy WorkspaceMemberRow.workspaceId
    ((rows WorkspaceMemberRow db).filter fun m => m.userId = userId)).map fun m => ⟨m.workspaceId, m.role⟩

/-- How many owners each of these workspaces has. -/
def countOwners (ownedIds : List Id) : Tx kurul (List (Id × Nat)) :=
  if ownedIds.isEmpty then return []
  else groupCount WorkspaceMemberRow.workspaceId fun _ m => m.workspaceId ∈ ownedIds && m.role = .owner

/-- The workspaces that need a decision, and the others. -/
def partitionMemberships (userId : Id) : Tx kurul (List MembershipRow × List MembershipRow) := do
  let memberships ← query (membershipsOf userId)
  let ownedIds := (memberships.filter fun row => row.role = .owner).map MembershipRow.workspaceId
  let ownerCounts ← countOwners ownedIds
  let ownersByWorkspace := JsMap.ofEntries ownerCounts
  let isSoleOwner := fun row : MembershipRow =>
    row.role = .owner && (ownersByWorkspace.get row.workspaceId).getD 0 ≤ 1
  return (memberships.filter isSoleOwner, memberships.filter fun row => !isSoleOwner row)

/-- One more decision, if it is wanted and the first one for its workspace. -/
def addDisposition (required : List Id) (byWorkspace : JsMap Id WorkspaceDispositionDto)
    (disposition : WorkspaceDispositionDto) : Except ApiError (JsMap Id WorkspaceDispositionDto) :=
  if (byWorkspace.get disposition.workspaceId).isSome then
    .error (.conflict (js "Two decisions were sent for the same workspace: " ++ disposition.workspaceId))
  else if disposition.workspaceId ∉ required then
    .error (.conflict (js "This account is not the only owner of workspace " ++ disposition.workspaceId ++
      js "; no decision is needed for it"))
  else .ok (byWorkspace.set disposition.workspaceId disposition)

/-- `ids.join(', ')`. -/
def joined (ids : List Id) : JsString := (js ", ").intercalate ids

def matchDispositions (soleOwned : List MembershipRow) (dispositions : List WorkspaceDispositionDto) :
    Except ApiError (JsMap Id WorkspaceDispositionDto) := do
  let required := (soleOwned.map MembershipRow.workspaceId).eraseDups
  let byWorkspace ← dispositions.foldlM (addDisposition required) JsMap.empty
  let undecided := required.filter fun id => (byWorkspace.get id).isNone
  if !undecided.isEmpty then
    .error (.conflict (js "Decide what happens to each workspace this account solely owns before it can be deleted: " ++
      joined undecided))
  else return byWorkspace

/-! ## Workspaces that lose their only owner -/

/-- `where: { workspaceId_userId: { workspaceId, userId } }`. -/
def memberScope (workspaceId userId : Id) (_ : Db) (m : WorkspaceMemberRow) : Bool :=
  m.workspaceId = workspaceId && m.userId = userId

def setRole (role : MemberRole) : Patch WorkspaceMemberRow where
  apply m := { m with role }
  id_apply _ := rfl

structure TransferTarget where
  role : MemberRole
  name : JsString
  deletedAt : Option Instant

def findTarget (workspaceId userId : Id) (db : Db) : Option TransferTarget := do
  let member ← (rows WorkspaceMemberRow db).find? (memberScope workspaceId userId db)
  let user ← byId UserRow db member.userId
  return ⟨member.role, user.name, user.deletedAt⟩

/-- Promotes the named member to OWNER, and records who ordered it. -/
def transferOwnership (membership : MembershipRow) (newOwnerUserId departingUserId : Id) : Tx kurul Unit := do
  let target ← query (findTarget membership.workspaceId newOwnerUserId)
  let target ← orThrow (target.filter fun _ => newOwnerUserId ≠ departingUserId)
    (.notFound (js "Workspace member not found"))
  throwIf target.deletedAt.isSome
    (.conflict (js "That member has been deleted and cannot become an owner"))
  let _ ← update (memberScope membership.workspaceId newOwnerUserId) (setRole .owner)
  let _ ← ActivityService.record {
    workspaceId := membership.workspaceId
    taskId := none
    userId := departingUserId
    type := .memberRoleChanged
    payload := [field "targetUserId" newOwnerUserId, field "targetName" target.name,
      field "previousRole" target.role.text, field "newRole" MemberRole.owner.text,
      field "actorRole" membership.role.text, field "reason" (js "account.deleted")] }

/-- Deletes one workspace, everything below it with it. -/
def deleteWorkspace (workspaceId departingUserId actorId : Id) :
    Tx kurul AccountWorkspaceDeletedLogLine := do
  let doomed ← query fun db => (byId WorkspaceRow db workspaceId).map fun w =>
    (w, ((rows WorkspaceMemberRow db).filter fun m => m.workspaceId = workspaceId).length,
      ((rows BoardRow db).filter fun b => b.workspaceId = workspaceId).length)
  let _ ← delete fun _ (w : WorkspaceRow) => w.id = workspaceId
  return {
    workspaceId
    actorId
    name := doomed.map fun d => d.1.name
    slug := doomed.map fun d => d.1.slug
    memberCount := doomed.map fun d => d.2.1
    boardCount := doomed.map fun d => d.2.2
    deletedWithAccount := departingUserId }

/-- One round of the first loop: the workspace is transferred, or deleted with a line to log. -/
def settle (userId actorId : Id) (dispositions : JsMap Id WorkspaceDispositionDto)
    (membership : MembershipRow) : Tx kurul (Option AccountWorkspaceDeletedLogLine) := do
  let disposition ← orThrow (dispositions.get membership.workspaceId)
    (.conflict (js "Decide what happens to workspace " ++ membership.workspaceId ++
      js " before this account can be deleted"))
  match disposition.action, disposition.newOwnerUserId with
  | .transfer, some newOwnerUserId => do
    transferOwnership membership newOwnerUserId userId
    return none
  | .transfer, none => Tx.throw (.conflict
      (js "A transfer needs a new owner for workspace " ++ membership.workspaceId))
  | .delete, _ => do
    let line ← deleteWorkspace membership.workspaceId userId actorId
    return some line

def settleAll (userId actorId : Id) (dispositions : JsMap Id WorkspaceDispositionDto) :
    List MembershipRow → Tx kurul (List (Option AccountWorkspaceDeletedLogLine))
  | [] => return []
  | membership :: rest => do
    let line ← settle userId actorId dispositions membership
    let lines ← settleAll userId actorId dispositions rest
    return line :: lines

/-- `account.deleted`, in each workspace that is left behind. -/
def recordDeparture (userId : Id) (initiatedBy : DeletionInitiator) : List MembershipRow → Tx kurul Unit
  | [] => return ()
  | membership :: rest => do
    let _ ← ActivityService.record {
      workspaceId := membership.workspaceId
      taskId := none
      userId
      type := .accountDeleted
      payload := [field "targetUserId" userId, field "previousRole" membership.role.text,
        field "initiatedBy" initiatedBy.text] }
    recordDeparture userId initiatedBy rest

/-! ## Mentions -/

/-- `COMMENT_REDACTION_PAGE`. -/
def commentRedactionPage : Nat := 500

def setBody (body : JsString) : Patch CommentRow where
  apply c := { c with body }
  id_apply _ := rfl

/-- The next comments, in the order of their ids, whose body has the user's id in it. -/
def commentPage (userId : Id) (cursor : Option Id) (db : Db) : List CommentRow :=
  (sortBy CommentRow.id ((rows CommentRow db).filter fun c =>
    includes c.body userId && (cursor.filter truthy).all fun k => k < c.id)).take commentRedactionPage

/-- Rewrites one comment, if that changes it. -/
def redactComment (userId : Id) (comment : CommentRow) : Tx kurul Nat :=
  let body := redactMentionsOf comment.body userId anonymousUserName
  if body = comment.body then return 0 else do
    let _ ← update (fun _ c => c.id = comment.id) (setBody body)
    return 1

/-- Rewrites the comments of one page, and counts those that change. -/
def redactPage (userId : Id) : List CommentRow → Tx kurul Nat
  | [] => return 0
  | comment :: rest => do
    let rewritten ← redactComment userId comment
    let more ← redactPage userId rest
    return rewritten + more

/-- The loop over the pages. `pages` is how many of them fit the time the transaction is given. -/
def redactPages (userId : Id) : (pages : Nat) → (cursor : Option Id) → Tx kurul Nat
  | 0, _ => Tx.throw (.prisma .unavailable)
  | pages + 1, cursor => do
    let page ← query (commentPage userId cursor)
    match page.getLast? with
    | none => return 0
    | some last => do
      let rewritten ← redactPage userId page
      if page.length < commentRedactionPage then return rewritten else do
        let more ← redactPages userId pages (some last.id)
        return rewritten + more

def redactCommentMentions (pages : Nat) (userId : Id) : Tx kurul Nat := redactPages userId pages none

/-! ## Activities -/

/-- `payload->>name`, of a payload whose members are strings. -/
def payloadText (name : String) : Json → Option JsString
  | .obj members => match Json.member (js name) members with
    | some (.str s) => some s
    | _ => none
  | _ => none

/-- `jsonb_set(payload, '{name}', value, false)`. -/
def setMember (name : String) (value : Json) : Json → Json
  | .obj members => .obj (members.map fun m => if m.1 = js name then (m.1, value) else m)
  | payload => payload

def redactName : Patch ActivityRow where
  apply a := { a with payload := setMember "targetName" (.str anonymousUserName) a.payload }
  id_apply _ := rfl

def redactActivityPayloads (userId : Id) : Tx kurul Nat :=
  updateMany (fun _ a => payloadText "targetUserId" a.payload = some userId &&
    (payloadText "targetName" a.payload).isSome) redactName

/-! ## The transaction -/

structure DeletionOutcome where
  counts : AccountDeletionCounts
  deletedWorkspaces : List AccountWorkspaceDeletedLogLine
  evictions : List Id

/-- The workspaces whose rows survive. -/
def surviving (soleOwned other : List MembershipRow) (dispositions : JsMap Id WorkspaceDispositionDto) :
    List MembershipRow :=
  (soleOwned.filter fun row =>
    ((dispositions.get row.workspaceId).map WorkspaceDispositionDto.action) = some .transfer) ++ other

/-- The rows of the user that go, and the row that stays. -/
def erase (pages : Nat) (userId : Id) (email : JsString) (deletedAt : Instant)
    (settled : List (Option AccountWorkspaceDeletedLogLine)) : Tx kurul AccountDeletionCounts := do
  let assignmentsRemoved ← deleteMany fun _ (a : TaskAssigneeRow) => a.userId = userId
  let invitationsRevoked ← deleteMany fun _ (i : WorkspaceInvitationRow) =>
    i.inviterId = userId && i.status = js "pending"
  let commentsRedacted ← redactCommentMentions pages userId
  let activitiesRedacted ← redactActivityPayloads userId
  let notificationsDeleted ← deleteMany fun _ (n : NotificationRow) => n.userId = userId
  let usagePingsDeleted ← deleteMany fun _ (p : UsagePingRow) => p.userId = userId
  let sessionsDeleted ← deleteMany fun _ (s : SessionRow) => s.userId = userId
  let accountsDeleted ← deleteMany fun _ (a : AccountRow) => a.userId = userId
  let verificationsDeleted ← deleteMany fun _ (v : VerificationRow) => includes v.identifier email
  let membershipsRemoved ← deleteMany fun _ (m : WorkspaceMemberRow) => m.userId = userId
  let _ ← update (userScope userId) (anonymisedUserFields userId deletedAt)
  return {
    workspacesTransferred := (settled.filter fun line => line.isNone).length
    workspacesDeleted := (settled.filter fun line => line.isSome).length
    membershipsRemoved, assignmentsRemoved, invitationsRevoked, commentsRedacted, activitiesRedacted
    sessionsDeleted, accountsDeleted, verificationsDeleted, notificationsDeleted, usagePingsDeleted }

def deletionBody (pages : Nat) (userId : Id) (email : JsString) (initiatedBy : DeletionInitiator)
    (actorId : Option Id) (deletedAt : Instant) (soleOwned other : List MembershipRow)
    (dispositions : JsMap Id WorkspaceDispositionDto) : Tx kurul DeletionOutcome := do
  let settled ← settleAll userId (actorId.getD userId) dispositions soleOwned
  let left := surviving soleOwned other dispositions
  recordDeparture userId initiatedBy left
  let counts ← erase pages userId email deletedAt settled
  return {
    counts
    deletedWorkspaces := settled.reduceOption
    evictions := left.map MembershipRow.workspaceId }

def evictAll (userId : Id) : List Id → Call kurul Unit
  | [] => return ()
  | workspaceId :: rest => do
    Call.publish (.evicted workspaceId userId)
    evictAll userId rest

def deleteAccount (rt : Runtime) (pages : Nat) (userId : Id) (dto : DeleteAccountDto)
    (initiatedBy : DeletionInitiator) (actorId : Option Id) : Call kurul AccountDeletionCounts := do
  let user ← Call.auto (requireLiveUser userId)
  if rt.toLowerCase (trim dto.confirmEmail) ≠ rt.toLowerCase (trim user.email) then
    Call.throw (.forbidden (js "The confirmation address does not match this account"))
  else do
    let (soleOwned, other) ← Call.auto (partitionMemberships userId)
    let dispositions ← Call.ofExcept (matchDispositions soleOwned (dto.dispositions.getD []))
    let deletedAt ← Call.auto Tx.now
    let done ← Call.transaction .transaction
      (deletionBody pages userId user.email initiatedBy actorId deletedAt soleOwned other dispositions)
    evictAll userId done.evictions
    return done.counts

end AccountDeletionService
end Kurul
