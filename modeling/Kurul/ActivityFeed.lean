import Kurul.Comment.CommentService

/-!
# Kurul.ActivityFeed

`ActivityService` as it is read: the entries of a workspace, or of one task, page by page, the newest
first.
-/

namespace Kurul

open Sql

structure ActivityCursorQuery where
  cursor : Option Id
  limit : Option Nat

structure ActivityDto where
  id : Id
  workspaceId : Id
  taskId : Option Id
  userId : Id
  type : ActivityType
  payload : Json
  createdAt : JsString
  author : AuthorDto

namespace ActivityService

def toDto (row : ActivityRow) (user : UserRow) : ActivityDto where
  id := row.id
  workspaceId := row.workspaceId
  taskId := row.taskId
  userId := row.userId
  type := row.type
  payload := match row.payload with
    | .null => .obj []
    | payload => payload
  createdAt := toISOString row.createdAt
  author := toAuthorDto user

/-- `orderBy: { id: 'desc' }`. -/
def newestFirst (a : ActivityRow) : Idᵒᵈ := OrderDual.toDual a.id

/-- The `where` of a list, but for the cursor: an empty task id narrows nothing. -/
def listWhere (workspaceId : Id) (taskId : Option Id) (a : ActivityRow) : Bool :=
  a.workspaceId = workspaceId && (taskId.filter truthy).all fun t => a.taskId = some t

def list (workspaceId : Id) (taskId : Option Id) (query : ActivityCursorQuery) :
    Tx kurul (Paging.CursorPage Id ActivityDto) := do
  let limit := query.limit.getD 50
  let rows ← Kurul.query fun db =>
    (Paging.readPage newestFirst limit ((query.cursor.filter truthy).map OrderDual.toDual)
      ((rows ActivityRow db).filter (listWhere workspaceId taskId))).filterMap fun a =>
        (byId UserRow db a.userId).map fun user => (a, user)
  return Paging.toCursorPage (fun row => row.1.id) rows limit fun row => toDto row.1 row.2

def listWorkspace (workspaceId : Id) (query : ActivityCursorQuery) :
    Tx kurul (Paging.CursorPage Id ActivityDto) :=
  list workspaceId none query

def listForTask (workspaceId taskId : Id) (query : ActivityCursorQuery) :
    Tx kurul (Paging.CursorPage Id ActivityDto) := do
  let found ← findFirst (taskScope workspaceId taskId)
  let _ ← orThrow found (.notFound (js "Task not found"))
  list workspaceId (some taskId) query

end ActivityService
end Kurul
