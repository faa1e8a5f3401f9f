import Kurul.Activity
import Kurul.Board.BoardDefaults
import Kurul.Task.TaskFields

/-!
# Kurul.Board.BoardService

`BoardService`: the boards of a workspace; creating one with its first columns, renaming and removing
one, each in one transaction with its audit entry.
-/

namespace Kurul

open Sql

structure CreateBoardDto where
  name : JsString
  description : Option JsString

structure UpdateBoardDto where
  name : Option JsString
  description : Field JsString

structure BoardDto where
  id : Id
  workspaceId : Id
  name : JsString
  description : Option JsString
  createdAt : JsString

namespace BoardService

def toDto (row : BoardRow) : BoardDto :=
  ⟨row.id, row.workspaceId, row.name, row.description, toISOString row.createdAt⟩

/-- `orderBy: { createdAt: 'asc' }`: nothing is said of boards created at one time. -/
def list (workspaceId : Id) : Tx kurul (List BoardDto) := do
  let boards ← query fun db =>
    sortBy BoardRow.createdAt ((rows BoardRow db).filter fun b => b.workspaceId = workspaceId)
  return boards.map toDto

def get (workspaceId boardId : Id) : Tx kurul BoardDto := do
  let board ← assertBoard workspaceId boardId
  return toDto board

/-! ## Create -/

/-- `columns: { create: seeded }`, one after the other. -/
def createSeeded (boardId : Id) : List DefaultColumn → Tx kurul Unit
  | [] => return ()
  | column :: rest => do
    let id ← Tx.fresh
    let _ ← Kurul.create ({
      id
      boardId
      name := column.name
      position := column.position
      color := none
      category := column.category } : ColumnRow)
    createSeeded boardId rest

/-- One entry for the board and its columns together. -/
def createBody (workspaceId actorId : Id) (dto : CreateBoardDto) (seeded : List DefaultColumn) :
    Tx kurul BoardRow := do
  let id ← Tx.fresh
  let now ← Tx.now
  let created ← Kurul.create ({
    id
    workspaceId
    name := dto.name
    description := dto.description
    createdAt := now } : BoardRow)
  createSeeded created.id seeded
  let _ ← ActivityService.record {
    workspaceId
    taskId := none
    userId := actorId
    type := .boardCreated
    payload := [field "boardId" created.id, field "name" created.name,
      (js "seededColumns", .arr (seeded.map fun column => .str column.name))] }
  return created

def create (rt : Runtime) (workspaceId actorId : Id) (dto : CreateBoardDto)
    (acceptLanguage : Option JsString) : Call kurul BoardDto := do
  let locale ← LocaleService.resolve rt (some actorId) acceptLanguage
  let board ← Call.transaction .transaction
    (createBody workspaceId actorId dto (defaultColumnsFor locale))
  return toDto board

/-! ## Update -/

/-- `data`: only the keys the request sent. -/
def UpdateBoardDto.patch (dto : UpdateBoardDto) : Patch BoardRow where
  apply b := { b with
    name := dto.name.getD b.name
    description := dto.description.over b.description }
  id_apply := fun _ => rfl

/-- What the audit entry of an update reports on. -/
def auditFields : List (AuditField BoardRow) :=
  [("name", fun b => some b.name), ("description", BoardRow.description)]

def updateBody (workspaceId boardId actorId : Id) (dto : UpdateBoardDto) : Tx kurul BoardRow := do
  let found ← findFirst (boardScope workspaceId boardId)
  let scope ← orThrow found (.notFound (js "Board not found"))
  let updated ← Kurul.update (boardScope workspaceId boardId) (UpdateBoardDto.patch dto)
  let _ ← ActivityService.record {
    workspaceId
    taskId := none
    userId := actorId
    type := .boardUpdated
    payload := [field "boardId" boardId, field "name" updated.name,
      (js "changes", .obj (fieldChanges scope updated auditFields))] }
  return updated

def update (workspaceId boardId actorId : Id) (dto : UpdateBoardDto) : Call kurul BoardDto := do
  let board ← Call.transaction .transaction (updateBody workspaceId boardId actorId dto)
  return toDto board

/-! ## Remove -/

def removeBody (workspaceId boardId actorId : Id) : Tx kurul Unit := do
  let found ← findFirst (boardScope workspaceId boardId)
  let scope ← orThrow found (.notFound (js "Board not found"))
  let taskCount ← count fun _ (t : TaskRow) => t.boardId = boardId
  let _ ← ActivityService.record {
    workspaceId
    taskId := none
    userId := actorId
    type := .boardDeleted
    payload := [field "boardId" boardId, field "name" scope.name,
      (js "taskCount", .ofNat taskCount)] }
  let count ← deleteMany (boardScope workspaceId boardId)
  throwIf (count = 0) (.notFound (js "Board not found"))

def remove (workspaceId boardId actorId : Id) : Call kurul Unit :=
  Call.transaction .transaction (removeBody workspaceId boardId actorId)

end BoardService
end Kurul
