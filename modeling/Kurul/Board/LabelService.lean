import Kurul.Activity
import Kurul.Task.TaskDto
import Mathlib.Data.Prod.Lex

/-!
# Kurul.Board.LabelService

`LabelService`: the labels of a board. Creating one is two statements, each committing by itself;
updating and removing one is a transaction with its audit entry.

How Postgres orders names is a parameter.
-/

namespace Kurul

open Sql

structure CreateLabelDto where
  name : JsString
  color : JsString

structure UpdateLabelDto where
  name : Option JsString
  color : Option JsString

namespace LabelService

def toDto (row : LabelRow) : LabelDto := ⟨row.id, row.boardId, row.name, toLabelColorSlot row.color⟩

/-- `orderBy: [{ name: 'asc' }, { id: 'asc' }]`. -/
def list (collate : JsString → JsString) (workspaceId boardId : Id) : Tx kurul (List LabelDto) := do
  let _ ← assertBoard workspaceId boardId
  let labels ← query fun db => sortBy (fun (l : LabelRow) => toLex (collate l.name, l.id))
    ((rows LabelRow db).filter fun l => l.boardId = boardId)
  return labels.map toDto

/-! ## Create -/

def createRow (boardId : Id) (dto : CreateLabelDto) : Tx kurul LabelRow := do
  let id ← Tx.fresh
  Kurul.create ({ id, boardId, name := dto.name, color := dto.color } : LabelRow)

/-- The entry is recorded after the insert, in no transaction with it. -/
def create (workspaceId boardId actorId : Id) (dto : CreateLabelDto) : Call kurul LabelDto := do
  let _ ← Call.auto (assertBoard workspaceId boardId)
  let created ← Call.auto (createRow boardId dto)
  let _ ← Call.auto (ActivityService.record {
    workspaceId
    taskId := none
    userId := actorId
    type := .labelCreated
    payload := [field "labelId" created.id, field "boardId" boardId, field "name" created.name,
      field "color" created.color] })
  return toDto created

/-! ## Update -/

/-- `where: { id, board: { workspaceId } }` on a label. -/
def labelScope (workspaceId labelId : Id) (db : Db) (l : LabelRow) : Bool :=
  l.id = labelId && onBoardOf db workspaceId l.boardId

/-- `data`: only the keys the request sent. -/
def UpdateLabelDto.patch (dto : UpdateLabelDto) : Patch LabelRow where
  apply l := { l with
    name := dto.name.getD l.name
    color := dto.color.getD l.color }
  id_apply := fun _ => rfl

/-- What the audit entry of an update reports on. -/
def auditFields : List (AuditField LabelRow) :=
  [("name", fun l => some l.name), ("color", fun l => some l.color)]

def updateBody (workspaceId labelId actorId : Id) (dto : UpdateLabelDto) : Tx kurul LabelRow := do
  let found ← findFirst (labelScope workspaceId labelId)
  let scope ← orThrow found (.notFound (js "Label not found"))
  let row ← Kurul.update (labelScope workspaceId labelId) (UpdateLabelDto.patch dto)
  let _ ← ActivityService.record {
    workspaceId
    taskId := none
    userId := actorId
    type := .labelUpdated
    payload := [field "labelId" labelId, field "boardId" row.boardId, field "name" row.name,
      (js "changes", .obj (fieldChanges scope row auditFields))] }
  return row

def update (workspaceId labelId actorId : Id) (dto : UpdateLabelDto) : Call kurul LabelDto := do
  let updated ← Call.transaction .transaction (updateBody workspaceId labelId actorId dto)
  return toDto updated

/-! ## Remove -/

def removeBody (workspaceId labelId actorId : Id) : Tx kurul Unit := do
  let found ← findFirst (labelScope workspaceId labelId)
  let scope ← orThrow found (.notFound (js "Label not found"))
  let _ ← ActivityService.record {
    workspaceId
    taskId := none
    userId := actorId
    type := .labelDeleted
    payload := [field "labelId" labelId, field "boardId" scope.boardId, field "name" scope.name,
      field "color" scope.color] }
  let count ← deleteMany (labelScope workspaceId labelId)
  throwIf (count = 0) (.notFound (js "Label not found"))

def remove (workspaceId labelId actorId : Id) : Call kurul Unit :=
  Call.transaction .transaction (removeBody workspaceId labelId actorId)

end LabelService
end Kurul
