import Kurul.Activity
import Kurul.Board.BoardDefaults
import Kurul.Position.RebalanceSql
import Kurul.Task.TaskFields

/-!
# Kurul.Board.ColumnService

`ColumnService`: creating, updating, moving and removing a column, and seeding a board that has
none. Creating, moving and seeding hold the lock of the board.
-/

namespace Kurul

open Sql

structure CreateColumnDto where
  name : JsString
  afterColumnId : Option Id
  color : Option JsString
  category : Option ColumnCategory

structure UpdateColumnDto where
  name : Option JsString
  color : Field JsString
  category : Option ColumnCategory

structure MoveColumnDto where
  beforeColumnId : Option Id
  afterColumnId : Option Id

structure ColumnDto where
  id : Id
  boardId : Id
  name : JsString
  position : Position
  color : Option JsString
  category : ColumnCategory
  taskCount : Nat
  deriving DecidableEq

namespace ColumnService

/-- `_count: { select: { tasks: true } }`. -/
def tasksIn (db : Db) (columnId : Id) : Nat :=
  ((rows TaskRow db).filter fun t => t.columnId = columnId).length

def toDto (row : ColumnRow) (tasks : Nat) : ColumnDto :=
  ⟨row.id, row.boardId, row.name, row.position, row.color, row.category, tasks⟩

/-- `include: { _count: … }` on a row just written. -/
def withCount (row : ColumnRow) : Tx kurul ColumnDto :=
  query fun db => toDto row (tasksIn db row.id)

/-- The columns of a board in order, each with its tasks counted. -/
def list (workspaceId boardId : Id) : Tx kurul (List ColumnDto) := do
  let _ ← assertBoard workspaceId boardId
  query fun db => (ordered ColumnRow db boardId).map fun c => toDto c (tasksIn db c.id)

def emitChanged (workspaceId actorId boardId columnId : Id) : Call kurul Unit :=
  Call.publish (.toBoard boardId workspaceId actorId (.columnChanged columnId))

/-! ## Create -/

def createBody (boardId : Id) (dto : CreateColumnDto) : Tx kurul ColumnDto := do
  lockRow ⟨.board, boardId⟩
  let columns ← findSiblings ColumnRow boardId
  -- `afterColumnId` is the column the new one goes after: its `prev`.
  let slot ← ofExcept (resolveCreateNeighbors columns dto.afterColumnId (js "Column not found"))
  let position ← makeRoom ColumnRow boardId columns slot
  let id ← Tx.fresh
  let row ← create ({
    id
    boardId
    name := dto.name
    position
    color := dto.color
    category := dto.category.getD .unstarted } : ColumnRow)
  withCount row

def create (workspaceId boardId actorId : Id) (dto : CreateColumnDto) : Call kurul ColumnDto := do
  let _ ← Call.auto (assertBoard workspaceId boardId)
  let created ← Call.transaction .transaction (createBody boardId dto)
  let _ ← Call.auto (ActivityService.record {
    workspaceId
    taskId := none
    userId := actorId
    type := .columnCreated
    payload := [field "columnId" created.id, field "boardId" created.boardId,
      field "name" created.name, field "category" created.category.text] })
  emitChanged workspaceId actorId created.boardId created.id
  return created

/-! ## Default columns -/

/-- A default column on its board; `color` is not given. -/
def seedRow (boardId : Id) (id : Id) (column : DefaultColumn) : ColumnRow where
  id
  boardId
  name := column.name
  position := column.position
  color := none
  category := column.category

/-- The audit entry of a seeded column. -/
def seededInput (workspaceId boardId actorId : Id) (column : ColumnRow) : RecordActivityInput where
  workspaceId
  taskId := none
  userId := actorId
  type := .columnCreated
  payload := [field "columnId" column.id, field "boardId" boardId, field "name" column.name,
    field "category" column.category.text, (js "seeded", .bool true)]

def recordSeeded (workspaceId boardId actorId : Id) : List ColumnRow → Tx kurul Unit
  | [] => return ()
  | column :: rest => do
    let _ ← ActivityService.record (seededInput workspaceId boardId actorId column)
    recordSeeded workspaceId boardId actorId rest

def createDefaultsBody (workspaceId boardId actorId : Id) (locale : Locale) :
    Tx kurul (List (ColumnRow × Nat)) := do
  lockRow ⟨.board, boardId⟩
  let existing ← count fun _ (c : ColumnRow) => c.boardId = boardId
  throwIf (existing > 0) (.conflict (js "Board already has columns"))
  let data ← withIds (seedRow boardId) (defaultColumnsFor locale)
  let _ ← createMany data
  let rows ← query fun db => (ordered ColumnRow db boardId).map fun c => (c, tasksIn db c.id)
  recordSeeded workspaceId boardId actorId (rows.map Prod.fst)
  return rows

/-- One event for each column. -/
def emitEach (workspaceId actorId boardId : Id) : List Id → Call kurul Unit
  | [] => return ()
  | columnId :: rest => do
    emitChanged workspaceId actorId boardId columnId
    emitEach workspaceId actorId boardId rest

def createDefaults (rt : Runtime) (workspaceId boardId actorId : Id)
    (acceptLanguage : Option JsString) : Call kurul (List ColumnDto) := do
  let _ ← Call.auto (assertBoard workspaceId boardId)
  let locale ← LocaleService.resolve rt (some actorId) acceptLanguage
  let created ← Call.transaction .transaction
    (createDefaultsBody workspaceId boardId actorId locale)
  emitEach workspaceId actorId boardId (created.map fun r => r.1.id)
  return created.map fun r => toDto r.1 r.2

/-! ## Update -/

/-- `data`: only the keys the request sent. -/
def UpdateColumnDto.patch (dto : UpdateColumnDto) : Patch ColumnRow where
  apply c := { c with
    name := dto.name.getD c.name
    color := dto.color.over c.color
    category := dto.category.getD c.category }
  id_apply := fun _ => rfl

/-- What the audit entry of an update reports on. -/
def auditFields : List (AuditField ColumnRow) :=
  [("name", fun c => some c.name), ("color", ColumnRow.color),
    ("category", fun c => some c.category.text)]

def updateBody (workspaceId columnId actorId : Id) (dto : UpdateColumnDto) : Tx kurul ColumnDto := do
  let found ← findFirst (columnScope workspaceId columnId)
  let scope ← orThrow found (.notFound (js "Column not found"))
  let updated ← Kurul.update (columnScope workspaceId columnId) (UpdateColumnDto.patch dto)
  let result ← withCount updated
  let _ ← ActivityService.record {
    workspaceId
    taskId := none
    userId := actorId
    type := .columnUpdated
    payload := [field "columnId" columnId, field "boardId" updated.boardId,
      field "name" updated.name, (js "changes", .obj (fieldChanges scope updated auditFields))] }
  return result

def update (workspaceId columnId actorId : Id) (dto : UpdateColumnDto) : Call kurul ColumnDto := do
  let column ← Call.transaction .transaction (updateBody workspaceId columnId actorId dto)
  emitChanged workspaceId actorId column.boardId column.id
  return column

/-! ## Remove -/

def removeBody (workspaceId columnId actorId : Id) : Tx kurul ColumnRow := do
  let found ← findFirst (columnScope workspaceId columnId)
  let row ← orThrow found (.notFound (js "Column not found"))
  let taskCount ← query fun db => tasksIn db columnId
  throwIf (taskCount > 0) (.conflict (js "Column has tasks; move or delete them first"))
  let _ ← ActivityService.record {
    workspaceId
    taskId := none
    userId := actorId
    type := .columnDeleted
    payload := [field "columnId" columnId, field "boardId" row.boardId, field "name" row.name,
      field "category" row.category.text] }
  let count ← deleteMany (columnScope workspaceId columnId)
  throwIf (count = 0) (.notFound (js "Column not found"))
  return row

def remove (workspaceId columnId actorId : Id) : Call kurul Unit := do
  let column ← Call.transaction .transaction (removeBody workspaceId columnId actorId)
  emitChanged workspaceId actorId column.boardId column.id

/-! ## Move -/

/-- `tx.column.update` with the new position. -/
def writeMove (workspaceId columnId : Id) (position : Position) : Tx kurul ColumnRow :=
  Kurul.update (columnScope workspaceId columnId) (Placed.setPosition position)

/-- The write of a move: the row between its neighbours, or the row and then the whole board
respread around it. -/
def place (workspaceId columnId : Id) (column : ColumnRow) (remaining : List Sibling)
    (slot : InsertionSlot Sibling) : Tx kurul ColumnDto :=
  let prevPos := slot.prev.map Sibling.position
  let nextPos := slot.next.map Sibling.position
  if needsRebalance prevPos nextPos then do
    let reordered := remaining.insertIdx slot.insertionIndex ⟨column.id, column.position⟩
    let positions := rebalancePositions reordered.length
    let otherUpdates := moveUpdates reordered columnId positions
    let _ ← writeMove workspaceId columnId (positions.getD slot.insertionIndex 0)
    batchUpdateColumnPositions column.boardId otherUpdates
    let refreshed ← findFirst (columnScope workspaceId columnId)
    let refreshed ← orThrow refreshed (.prisma .p2025)
    withCount refreshed
  else do
    let updated ← writeMove workspaceId columnId (midpoint prevPos nextPos)
    withCount updated

def moveBody (workspaceId columnId : Id) (dto : MoveColumnDto) : Tx kurul ColumnDto := do
  let found ← findFirst (columnScope workspaceId columnId)
  let column ← orThrow found (.notFound (js "Column not found"))
  throwIf (dto.beforeColumnId = some columnId || dto.afterColumnId = some columnId)
    (.badRequest (js "A column cannot be its own neighbor"))
  lockRow ⟨.board, column.boardId⟩
  let columns ← findSiblings ColumnRow column.boardId
  let remaining := columns.filter fun item => item.id ≠ columnId
  let slot ← ofExcept (resolveMoveNeighbors remaining dto.beforeColumnId dto.afterColumnId)
  place workspaceId columnId column remaining slot

def move (workspaceId columnId actorId : Id) (dto : MoveColumnDto) : Call kurul ColumnDto := do
  let moved ← Call.transaction .transaction (moveBody workspaceId columnId dto)
  emitChanged workspaceId actorId moved.boardId moved.id
  return moved

end ColumnService
end Kurul
