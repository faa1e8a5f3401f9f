import Kurul.Position.RebalanceSql
import Kurul.Task.TaskRead

/-!
# Kurul.Task.Checklists

`ChecklistService` and `ChecklistItemService`: the checklists of a task and the items of a checklist,
each an ordered list. A new row goes to the end of its list under a lock of the list's owner; a move
reads the list and writes one position, without a lock and outside a transaction.

* `byPosition`    — a list as it is read, by position alone.
* `resolveAfter`  — the slot a move names, among the other rows.
* `writeSlot`     — the write of a move, between the neighbours as they were read.
-/

namespace Kurul

open Sql TaskReadService

instance : Placed ChecklistRow where
  list := ChecklistRow.taskId
  position := ChecklistRow.position
  setPosition p := ⟨fun c => { c with position := p }, fun _ => rfl⟩
  list_set := fun _ _ => rfl
  position_set := fun _ _ => rfl
  set_position := fun _ => rfl

instance : Placed ChecklistItemRow where
  list := ChecklistItemRow.checklistId
  position := ChecklistItemRow.position
  setPosition p := ⟨fun c => { c with position := p }, fun _ => rfl⟩
  list_set := fun _ _ => rfl
  position_set := fun _ _ => rfl
  set_position := fun _ => rfl

/-! ## What both services read and write -/

section Lists

variable (R : Type) [Model R] [Placed R]

/-- The rows of one list, `orderBy: { position: 'asc' }`: nothing is said of equal positions. -/
def byPosition (db : Db) (listId : Id) : List R :=
  sortBy Placed.position ((rows R db).filter fun r => Placed.list r = listId)

def siblingsByPosition (db : Db) (listId : Id) : List Sibling := (byPosition R db listId).map toSibling

/-- The position behind the last row, `orderBy: { position: 'desc' }, take: 1`. -/
def endPosition (db : Db) (listId : Id) : Position :=
  (((byPosition R db listId).getLast?).map Placed.position).getD 0 + positionGap

/-- The slot behind the row `afterId`, or the first one. -/
def resolveAfter (others : List Sibling) (afterId : Option Id) : Option (InsertionSlot Sibling) :=
  match afterId.filter truthy with
  | none => some (sliceSlot others 0)
  | some after => (findIndex others after).map fun afterIndex => sliceSlot others (afterIndex + 1)

/-- The slot of a row that is moved, among the others. -/
def moveSlot (siblings : List Sibling) (id : Id) (afterId : Option Id) :
    Option (InsertionSlot Sibling) :=
  resolveAfter (siblings.filter fun row => row.id ≠ id) afterId

def slotPosition (slot : InsertionSlot Sibling) : Position :=
  midpoint (slot.prev.map Sibling.position) (slot.next.map Sibling.position)

/-- The second half of a move: the row gets a position between its neighbours as they were read. -/
def writeSlot (siblings : List Sibling) (id : Id) (afterId : Option Id) (notFound : JsString) :
    Call kurul Unit := do
  let slot ← Call.auto (orThrow (moveSlot siblings id afterId) (.notFound notFound))
  let _ ← Call.auto (update (fun _ (r : R) => Model.id r = id) (Placed.setPosition (slotPosition slot)))

end Lists

/-! ## Checklists -/

structure CreateChecklistDto where
  title : JsString

structure UpdateChecklistDto where
  title : JsString

structure MoveChecklistDto where
  afterId : Option Id

namespace ChecklistService

def createBody (taskId : Id) (dto : CreateChecklistDto) : Tx kurul Unit := do
  lockRow ⟨.task, taskId⟩
  let position ← query fun db => endPosition ChecklistRow db taskId
  let id ← Tx.fresh
  let _ ← Kurul.create ({ id, taskId, title := dto.title, position } : ChecklistRow)

def create (workspaceId taskId actorId : Id) (dto : CreateChecklistDto) : Call kurul TaskDto := do
  let task ← Call.auto (findTaskBasic workspaceId taskId)
  Call.transaction .transaction (createBody task.id dto)
  TaskEventsService.emitUpdated workspaceId taskId actorId

/-- `where: { id, taskId, task: { board: { workspaceId } } }`. -/
def checklistScope (workspaceId taskId checklistId : Id) (db : Db) (c : ChecklistRow) : Bool :=
  c.id = checklistId && c.taskId = taskId && onTaskOf db workspaceId c.taskId

/-- `data: { title: dto.title }`. -/
def UpdateChecklistDto.patch (dto : UpdateChecklistDto) : Patch ChecklistRow :=
  ⟨fun c => { c with title := dto.title }, fun _ => rfl⟩

def update (workspaceId taskId actorId checklistId : Id) (dto : UpdateChecklistDto) :
    Call kurul TaskDto := do
  let _ ← Call.auto (findTaskBasic workspaceId taskId)
  let count ← Call.auto (updateMany (checklistScope workspaceId taskId checklistId)
    (UpdateChecklistDto.patch dto))
  Call.auto (throwIf (count = 0) (.notFound (js "Checklist not found")))
  TaskEventsService.emitUpdated workspaceId taskId actorId

def remove (workspaceId taskId actorId checklistId : Id) : Call kurul TaskDto := do
  let _ ← Call.auto (findTaskBasic workspaceId taskId)
  let count ← Call.auto (deleteMany (checklistScope workspaceId taskId checklistId))
  Call.auto (throwIf (count = 0) (.notFound (js "Checklist not found")))
  TaskEventsService.emitUpdated workspaceId taskId actorId

def move (workspaceId taskId actorId checklistId : Id) (dto : MoveChecklistDto) :
    Call kurul TaskDto := do
  let _ ← Call.auto (findTaskBasic workspaceId taskId)
  let siblings ← Call.auto (query fun db => siblingsByPosition ChecklistRow db taskId)
  Call.auto (throwIf (!siblings.any fun row => row.id = checklistId)
    (.notFound (js "Checklist not found")))
  writeSlot ChecklistRow siblings checklistId dto.afterId (js "Checklist not found")
  TaskEventsService.emitUpdated workspaceId taskId actorId

end ChecklistService

/-! ## Items -/

structure CreateChecklistItemDto where
  content : JsString

structure UpdateChecklistItemDto where
  content : Option JsString
  isDone : Option Bool

structure MoveChecklistItemDto where
  afterId : Option Id

namespace ChecklistItemService

open ChecklistService (checklistScope)

def createBody (checklistId : Id) (dto : CreateChecklistItemDto) : Tx kurul Unit := do
  lockRow ⟨.checklist, checklistId⟩
  let position ← query fun db => endPosition ChecklistItemRow db checklistId
  let id ← Tx.fresh
  let _ ← Kurul.create
    ({ id, checklistId, content := dto.content, isDone := false, position } : ChecklistItemRow)

def create (workspaceId taskId actorId checklistId : Id) (dto : CreateChecklistItemDto) :
    Call kurul TaskDto := do
  let _ ← Call.auto (findTaskBasic workspaceId taskId)
  let checklist ← Call.auto (findFirst (checklistScope workspaceId taskId checklistId))
  let _ ← Call.auto (orThrow checklist (.notFound (js "Checklist not found")))
  Call.transaction .transaction (createBody checklistId dto)
  TaskEventsService.emitUpdated workspaceId taskId actorId

/-- `where: { id, checklist: { taskId, task: { board: { workspaceId } } } }`. -/
def itemScope (workspaceId taskId itemId : Id) (db : Db) (item : ChecklistItemRow) : Bool :=
  item.id = itemId && (byId ChecklistRow db item.checklistId).any fun c =>
    c.taskId = taskId && onTaskOf db workspaceId c.taskId

/-- `data`: only the keys the request sent. -/
def UpdateChecklistItemDto.patch (dto : UpdateChecklistItemDto) : Patch ChecklistItemRow where
  apply item := { item with
    content := dto.content.getD item.content
    isDone := dto.isDone.getD item.isDone }
  id_apply := fun _ => rfl

/-- A request with neither key is no edit: the item is looked for, and nothing is written or told. -/
def update (workspaceId taskId actorId itemId : Id) (dto : UpdateChecklistItemDto) :
    Call kurul TaskDto := do
  let _ ← Call.auto (findTaskBasic workspaceId taskId)
  if dto.content.isNone && dto.isDone.isNone then do
    let existing ← Call.auto (findFirst (itemScope workspaceId taskId itemId))
    let _ ← Call.auto (orThrow existing (.notFound (js "Checklist item not found")))
    let found ← Call.auto (findTask workspaceId taskId)
    return toTaskDetailDto found.1 found.2
  else do
    let count ← Call.auto (updateMany (itemScope workspaceId taskId itemId)
      (UpdateChecklistItemDto.patch dto))
    Call.auto (throwIf (count = 0) (.notFound (js "Checklist item not found")))
    TaskEventsService.emitUpdated workspaceId taskId actorId

def remove (workspaceId taskId actorId itemId : Id) : Call kurul TaskDto := do
  let _ ← Call.auto (findTaskBasic workspaceId taskId)
  let count ← Call.auto (deleteMany (itemScope workspaceId taskId itemId))
  Call.auto (throwIf (count = 0) (.notFound (js "Checklist item not found")))
  TaskEventsService.emitUpdated workspaceId taskId actorId

def move (workspaceId taskId actorId itemId : Id) (dto : MoveChecklistItemDto) :
    Call kurul TaskDto := do
  let _ ← Call.auto (findTaskBasic workspaceId taskId)
  let found ← Call.auto (findFirst (itemScope workspaceId taskId itemId))
  let owner ← Call.auto (orThrow found (.notFound (js "Checklist item not found")))
  let siblings ← Call.auto (query fun db => siblingsByPosition ChecklistItemRow db owner.checklistId)
  writeSlot ChecklistItemRow siblings itemId dto.afterId (js "Checklist item not found")
  TaskEventsService.emitUpdated workspaceId taskId actorId

end ChecklistItemService

/-! ## The slot of a move -/

theorem moveSlot_eq {siblings : List Sibling} {id : Id} {afterId : Option Id}
    {slot : InsertionSlot Sibling} (h : moveSlot siblings id afterId = some slot) :
    ∃ k, k ≤ (siblings.filter fun row => row.id ≠ id).length ∧
      slot = sliceSlot (siblings.filter fun row => row.id ≠ id) k ∧
      (∀ after, afterId.filter truthy = some after → 0 < k ∧
        ∃ row, (siblings.filter fun row => row.id ≠ id)[k - 1]? = some row ∧ row.id = after) ∧
      (afterId.filter truthy = none → k = 0) := by
  unfold moveSlot resolveAfter at h
  cases hafter : afterId.filter truthy with
  | none =>
    rw [hafter] at h
    cases h
    exact ⟨0, Nat.zero_le _, rfl, by simp, fun _ => rfl⟩
  | some after =>
    rw [hafter] at h
    obtain ⟨afterIndex, hindex, rfl⟩ := Option.map_eq_some_iff.mp h
    refine ⟨afterIndex + 1, findIndex_lt hindex, rfl, fun a ha => ?_, by simp⟩
    obtain rfl := Option.some.inj ha
    exact ⟨Nat.succ_pos _, findIndex_eq_some hindex⟩

end Kurul
