import Kurul.Import.TrelloExport
import Kurul.Position.FractionalIndex
import Kurul.Runtime

/-!
# Kurul.Import.TrelloImportPlanner

`planTrelloImport`: a read export mapped onto the rows an import writes, and a report of everything
it does not. Pure, but for generated identifiers and the skips it collects, which `Plan` threads
through.
-/

namespace Kurul

/-! ## What a plan holds -/

structure PlannedBoard where
  id : Id
  name : JsString
  description : Option JsString

structure PlannedColumn where
  id : Id
  boardId : Id
  name : JsString
  position : Position
  category : ColumnCategory

/-- What bracket access on the colour table gives. -/
inductive SlotValue where
  | slot (name : JsString)
  /-- A member every object inherits: a function or an object, and no string. -/
  | inherited
  deriving DecidableEq

structure PlannedLabel where
  id : Id
  boardId : Id
  name : JsString
  color : SlotValue

structure PlannedTask where
  id : Id
  boardId : Id
  columnId : Id
  title : JsString
  description : Option JsString
  position : Position
  dueDate : Option Instant
  createdById : Id

structure PlannedAttachment where
  id : Id
  taskId : Id
  uploadedById : Id
  kind : AttachmentKind
  filename : JsString
  url : JsString
  storageKey : Option JsString
  mimeType : Option JsString
  size : Option Nat

structure TrelloImportPlan where
  board : PlannedBoard
  columns : List PlannedColumn
  labels : List PlannedLabel
  tasks : List PlannedTask
  taskLabels : List TaskLabelRow
  checklists : List ChecklistRow
  checklistItems : List ChecklistItemRow
  attachments : List PlannedAttachment
  skipped : List SkipGroup

/-! ## Planning -/

structure PlanState where
  /-- How many identifiers have been generated. -/
  issued : Nat
  skips : SkipCollector

/-- A stretch of the planner. -/
def Plan (α : Type) : Type := PlanState → α × PlanState

instance : Monad Plan where
  pure a := fun s => (a, s)
  bind p f := fun s => f (p s).1 (p s).2

namespace Plan

variable {α β : Type}

@[simp] theorem pure_apply (a : α) (s : PlanState) : (pure a : Plan α) s = (a, s) := rfl

@[simp] theorem bind_apply (p : Plan α) (f : α → Plan β) (s : PlanState) :
    (p >>= f) s = f (p s).1 (p s).2 := rfl

/-- `skips.addMany(…)`. -/
def skipMany (scope : TrelloImportScope) (reason : TrelloImportSkipReason) (count : Nat)
    (samples : List JsString) : Plan Unit := fun s =>
  ((), { s with skips := s.skips.addMany scope reason count samples })

/-- `skips.add(…)`. -/
def skip (scope : TrelloImportScope) (reason : TrelloImportSkipReason) (sample : Option JsString) :
    Plan Unit := fun s =>
  ((), { s with skips := s.skips.add scope reason sample })

/-- The next identifier `uuidv7()` gives. -/
def newId (uuidv7 : Nat → Id) : Plan Id := fun s =>
  (uuidv7 s.issued, { s with issued := s.issued + 1 })

end Plan

open Plan

/-! ## Helpers -/

/-- `T extends { id: string; pos: number | null }`. -/
class HasPos (T : Type) where
  id : T → JsString
  pos : T → Option ℚ

instance : HasPos TrelloList := ⟨TrelloList.id, TrelloList.pos⟩
instance : HasPos TrelloCard := ⟨TrelloCard.id, TrelloCard.pos⟩
instance : HasPos TrelloChecklist := ⟨TrelloChecklist.id, TrelloChecklist.pos⟩
instance : HasPos TrelloCheckItem := ⟨TrelloCheckItem.id, TrelloCheckItem.pos⟩

/-- By `pos`, without one last, and then by id. -/
def posKey {T : Type} [HasPos T] (row : T) : WithTop ℚ ×ₗ JsString :=
  toLex (HasPos.pos row, HasPos.id row)

def orderedByPos {T : Type} [HasPos T] (rows : List T) : List T := sortBy posKey rows

def positionsFor (count index : Nat) : Position :=
  (rebalancePositions count)[index]?.getD ((index + 1) * positionGap)

def emptyToNull (value : Option JsString) : Option JsString :=
  value.filter fun text => trim text ≠ []

def isUnnamed (value : JsString) : Bool := trim value = []

/-- `classifyUrl`: the text of a URL that may be stored, or why it may not. -/
def classifyUrl (rt : Runtime) (raw : JsString) : Except TrelloImportSkipReason JsString :=
  match rt.parseUrl (trim raw) with
  | none => .error .malformed
  | some parsed =>
    if parsed.protocol ∈ [js "http:", js "https:"] then .ok parsed.href else .error .unsupportedScheme

/-- `TRELLO_COLOR_TO_SLOT`. -/
def trelloColorTable : List (JsString × JsString) :=
  [(js "blue", js "slot-1"), (js "orange", js "slot-2"), (js "green", js "slot-3"),
    (js "yellow", js "slot-4"), (js "pink", js "slot-5"), (js "lime", js "slot-6"),
    (js "purple", js "slot-7"), (js "red", js "slot-8"), (js "sky", js "slot-1"),
    (js "black", js "slot-7")]

/-- What an object literal has from `Object.prototype`. -/
def inheritedNames : List JsString :=
  [js "constructor", js "hasOwnProperty", js "isPrototypeOf", js "propertyIsEnumerable",
    js "toLocaleString", js "toString", js "valueOf", js "__proto__", js "__defineGetter__",
    js "__defineSetter__", js "__lookupGetter__", js "__lookupSetter__"]

structure TrelloColorMapping where
  slot : SlotValue
  defaulted : Bool

def trelloColorToSlot (rt : Runtime) (color : Option JsString) : TrelloColorMapping :=
  let base := (rt.toLowerCase (color.getD [])).takeWhile fun c => [c] ≠ js "_"
  match trelloColorTable.lookup base with
  | some slot => ⟨.slot slot, false⟩
  | none => if base ∈ inheritedNames then ⟨.inherited, false⟩ else ⟨.slot (js "slot-1"), true⟩

/-! ## The planner -/

def addIssues : List TrelloReadIssue → Plan Unit
  | [] => return
  | issue :: rest => do
    skip issue.scope issue.reason issue.sample
    addIssues rest

/-- The lists that become columns, and the ids of the archived ones. -/
def sortLists : List TrelloList → Plan (List TrelloList × List JsString)
  | [] => return ([], [])
  | list :: rest => do
    if list.closed then
      skip .list .archived (some list.name)
      let (live, archived) ← sortLists rest
      return (live, list.id :: archived)
    else if isUnnamed list.name then
      skip .list .malformed none
      sortLists rest
    else
      let (live, archived) ← sortLists rest
      return (list :: live, archived)

section Planner

variable (rt : Runtime) (uuidv7 : Nat → Id) (actorId boardId : Id)

/-- `orderedLists.map(…)`; `byId` is `columnIdByTrelloId`. -/
def planColumns (count : Nat) : (index : Nat) → List TrelloList → JsMap JsString Id →
    Plan (List PlannedColumn × JsMap JsString Id)
  | _, [], byId => return ([], byId)
  | index, list :: rest, byId => do
    let id ← newId uuidv7
    let (columns, byId) ← planColumns count (index + 1) rest (byId.set list.id id)
    return ({
      id
      boardId
      name := list.name
      position := positionsFor count index
      category := .unstarted } :: columns, byId)

/-- A label's name; one without a name is named after its colour. -/
def labelName (label : TrelloLabel) : JsString :=
  let trelloColorName := (label.color.map trim).getD []
  if isUnnamed label.name then
    if trelloColorName = [] then js "Label" else trelloColorName
  else label.name

/-- `source.labels.map(…)`; `byId` is `labelIdByTrelloId`. -/
def planLabels : List TrelloLabel → JsMap JsString Id →
    Plan (List PlannedLabel × JsMap JsString Id)
  | [], byId => return ([], byId)
  | label :: rest, byId => do
    let mapping := trelloColorToSlot rt label.color
    let name := labelName label
    let id ← newId uuidv7
    if mapping.defaulted || isUnnamed label.name then
      skip .label .defaulted (some name)
    let (labels, byId) ← planLabels rest (byId.set label.id id)
    return ({ id, boardId, name, color := mapping.slot } :: labels, byId)

/-- The column a card goes to, or why it does not come across. -/
def cardColumn (columnIdByTrelloId : JsMap JsString Id) (archivedListIds : List JsString)
    (card : TrelloCard) : Except TrelloImportSkipReason Id :=
  if card.closed then .error .archived
  else if isUnnamed card.name then .error .malformed
  else
    match card.idList.bind columnIdByTrelloId.get with
    | some columnId => .ok columnId
    | none =>
      .error (if card.idList.any fun id => id ∈ archivedListIds then .archived else .malformed)

structure SortedCards where
  skippedCardReasons : JsMap JsString TrelloImportSkipReason
  cardsByColumnId : JsMap Id (List TrelloCard)

def sortCards (columnIdByTrelloId : JsMap JsString Id) (archivedListIds : List JsString) :
    List TrelloCard → SortedCards → Plan SortedCards
  | [], sorted => return sorted
  | card :: rest, sorted =>
    match cardColumn columnIdByTrelloId archivedListIds card with
    | .error reason => do
      skip .card reason (some card.name)
      sortCards columnIdByTrelloId archivedListIds rest
        { sorted with skippedCardReasons := sorted.skippedCardReasons.set card.id reason }
    | .ok columnId =>
      sortCards columnIdByTrelloId archivedListIds rest
        { sorted with cardsByColumnId := sorted.cardsByColumnId.push columnId card }

/-- `for (const trelloLabelId of card.idLabels)`; `attached` is the set of that name. -/
def planTaskLabels (labelIdByTrelloId : JsMap JsString Id) (cardName : JsString) (taskId : Id) :
    (attached : List Id) → List JsString → Plan (List TaskLabelRow)
  | _, [] => return []
  | attached, trelloLabelId :: rest =>
    match labelIdByTrelloId.get trelloLabelId with
    | none => do
      skip .label .malformed (some cardName)
      planTaskLabels labelIdByTrelloId cardName taskId attached rest
    | some labelId =>
      if labelId ∈ attached then planTaskLabels labelIdByTrelloId cardName taskId attached rest
      else do
        let id ← newId uuidv7
        let rows ← planTaskLabels labelIdByTrelloId cardName taskId (attached ++ [labelId]) rest
        return { id, taskId, labelId } :: rows

/-- `for (const attachment of card.attachments)`. -/
def planAttachments (taskId : Id) : List TrelloAttachment → Plan (List PlannedAttachment)
  | [] => return []
  | attachment :: rest =>
    match classifyUrl rt attachment.url with
    | .error reason => do
      skip .attachment reason (some attachment.name)
      planAttachments taskId rest
    | .ok url => do
      let id ← newId uuidv7
      let rows ← planAttachments taskId rest
      return {
        id
        taskId
        uploadedById := actorId
        kind := .link
        filename := if isUnnamed attachment.name then url else attachment.name
        url
        storageKey := none
        mimeType := none
        size := none } :: rows

/-- What the cards of a column, and then of all of them, become. -/
structure TaskRows where
  tasks : List PlannedTask
  taskLabels : List TaskLabelRow
  attachments : List PlannedAttachment

def TaskRows.append (a b : TaskRows) : TaskRows :=
  ⟨a.tasks ++ b.tasks, a.taskLabels ++ b.taskLabels, a.attachments ++ b.attachments⟩

/-- `cards.forEach(…)` in one column; `byId` is `taskIdByTrelloCardId`. -/
def planCards (labelIdByTrelloId : JsMap JsString Id) (columnId : Id) (count : Nat) :
    (index : Nat) → List TrelloCard → JsMap JsString Id → Plan (TaskRows × JsMap JsString Id)
  | _, [], byId => return (⟨[], [], []⟩, byId)
  | index, card :: rest, byId => do
    let taskId ← newId uuidv7
    let task : PlannedTask := {
      id := taskId
      boardId
      columnId
      title := card.name
      description := emptyToNull card.desc
      position := positionsFor count index
      dueDate := card.due.bind rt.parseDate
      createdById := actorId }
    let taskLabels ← planTaskLabels uuidv7 labelIdByTrelloId card.name taskId [] card.idLabels
    let attachments ← planAttachments rt uuidv7 actorId taskId card.attachments
    let (rows, byId) ← planCards labelIdByTrelloId columnId count (index + 1) rest
      (byId.set card.id taskId)
    return (.append ⟨[task], taskLabels, attachments⟩ rows, byId)

/-- `for (const column of columns)`. -/
def planTasks (labelIdByTrelloId : JsMap JsString Id) (cardsByColumnId : JsMap Id (List TrelloCard)) :
    List PlannedColumn → JsMap JsString Id → Plan (TaskRows × JsMap JsString Id)
  | [], byId => return (⟨[], [], []⟩, byId)
  | column :: rest, byId => do
    let cards := orderedByPos (cardsByColumnId.all column.id)
    let (rows, byId) ← planCards rt uuidv7 actorId boardId labelIdByTrelloId column.id cards.length
      0 cards byId
    let (more, byId) ← planTasks labelIdByTrelloId cardsByColumnId rest byId
    return (rows.append more, byId)

/-- The task a checklist goes to, or why it does not come across. -/
def checklistTask (taskIdByTrelloCardId : JsMap JsString Id)
    (skippedCardReasons : JsMap JsString TrelloImportSkipReason) (checklist : TrelloChecklist) :
    Except TrelloImportSkipReason Id :=
  match checklist.idCard.bind taskIdByTrelloCardId.get with
  | none => .error ((checklist.idCard.bind skippedCardReasons.get).getD .malformed)
  | some taskId =>
    if isUnnamed checklist.name || checklist.checkItems.isEmpty then .error .malformed
    else .ok taskId

/-- `for (const checklist of source.checklists)`. -/
def sortChecklists (taskIdByTrelloCardId : JsMap JsString Id)
    (skippedCardReasons : JsMap JsString TrelloImportSkipReason) :
    List TrelloChecklist → JsMap Id (List TrelloChecklist) → Plan (JsMap Id (List TrelloChecklist))
  | [], byTask => return byTask
  | checklist :: rest, byTask =>
    match checklistTask taskIdByTrelloCardId skippedCardReasons checklist with
    | .error reason => do
      skip .checklist reason (some checklist.name)
      sortChecklists taskIdByTrelloCardId skippedCardReasons rest byTask
    | .ok taskId =>
      sortChecklists taskIdByTrelloCardId skippedCardReasons rest (byTask.push taskId checklist)

/-- `orderedByPos(checklist.checkItems).filter(…)`. -/
def usableItems : List TrelloCheckItem → Plan (List TrelloCheckItem)
  | [] => return []
  | item :: rest =>
    if isUnnamed item.name then do
      skip .checklistItem .malformed none
      usableItems rest
    else do
      let items ← usableItems rest
      return item :: items

def planItems (checklistId : Id) (count : Nat) :
    (index : Nat) → List TrelloCheckItem → Plan (List ChecklistItemRow)
  | _, [] => return []
  | index, item :: rest => do
    let id ← newId uuidv7
    let rows ← planItems checklistId count (index + 1) rest
    return {
      id
      checklistId
      content := item.name
      isDone := item.state = some (js "complete")
      position := positionsFor count index } :: rows

/-- `cardChecklists.forEach(…)` on one task. -/
def planTaskChecklists (taskId : Id) (count : Nat) :
    (index : Nat) → List TrelloChecklist → Plan (List ChecklistRow × List ChecklistItemRow)
  | _, [] => return ([], [])
  | index, checklist :: rest => do
    let checklistId ← newId uuidv7
    let row : ChecklistRow := {
      id := checklistId
      taskId
      title := checklist.name
      position := positionsFor count index }
    let usable ← usableItems (orderedByPos checklist.checkItems)
    let items ← planItems uuidv7 checklistId usable.length 0 usable
    let (rows, more) ← planTaskChecklists taskId count (index + 1) rest
    return (row :: rows, items ++ more)

/-- `for (const task of tasks)`. -/
def planChecklists (checklistsByTaskId : JsMap Id (List TrelloChecklist)) :
    List PlannedTask → Plan (List ChecklistRow × List ChecklistItemRow)
  | [] => return ([], [])
  | task :: rest => do
    let cardChecklists := orderedByPos (checklistsByTaskId.all task.id)
    let (rows, items) ← planTaskChecklists uuidv7 task.id cardChecklists.length 0 cardChecklists
    let (more, moreItems) ← planChecklists checklistsByTaskId rest
    return (rows ++ more, items ++ moreItems)

def planBody (read : TrelloExportReadResult) : Plan TrelloImportPlan := do
  let source := read.source
  addIssues read.issues
  let boardId ← newId uuidv7
  let (liveLists, archivedListIds) ← sortLists source.lists
  let orderedLists := orderedByPos liveLists
  let (columns, columnIdByTrelloId) ←
    planColumns uuidv7 boardId orderedLists.length 0 orderedLists .empty
  skipMany .column .defaulted columns.length (columns.map PlannedColumn.name)
  let (labels, labelIdByTrelloId) ← planLabels rt uuidv7 boardId source.labels .empty
  let sorted ← sortCards columnIdByTrelloId archivedListIds source.cards ⟨.empty, .empty⟩
  let (rows, taskIdByTrelloCardId) ← planTasks rt uuidv7 actorId boardId labelIdByTrelloId
    sorted.cardsByColumnId columns .empty
  let checklistsByTaskId ← sortChecklists taskIdByTrelloCardId sorted.skippedCardReasons
    source.checklists .empty
  let (checklists, checklistItems) ← planChecklists uuidv7 checklistsByTaskId rows.tasks
  skipMany .member .unmappable source.memberCount []
  skipMany .comment .outOfScope source.commentCount []
  fun s => ({
    board := {
      id := boardId
      name := if isUnnamed source.name then js "Imported board" else source.name
      description := emptyToNull source.desc }
    columns
    labels
    tasks := rows.tasks
    taskLabels := rows.taskLabels
    checklists
    checklistItems
    attachments := rows.attachments
    skipped := s.skips.toReport }, s)

def planTrelloImport (read : TrelloExportReadResult) : TrelloImportPlan :=
  (planBody rt uuidv7 actorId read ⟨0, Sql.Store.empty⟩).1

end Planner

structure ImportedCounts where
  columns : Nat
  tasks : Nat
  labels : Nat
  checklists : Nat
  checklistItems : Nat
  attachments : Nat

def importedCounts (plan : TrelloImportPlan) : ImportedCounts :=
  ⟨plan.columns.length, plan.tasks.length, plan.labels.length, plan.checklists.length,
    plan.checklistItems.length, plan.attachments.length⟩

end Kurul
