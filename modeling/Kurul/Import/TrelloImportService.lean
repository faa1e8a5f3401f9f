import Kurul.Activity
import Kurul.Import.TrelloImportPlanner

/-!
# Kurul.Import.TrelloImportService

`TrelloImportService.importBoard`: everything is decided before the transaction opens; inside it the
rows of the plan are inserted, kind by kind and in chunks, and one activity is recorded.

* `chunked_flatten`  — the chunks of a list, put together, are the list.
* `writePlan_traces` — the inserts, in order, are the rows of the plan, in order.
-/

namespace Kurul

open Sql

def importChunkSize : Nat := 1000

/-- Runs of at most `size` rows; `start` goes over the multiples of `size` below the length. -/
def chunked {T : Type} (rows : List T) (size : Nat) : List (List T) :=
  (List.range ((rows.length + size - 1) / size)).map fun i => (rows.drop (i * size)).take size

theorem chunked_flatten {T : Type} (rows : List T) {size : Nat} (h : 0 < size) :
    (chunked rows size).flatten = rows := by
  have main : ∀ n, ((List.range n).map fun i => (rows.drop (i * size)).take size).flatten =
      rows.take (n * size) := by
    intro n
    induction n with
    | zero => simp
    | succ n ih =>
      rw [List.range_succ, List.map_append, List.flatten_append, ih, Nat.succ_mul, List.take_add]
      simp
  rw [chunked, main]
  refine List.take_of_length_le ?_
  -- rounding up loses nothing
  have := Nat.div_add_mod (rows.length + size - 1) size
  have hmod := Nat.mod_lt (rows.length + size - 1) h
  have hcomm := Nat.mul_comm size ((rows.length + size - 1) / size)
  omega

/-! ## Rows, with the columns the schema fills in -/

def PlannedBoard.row (workspaceId : Id) (now : Instant) (b : PlannedBoard) : BoardRow :=
  { id := b.id, workspaceId, name := b.name, description := b.description, createdAt := now }

def PlannedColumn.row (c : PlannedColumn) : ColumnRow :=
  { id := c.id, boardId := c.boardId, name := c.name, position := c.position, color := none
    category := c.category }

/-- The client sends the row of a label only where the colour is a string. -/
def PlannedLabel.row (l : PlannedLabel) : LabelRow :=
  { id := l.id, boardId := l.boardId, name := l.name
    color := match l.color with
      | .slot name => name
      | .inherited => [] }

def PlannedTask.row (now : Instant) (t : PlannedTask) : TaskRow :=
  { id := t.id, boardId := t.boardId, columnId := t.columnId, title := t.title
    description := t.description, priority := .medium, position := t.position, dueDate := t.dueDate
    estimatedMinutes := none, createdById := t.createdById, createdAt := now, updatedAt := now }

def PlannedAttachment.row (now : Instant) (a : PlannedAttachment) : AttachmentRow :=
  { id := a.id, taskId := a.taskId, uploadedById := a.uploadedById, kind := a.kind
    filename := a.filename, storageKey := a.storageKey, mimeType := a.mimeType, size := a.size
    url := some a.url, createdAt := now }

/-- The rows of a plan, in the order they are written. -/
def TrelloImportPlan.rows (workspaceId : Id) (now : Instant) (plan : TrelloImportPlan) : List Row :=
  .board (plan.board.row workspaceId now) ::
    (plan.columns.map fun c => .column c.row) ++ (plan.labels.map fun l => .label l.row) ++
    (plan.tasks.map fun t => .task (t.row now)) ++ plan.taskLabels.map .taskLabel ++
    plan.checklists.map .checklist ++ plan.checklistItems.map .checklistItem ++
    plan.attachments.map fun a => .attachment (a.row now)

/-! ## The service -/

/-- `for (const item of items) await f(item)`. -/
def forEach {T : Type} (f : T → Tx kurul Unit) : List T → Tx kurul Unit
  | [] => return
  | item :: rest => do
    f item
    forEach f rest

/-- `for (const chunk of chunked(…)) await tx.….createMany({ data: chunk })`. -/
def createChunks {T R : Type} [Model R] (row : T → R) (rows : List T) : Tx kurul Unit :=
  forEach (fun chunk => do
    let _ ← createMany (chunk.map row)) (chunked rows importChunkSize)

/-- The chunks of the labels: a colour that is no string is refused before anything is sent. -/
def createLabelChunks (labels : List PlannedLabel) : Tx kurul Unit :=
  forEach (fun chunk => do
    throwIf (chunk.any fun l => l.color = .inherited) (.prisma .validation)
    let _ ← createMany (chunk.map PlannedLabel.row)) (chunked labels importChunkSize)

def writePlan (workspaceId : Id) (now : Instant) (plan : TrelloImportPlan) : Tx kurul Unit := do
  let _ ← create (plan.board.row workspaceId now)
  createChunks PlannedColumn.row plan.columns
  createLabelChunks plan.labels
  createChunks (PlannedTask.row now) plan.tasks
  createChunks (R := TaskLabelRow) id plan.taskLabels
  createChunks (R := ChecklistRow) id plan.checklists
  createChunks (R := ChecklistItemRow) id plan.checklistItems
  createChunks (PlannedAttachment.row now) plan.attachments

def ImportedCounts.json (counts : ImportedCounts) : Json :=
  .obj [(js "columns", .ofNat counts.columns), (js "tasks", .ofNat counts.tasks),
    (js "labels", .ofNat counts.labels), (js "checklists", .ofNat counts.checklists),
    (js "checklistItems", .ofNat counts.checklistItems),
    (js "attachments", .ofNat counts.attachments)]

/-- The clock is read once: within a transaction the database's does not move. -/
def importBody (workspaceId actorId : Id) (plan : TrelloImportPlan) : Tx kurul Unit := do
  let now ← Tx.now
  writePlan workspaceId now plan
  let _ ← ActivityService.record {
    workspaceId
    taskId := none
    userId := actorId
    type := .boardImported
    payload := [field "boardId" plan.board.id, field "name" plan.board.name,
      field "source" (js "trello"), (js "imported", (importedCounts plan).json),
      (js "skippedTotal", .ofNat (plan.skipped.map SkipGroup.count).sum)] }

structure TrelloImportReport where
  boardId : Id
  boardName : JsString
  imported : ImportedCounts
  skipped : List SkipGroup

/-- `parsed` is what `JSON.parse` makes of the bytes; the identifiers of the plan are the ones
`uuidv7` gives in this call. -/
def importBoard (rt : Runtime) (uuidv7 : Nat → Id) (workspaceId actorId : Id)
    (parsed : Option Json) : Call kurul TrelloImportReport := do
  let read ← Call.ofExcept (parseTrelloExport parsed)
  let plan := planTrelloImport rt uuidv7 actorId read
  Call.transaction .transaction (importBody workspaceId actorId plan)
  return {
    boardId := plan.board.id
    boardName := plan.board.name
    imported := importedCounts plan
    skipped := plan.skipped }

/-! ## What is written -/

/-- Inserts of these rows. -/
def puts (rows : List Row) : List kurul.RowWrite := rows.map .put

theorem puts_append (a b : List Row) : puts (a ++ b) = puts a ++ puts b := List.map_append

theorem traces_create {R : Type} [Model R] (r : R) :
    (create r).Traces (puts [Model.row r]) :=
  .exec fun _ _ he => by rw [(eval_create he).2]; rfl

theorem traces_createMany {R : Type} [Model R] (rs : List R) :
    (createMany rs).Traces (puts (rs.map Model.row)) :=
  .exec fun _ _ he => by rw [(eval_createMany he).2]; simp [puts]

theorem traces_throwIf (c : Bool) (e : ApiError) : (throwIf c e).Traces [] := by
  cases c with
  | true => exact Tx.Traces.throw (S := kurul) e []
  | false => exact .ret ()

theorem traces_forEach {T : Type} {f : T → Tx kurul Unit} {g : T → List Row}
    (hf : ∀ item, (f item).Traces (puts (g item))) :
    ∀ items, (forEach f items).Traces (puts (items.flatMap g)) := by
  intro items
  induction items with
  | nil => exact .ret ()
  | cons item rest ih =>
    rw [List.flatMap_cons, puts_append]
    exact (hf item).bind fun _ => ih

theorem flatMap_chunked {T : Type} (rows : List T) (f : T → Row) :
    ((chunked rows importChunkSize).flatMap fun chunk => chunk.map f) = rows.map f := by
  rw [List.flatMap_def, ← List.map_flatten, chunked_flatten rows (by decide)]

theorem traces_createChunks {T R : Type} [Model R] (row : T → R) (rows : List T) :
    (createChunks row rows).Traces (puts (rows.map fun t => Model.row (row t))) := by
  rw [← flatMap_chunked]
  refine traces_forEach (fun chunk => ?_) _
  have h := (traces_createMany (chunk.map row)).bind fun _ => Tx.Traces.ret ()
  rwa [List.map_map, List.append_nil] at h

theorem traces_createLabelChunks (labels : List PlannedLabel) :
    (createLabelChunks labels).Traces (puts (labels.map fun l => .label l.row)) := by
  rw [← flatMap_chunked]
  refine traces_forEach (fun chunk => ?_) _
  have h := (traces_throwIf (chunk.any fun l => l.color = .inherited) (.prisma .validation)).bind
    fun _ => (traces_createMany (chunk.map PlannedLabel.row)).bind fun _ => Tx.Traces.ret ()
  rwa [List.map_map, List.append_nil] at h

/-- The plan's rows are written in their order, kind after kind. -/
theorem writePlan_traces (workspaceId : Id) (now : Instant) (plan : TrelloImportPlan) :
    (writePlan workspaceId now plan).Traces (puts (plan.rows workspaceId now)) := by
  have h := (traces_create (plan.board.row workspaceId now)).bind fun _ =>
    (traces_createChunks PlannedColumn.row plan.columns).bind fun _ =>
    (traces_createLabelChunks plan.labels).bind fun _ =>
    (traces_createChunks (PlannedTask.row now) plan.tasks).bind fun _ =>
    (traces_createChunks (R := TaskLabelRow) id plan.taskLabels).bind fun _ =>
    (traces_createChunks (R := ChecklistRow) id plan.checklists).bind fun _ =>
    (traces_createChunks (R := ChecklistItemRow) id plan.checklistItems).bind fun _ =>
    traces_createChunks (PlannedAttachment.row now) plan.attachments
  simp only [← puts_append, List.cons_append, List.nil_append] at h
  simp only [TrelloImportPlan.rows, List.append_assoc, List.cons_append]
  exact h

end Kurul
