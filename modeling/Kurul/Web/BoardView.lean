import Kurul.Board.ColumnService
import Kurul.Lts
import Kurul.Web.Viewer

/-!
# Kurul.Web.BoardView

The two arrays of a mounted `BoardView`, tasks and columns, and everything that writes them: the events
of the board's room and the fetches they ask for, the pages of a drain, the deep link, the panel's
patches, the dialogs' answers and the optimistic moves.

The rows of the server may change in any way between two steps. A request is answered as they stand when
it is served, and its answer is applied when it arrives.
-/

namespace Kurul
namespace Web

/-- The rows of one board as the server has them; no id is there twice. -/
structure BoardRows where
  cards : List Card
  /-- In the order of `GET …/columns`. -/
  columns : List ColumnDto
  cards_nodup : (cards.map Card.id).Nodup
  columns_nodup : (columns.map ColumnDto.id).Nodup
  deriving DecidableEq

inductive RoomEvent where
  | taskCreated (taskId : Id)
  | taskUpdated (taskId : Id)
  /-- `own` is whether this user is the actor. -/
  | taskMoved (taskId columnId : Id) (position : Position) (own : Bool)
  | taskDeleted (taskId : Id)
  | columnChanged
  deriving DecidableEq

inductive BoardRequest where
  /-- `upsertRemoteTask`. -/
  | getTask (taskId : Id)
  /-- The deep link's `fetchSelectedTask`. -/
  | getSelectedTask (taskId : Id)
  | getPage (cursor : Option Id)
  /-- `refetchColumns`, or the columns of `reloadBoardMeta`. -/
  | getColumns
  | createTask
  | createColumn
  | seedDefaults
  | saveColumn (columnId : Id)
  | deleteColumn (columnId : Id)
  | deleteTask (taskId : Id)
  | moveTask (taskId : Id) (generation : Nat) (previousTasks : List Card)
  | moveColumn (columnId : Id) (without : List ColumnDto) (targetIndex : Nat)
  deriving DecidableEq

inductive BoardAnswer where
  | task (card : Card)
  | page (items : List Card) (nextCursor : Option Id)
  | column (column : ColumnDto)
  | columns (columns : List ColumnDto)
  | done
  /-- `conflict` is `409`. -/
  | refused (conflict : Bool)
  deriving DecidableEq

structure PendingRequest where
  request : BoardRequest
  answer : Option BoardAnswer
  deriving DecidableEq

/-- What the panel hands to `onUpdated`. -/
structure TaskPatch where
  id : Id
  columnId : Option Id
  position : Option Position
  /-- The other fields that `isWholeTask` looks at are there. -/
  rest : Bool
  deriving DecidableEq

structure BoardView where
  server : BoardRows
  /-- Events on their way, in the order of their commits. -/
  events : List RoomEvent
  tasks : List Card
  columns : List ColumnDto
  tasksRef : List Card
  columnsRef : List ColumnDto
  /-- `upsertTimersRef`. -/
  timers : List Id
  /-- `moveGenerationRef`. -/
  moveGeneration : Nat
  requests : List PendingRequest
  deriving DecidableEq

inductive BoardAct where
  /-- Anyone changes the board's rows. -/
  | commit (rows : BoardRows) (event : RoomEvent)
  /-- The next event arrives. -/
  | deliver
  /-- The effects run that keep the refs. -/
  | render
  /-- The timer of a task goes off. -/
  | fire (taskId : Id)
  /-- A dialog or the deep link sends its request. -/
  | send (request : BoardRequest)
  | reload
  /-- `commitTaskMove`: a drag, or a retry of one. -/
  | dragTask (taskId columnId : Id) (position : Position) (nextTasks : List Card)
  | dragColumn (columnId : Id) (right : Bool)
  | applyTaskPatch (patch : TaskPatch)
  /-- The server answers a `GET`. -/
  | read (request : Nat)
  /-- The server answers a request that changes the rows. -/
  | write (request : Nat) (rows : BoardRows) (answer : BoardAnswer)
  | refuse (request : Nat) (conflict : Bool)
  /-- A drain is aborted. -/
  | abort (request : Nat)
  /-- An answer arrives. -/
  | settle (request : Nat)
  deriving DecidableEq

namespace BoardRequest

/-- Sent by a dialog or by the deep link. -/
def fromDialog : BoardRequest → Bool
  | .getSelectedTask _ | .createTask | .createColumn | .seedDefaults | .saveColumn _
  | .deleteColumn _ | .deleteTask _ => true
  | _ => false

/-- The answer to a `GET`. -/
def read (rows : BoardRows) : BoardRequest → Option BoardAnswer
  | .getTask taskId | .getSelectedTask taskId =>
    some (match cardOf rows.cards taskId with
      | some card => .task card
      | none => .refused false)
  | .getPage cursor =>
    some (.page (pageAfter cursor rows.cards).items (pageAfter cursor rows.cards).nextCursor)
  | .getColumns => some (.columns rows.columns)
  | _ => none

/-- Whether the server may answer so, having changed the rows: it answers with the row it wrote. -/
def accepts (rows rows' : BoardRows) : BoardRequest → BoardAnswer → Bool
  | .createTask, .task card =>
    decide (card ∈ rows'.cards) && (cardOf rows.cards card.id).isNone &&
      decide (rows'.columns = rows.columns)
  | .createColumn, .column column =>
    decide (column ∈ rows'.columns) && rows.columns.all fun c => c.id ≠ column.id
  | .seedDefaults, .columns columns => decide (columns = rows'.columns)
  | .saveColumn columnId, .column column | .moveColumn columnId _ _, .column column =>
    decide (column ∈ rows'.columns) && decide (column.id = columnId)
  | .deleteColumn columnId, .done => rows'.columns.all fun c => c.id ≠ columnId
  | .deleteTask taskId, .done =>
    (cardOf rows'.cards taskId).isNone && decide (rows'.columns = rows.columns)
  | .moveTask taskId _ _, .task card =>
    decide (card ∈ rows'.cards) && decide (card.id = taskId) &&
      decide (rows'.columns = rows.columns)
  | _, _ => false

/-- The event of the change. -/
def event : BoardRequest → BoardAnswer → RoomEvent
  | .createTask, .task card => .taskCreated card.id
  | .deleteTask taskId, _ => .taskDeleted taskId
  | .moveTask taskId _ _, .task card => .taskMoved taskId card.columnId card.position true
  | _, _ => .columnChanged

/-- Whether the request can be refused to any effect: a `GET` of the columns is always answered. -/
def refusable : BoardRequest → Bool
  | .getColumns => false
  | _ => true

end BoardRequest

namespace TaskPatch

/-- `isWholeTask`. -/
def whole (patch : TaskPatch) : Option Card :=
  match patch.columnId, patch.position with
  | some columnId, some position => if patch.rest then some ⟨patch.id, columnId, position⟩ else none
  | _, _ => none

/-- `{ ...current[index], ...patch }`. -/
def merge (patch : TaskPatch) (card : Card) : Card :=
  { card with
    columnId := patch.columnId.getD card.columnId
    position := patch.position.getD card.position }

/-- Into the first task with its id. -/
def applyTo (patch : TaskPatch) (tasks : List Card) : List Card :=
  match tasks.findIdx? fun task => task.id = patch.id with
  | none => tasks
  | some index => tasks.modify index patch.merge

end TaskPatch

namespace BoardView

def sendRequest (s : BoardView) (request : BoardRequest) : BoardView :=
  { s with requests := s.requests ++ [⟨request, none⟩] }

/-- `reload`: `reloadBoardMeta` and a drain. -/
def startReload (s : BoardView) : BoardView := (s.sendRequest .getColumns).sendRequest (.getPage none)

def upsertRemoteTask (s : BoardView) (taskId : Id) : BoardView :=
  { s with timers := s.timers.insert taskId }

/-- `current.some(…) ? current : [...current, task]`. -/
def addTask (s : BoardView) (task : Card) : BoardView :=
  if s.tasks.any fun item => item.id = task.id then s else { s with tasks := s.tasks ++ [task] }

def onEvent (s : BoardView) : RoomEvent → BoardView
  | .taskCreated taskId =>
    if s.tasksRef.any fun task => task.id = taskId then s else s.upsertRemoteTask taskId
  | .taskUpdated taskId => s.upsertRemoteTask taskId
  | .taskMoved taskId columnId position own =>
    let moved := { s with tasks := place taskId columnId position s.tasks }
    if !own && !s.tasksRef.any fun task => task.id = taskId then moved.upsertRemoteTask taskId
    else moved
  | .taskDeleted taskId => { s with tasks := remove taskId s.tasks }
  | .columnChanged => s.sendRequest .getColumns

def applyTaskPatch (s : BoardView) (patch : TaskPatch) : BoardView :=
  if s.tasksRef.any fun task => task.id = patch.id then
    { s with tasks := patch.applyTo s.tasks }
  else
    match patch.whole with
    | none => s.startReload
    | some task => s.addTask task

/-- `moveColumn`, up to its request: the column to take out, what is left, and where it goes back. -/
def moveColumn (s : BoardView) (columnId : Id) (right : Bool) : Option BoardRequest :=
  match s.columnsRef.findIdx? fun item => item.id = columnId with
  | none => none
  | some index =>
    let without := s.columnsRef.filter fun item => item.id ≠ columnId
    if right then
      if index + 1 < s.columnsRef.length then some (.moveColumn columnId without (index + 1)) else none
    else if 0 < index then some (.moveColumn columnId without (index - 1)) else none

/-- What an answer makes of the columns. -/
def columnsAfter : BoardRequest → BoardAnswer → List ColumnDto → List ColumnDto
  | .getColumns, .columns next, _ => next
  | .seedDefaults, .columns created, _ => created
  | .createColumn, .column column, columns => columns ++ [column]
  | .saveColumn _, .column column, columns =>
    columns.map fun item => if item.id = column.id then column else item
  | .deleteColumn columnId, .done, columns => columns.filter fun item => item.id ≠ columnId
  | .moveColumn _ without targetIndex, .column updated, _ => without.insertIdx targetIndex updated
  | _, _, columns => columns

/-- What it makes of the tasks. -/
def tasksAfter (moveGeneration : Nat) : BoardRequest → BoardAnswer → List Card → List Card
  | .getTask _, .task remote, tasks => Viewer.upsert tasks remote
  | .getSelectedTask _, .task task, tasks =>
    if tasks.any fun item => item.id = task.id then tasks else tasks ++ [task]
  | .getPage cursor, .page items _, tasks => Viewer.onPage cursor tasks items
  | .createTask, .task task, tasks => tasks ++ [task]
  | .deleteColumn columnId, .done, tasks => tasks.filter fun task => task.columnId ≠ columnId
  | .deleteTask taskId, .done, tasks => remove taskId tasks
  | .moveTask _ _ _, .task updated, tasks =>
    tasks.map fun task => if task.id = updated.id then updated else task
  | .moveTask _ generation previousTasks, .refused _, tasks =>
    if generation = moveGeneration then previousTasks else tasks
  | _, _, tasks => tasks

/-- The requests an answer leads to: the next page of a drain, or a reload. -/
def followUps (moveGeneration : Nat) : BoardRequest → BoardAnswer → List BoardRequest
  | .getPage cursor, .page _ (some next) =>
    -- a cursor that did not advance ends the drain
    if cursor = some next then [] else [.getPage (some next)]
  | .seedDefaults, .refused true => [.getColumns, .getPage none]
  | .moveTask _ generation _, .refused _ =>
    if generation = moveGeneration then [] else [.getColumns, .getPage none]
  | _, _ => []

def next : BoardAct → BoardView → Option BoardView
  | .commit rows event, s =>
    if rows.columns = s.server.columns ∨ event = .columnChanged then
      some { s with server := rows, events := s.events ++ [event] }
    else none
  | .deliver, s =>
    match s.events with
    | [] => none
    | event :: events => some ({ s with events := events }.onEvent event)
  | .render, s => some { s with tasksRef := s.tasks, columnsRef := s.columns }
  | .fire taskId, s =>
    if taskId ∈ s.timers then
      some ({ s with timers := s.timers.filter fun id => id ≠ taskId }.sendRequest (.getTask taskId))
    else none
  | .send request, s => if request.fromDialog then some (s.sendRequest request) else none
  | .reload, s => some s.startReload
  | .dragTask taskId columnId position nextTasks, s =>
    if nextTasks.Perm (place taskId columnId position s.tasksRef) then
      some ({ s with tasks := nextTasks, moveGeneration := s.moveGeneration + 1 }.sendRequest
        (.moveTask taskId (s.moveGeneration + 1) s.tasksRef))
    else none
  | .dragColumn columnId right, s => (s.moveColumn columnId right).map s.sendRequest
  | .applyTaskPatch patch, s => some (s.applyTaskPatch patch)
  | .read k, s =>
    match s.requests[k]? with
    | some ⟨request, none⟩ =>
      (request.read s.server).map fun answer =>
        { s with requests := s.requests.set k ⟨request, some answer⟩ }
    | _ => none
  | .write k rows answer, s =>
    match s.requests[k]? with
    | some ⟨request, none⟩ =>
      if request.accepts s.server rows answer then
        some { s with
          server := rows
          events := s.events ++ [request.event answer]
          requests := s.requests.set k ⟨request, some answer⟩ }
      else none
    | _ => none
  | .refuse k conflict, s =>
    match s.requests[k]? with
    | some ⟨request, none⟩ =>
      if request.refusable then
        some { s with requests := s.requests.set k ⟨request, some (.refused conflict)⟩ }
      else none
    | _ => none
  | .abort k, s =>
    match s.requests[k]? with
    | some ⟨.getPage _, _⟩ => some { s with requests := s.requests.eraseIdx k }
    | _ => none
  | .settle k, s =>
    match s.requests[k]? with
    | some ⟨request, some answer⟩ =>
      some { s with
        tasks := tasksAfter s.moveGeneration request answer s.tasks
        columns := columnsAfter request answer s.columns
        requests := s.requests.eraseIdx k ++
          (followUps s.moveGeneration request answer).map fun request => ⟨request, none⟩ }
    | _ => none

/-- A board that has just been opened: its columns and the first page of its tasks are on their
way. -/
def start (rows : BoardRows) : BoardView :=
  ⟨rows, [], [], [], [], [], [], 0, [⟨.getColumns, none⟩, ⟨.getPage none, none⟩]⟩

theorem nodup_noCards : (([] : List Card).map Card.id).Nodup := List.nodup_nil

/-- A board with one column and nothing in it. -/
def oneColumn : BoardRows :=
  ⟨[], [⟨js "c", js "b", js "C", 1000, none, .unstarted, 0⟩], nodup_noCards, by decide⟩

/-- The same with another column. -/
def twoColumns : BoardRows :=
  ⟨[], oneColumn.columns ++ [⟨js "d", js "b", js "D", 2000, none, .unstarted, 0⟩], nodup_noCards,
    by decide⟩

end BoardView
end Web
end Kurul
