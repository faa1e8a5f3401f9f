import Mathlib.Data.Prod.Lex
import Kurul.JsMap
import Kurul.Notification.NotificationService
import Kurul.Order.SortBy

/-!
# Kurul.Notification.DueSoon

`DueSoonWorker.runScan`: every assignee of a task that is due within a day is reminded of it. The tasks
are read in pages; a page's reminders are inserted in one statement, and everybody is signalled at the
end.
-/

namespace Kurul

open Sql

namespace DueSoonWorker

/-- A day, in milliseconds. -/
def dueWindowMs : Int := 24 * 60 * 60 * 1000

def scanBatchSize : Nat := 500

structure ScanTaskRow where
  id : Id
  title : JsString
  dueDate : Option Instant
  workspaceId : Id
  /-- The users assigned. -/
  assignees : List Id

/-- Where the next page begins. -/
structure Cursor where
  dueDate : Instant
  id : Id

/-- The users assigned to a task. -/
def assigneesOf (db : Db) (taskId : Id) : List Id :=
  ((rows TaskAssigneeRow db).filter fun a => a.taskId = taskId).map TaskAssigneeRow.userId

/-- Past the cursor, in the order of the pages. -/
def pastCursor (cursor : Option Cursor) (dueDate : Instant) (id : Id) : Bool :=
  cursor.all fun c => decide (c.dueDate < dueDate) || (dueDate = c.dueDate && decide (c.id < id))

/-- `where` of a page. -/
def dueWhere (now till : Instant) (cursor : Option Cursor) (db : Db) (t : TaskRow) : Bool :=
  t.dueDate.any fun due => decide (now < due) && decide (due ≤ till) && pastCursor cursor due t.id &&
    !(assigneesOf db t.id).isEmpty

/-- `select` of a page; every task is on a board. -/
def scanTask (db : Db) (t : TaskRow) : Option ScanTaskRow :=
  (byId BoardRow db t.boardId).map fun b =>
    ⟨t.id, t.title, t.dueDate, b.workspaceId, assigneesOf db t.id⟩

def scanPage (now till : Instant) (cursor : Option Cursor) (db : Db) : List ScanTaskRow :=
  ((sortBy (fun t : TaskRow => toLex (t.dueDate.getD 0, t.id))
    ((rows TaskRow db).filter (dueWhere now till cursor db))).take scanBatchSize).filterMap (scanTask db)

/-- A member of the set of those already told. -/
def notifiedKey (userId taskId : Id) : JsString := userId ++ js ":" ++ taskId

/-- A reminder still stands: it is unread, or younger than the window. -/
def stands (since : Instant) (n : NotificationRow) : Bool :=
  n.type = .dueSoon && (n.readAt.isNone || decide (since ≤ n.createdAt))

/-- The pairs of a batch that were told before. -/
def alreadyNotified (pairs : List (Id × Id)) (since : Instant) (db : Db) : List JsString :=
  ((rows NotificationRow db).filter fun n => stands since n &&
    pairs.any fun pair => n.taskId = some pair.1 && n.userId = pair.2).map fun n =>
      notifiedKey n.userId (n.taskId.getD [])

structure Reminder where
  workspaceId : Id
  userId : Id
  taskId : Id
  payload : List (JsString × Json)

/-- The reminders of a task, for those of its assignees who are not to be skipped. -/
def remindersOf (skip : List JsString) (task : ScanTaskRow) : List Reminder :=
  match task.dueDate with
  | none => []
  | some due =>
    (task.assignees.filter fun userId => notifiedKey userId task.id ∉ skip).map fun userId =>
      ⟨task.workspaceId, userId, task.id, [field "title" task.title,
        field "dueDate" (toISOString due), field "type" NotificationType.dueSoon.text]⟩

def Reminder.row (now : Instant) (id : Id) (r : Reminder) : NotificationRow where
  id
  workspaceId := r.workspaceId
  userId := r.userId
  type := .dueSoon
  taskId := some r.taskId
  activityId := none
  payload := .obj r.payload
  readAt := none
  createdAt := now

structure Batch where
  created : Nat
  /-- Workspaces and users to signal. -/
  recipients : List (Id × Id)

/-- The (task, user) pairs of a batch. -/
def batchPairs (tasks : List ScanTaskRow) : List (Id × Id) :=
  tasks.flatMap fun task =>
    if task.dueDate.isNone then [] else task.assignees.map fun userId => (task.id, userId)

/-- The insert of a batch; a row that a concurrent scan has inserted is skipped. -/
def insertReminders (reminders : List Reminder) : Call kurul Batch :=
  if reminders.isEmpty then return ⟨0, []⟩
  else do
    let count ← Call.auto do
      let now ← Tx.now
      let data ← withIds (Reminder.row now) reminders
      createManySkipping data
    if count = 0 then return ⟨0, []⟩
    else return ⟨count, reminders.map fun r => (r.workspaceId, r.userId)⟩

def notifyBatch (tasks : List ScanTaskRow) (since : Instant) : Call kurul Batch :=
  let pairs := batchPairs tasks
  if pairs.isEmpty then return ⟨0, []⟩
  else do
    let skip ← Call.auto (query (alreadyNotified pairs since))
    insertReminders (tasks.flatMap (remindersOf skip))

/-- `recipientsByWorkspace`. -/
abbrev Recipients : Type := JsMap Id (List Id)

def Recipients.add (m : Recipients) (recipient : Id × Id) : Recipients :=
  let users := (m.get recipient.1).getD []
  m.set recipient.1 (if recipient.2 ∈ users then users else users ++ [recipient.2])

/-- The end of a scan: one signal for each workspace and user. -/
def emitRecipients : List (Id × List Id) → Call kurul Unit
  | [] => return
  | (workspaceId, users) :: rest => do
    NotificationService.emitUnreadChanged workspaceId users
    emitRecipients rest

/-- The pages from a cursor on. A scan may be cut off before its last page. -/
def scanPages (now till since : Instant) : (pages : Nat) → Option Cursor → Nat → Recipients →
    Call kurul (Nat × Recipients)
  | 0, _, _, _ => .throw (.prisma .unavailable)
  | pages + 1, cursor, totalCreated, recipients => do
    let tasks ← Call.auto (query (scanPage now till cursor))
    match tasks.getLast? with
    | none => return (totalCreated, recipients)
    | some last => do
      let batch ← notifyBatch tasks since
      let totalCreated := totalCreated + batch.created
      let recipients := batch.recipients.foldl Recipients.add recipients
      match last.dueDate with
      | none => return (totalCreated, recipients)
      | some due =>
        if tasks.length < scanBatchSize then return (totalCreated, recipients)
        else scanPages now till since pages (some ⟨due, last.id⟩) totalCreated recipients

/-- Scans once; `pages` is how many pages it gets to read. -/
def runScan (pages : Nat) : Call kurul Nat := do
  let now ← Call.auto Tx.now
  let done ← scanPages now (now + dueWindowMs) (now - dueWindowMs) pages none 0 JsMap.empty
  emitRecipients done.2.entries.rows
  return done.1

/-! ## Whom a page is for -/

theorem mem_scanPage {now till : Instant} {cursor : Option Cursor} {db : Db} {task : ScanTaskRow}
    (h : task ∈ scanPage now till cursor db) :
    ∃ t ∈ rows TaskRow db, t.dueDate.isSome = true ∧ task.id = t.id ∧ task.dueDate = t.dueDate ∧
      task.assignees = assigneesOf db t.id ∧
      ∃ b ∈ rows BoardRow db, b.id = t.boardId ∧ b.workspaceId = task.workspaceId := by
  simp only [scanPage, List.mem_filterMap] at h
  obtain ⟨t, ht, htask⟩ := h
  obtain ⟨hmem, hdue⟩ := List.mem_filter.mp (mem_sortBy.mp (List.mem_of_mem_take ht))
  obtain ⟨b, hb, rfl⟩ := Option.map_eq_some_iff.mp htask
  obtain ⟨hbmem, hbid⟩ := byId_eq_some.mp hb
  refine ⟨t, hmem, ?_, rfl, rfl, rfl, b, hbmem, hbid, rfl⟩
  obtain ⟨due, hdue, _⟩ := (Option.any_eq_true _ _).mp hdue
  rw [hdue]
  rfl

theorem mem_remindersOf {skip : List JsString} {task : ScanTaskRow} {r : Reminder}
    (h : r ∈ remindersOf skip task) : r.workspaceId = task.workspaceId ∧ r.taskId = task.id ∧
      r.userId ∈ task.assignees ∧ notifiedKey r.userId task.id ∉ skip := by
  unfold remindersOf at h
  split at h
  · cases h
  · obtain ⟨u, hu, rfl⟩ := List.mem_map.mp h
    obtain ⟨hmem, hskip⟩ := List.mem_filter.mp hu
    exact ⟨rfl, rfl, hmem, of_decide_eq_true hskip⟩

/-- Whoever has an unread reminder of a task of the batch is among those already told. -/
theorem mem_alreadyNotified {tasks : List ScanTaskRow} {since : Instant} {db : Db}
    {n : NotificationRow} {task : ScanTaskRow} (htask : task ∈ tasks)
    (hdue : task.dueDate.isSome = true) (hu : n.userId ∈ task.assignees)
    (hn : n ∈ rows NotificationRow db) (htype : n.type = .dueSoon) (hread : n.readAt = none)
    (hid : n.taskId = some task.id) :
    notifiedKey n.userId task.id ∈ alreadyNotified (batchPairs tasks) since db := by
  have hpair : (task.id, n.userId) ∈ batchPairs tasks := by
    refine List.mem_flatMap.mpr ⟨task, htask, ?_⟩
    rw [if_neg (by rw [← Option.not_isSome, hdue]; decide)]
    exact List.mem_map.mpr ⟨n.userId, hu, rfl⟩
  refine List.mem_map.mpr ⟨n, List.mem_filter.mpr ⟨hn, ?_⟩, by rw [hid]; rfl⟩
  rw [Bool.and_eq_true]
  refine ⟨by simp [stands, htype, hread], List.any_eq_true.mpr ⟨_, hpair, ?_⟩⟩
  simp [hid]

end DueSoonWorker
end Kurul
