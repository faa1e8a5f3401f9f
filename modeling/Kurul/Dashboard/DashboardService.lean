import Kurul.Audit.Entries
import Kurul.JsMap
import Kurul.Order.Grouping
import Kurul.Order.SortBy

/-!
# Kurul.Dashboard.DashboardService

`DashboardService.summary`: the figures of a workspace, or of one of its boards. A UTC day is its
number, counted from the epoch, where the service has its text `YYYY-MM-DD`.

* `summary_ok` — the figures of a summary, as of the rows it found and the time it read.
-/

namespace Kurul

open Sql

/-! ## The throughput series -/

abbrev UtcDay : Type := Int

def throughputDays : Nat := 14

def msInDay : Int := 86400000

def utcDateKey (date : Instant) : UtcDay := date / msInDay

/-- Midnight, as `date_trunc('day', …)` and `new Date('…T00:00:00.000Z')` give it. -/
def startOfDay (day : UtcDay) : Instant := day * msInDay

structure DashboardThroughputDay where
  date : UtcDay
  created : Nat
  completed : Nat
  deriving DecidableEq

/-- Zeros for the last days, the one `now` is in among them. -/
def emptyThroughputSeries (now : Instant) : List DashboardThroughputDay :=
  (List.range throughputDays).reverse.map fun (i : Nat) =>
    ⟨utcDateKey (startOfDay (utcDateKey now) - i * msInDay), 0, 0⟩

/-- `new Date(…)` of the first day of the series. -/
def throughputSince (series : List DashboardThroughputDay) : Instant :=
  startOfDay ((series.map DashboardThroughputDay.date).headD 0)

def applyThroughputDayCounts (series : List DashboardThroughputDay)
    (createdByDay completedByDay : JsMap UtcDay Nat) : List DashboardThroughputDay :=
  series.map fun day =>
    ⟨day.date, (createdByDay.get day.date).getD 0, (completedByDay.get day.date).getD 0⟩

structure DayCountRow where
  day : Instant
  count : Nat

def toDayCountMap (rows : List DayCountRow) : JsMap UtcDay Nat :=
  .ofEntries (rows.map fun row => (utcDateKey row.day, row.count))

/-- `GROUP BY date_trunc('day', a."createdAt")`. -/
def groupByDay (found : List ActivityRow) : List DayCountRow :=
  (found.map fun a => startOfDay (utcDateKey a.createdAt)).dedup.map fun day =>
    ⟨day, (found.filter fun a => startOfDay (utcDateKey a.createdAt) = day).length⟩

/-! ## The answer -/

structure DashboardCountByPriority where
  priority : Priority
  count : Nat
  deriving DecidableEq

structure DashboardCountByAssignee where
  userId : Option Id
  name : JsString
  count : Nat
  deriving DecidableEq

structure DashboardCountByColumn where
  columnId : Id
  name : JsString
  position : Position
  count : Nat
  deriving DecidableEq

structure DashboardSummaryDto where
  totalTasks : Nat
  overdueCount : Nat
  byPriority : List DashboardCountByPriority
  byAssignee : List DashboardCountByAssignee
  byColumn : Option (List DashboardCountByColumn)
  throughput : List DashboardThroughputDay
  deriving DecidableEq

/-! ### Figures by name -/

namespace DashboardSummaryDto

def countOf (d : DashboardSummaryDto) (p : Priority) : Nat :=
  ((d.byPriority.find? fun row => row.priority = p).map DashboardCountByPriority.count).getD 0

def dates (d : DashboardSummaryDto) : List UtcDay := d.throughput.map DashboardThroughputDay.date

def createdOn (d : DashboardSummaryDto) (day : UtcDay) : Nat :=
  ((d.throughput.find? fun row => row.date = day).map DashboardThroughputDay.created).getD 0

def completedOn (d : DashboardSummaryDto) (day : UtcDay) : Nat :=
  ((d.throughput.find? fun row => row.date = day).map DashboardThroughputDay.completed).getD 0

end DashboardSummaryDto

def allPriorities : List Priority := [.low, .medium, .high, .urgent]

namespace DashboardService

/-! ## The queries -/

/-- `if (query.boardId) await assertBoard(…)`. -/
def assertNarrowed (workspaceId : Id) : Option Id → Tx kurul Unit
  | none => return ()
  | some boardId => do
    let _ ← assertBoard workspaceId boardId

/-- `…(query.boardId ? { boardId: query.boardId } : {})`. -/
def narrows (boardId : Option Id) (rowBoardId : Id) : Bool := boardId.all fun b => rowBoardId = b

def taskWhere (workspaceId : Id) (boardId : Option Id) (db : Db) (t : TaskRow) : Bool :=
  onBoardOf db workspaceId t.boardId && narrows boardId t.boardId

def completedColumns (workspaceId : Id) (boardId : Option Id) (db : Db) (c : ColumnRow) : Bool :=
  onBoardOf db workspaceId c.boardId && narrows boardId c.boardId && c.category = .completed

/-- Late and still open. -/
def overdueWhere (workspaceId : Id) (boardId : Option Id) (now : Instant)
    (completedColumnIds : List Id) (db : Db) (t : TaskRow) : Bool :=
  taskWhere workspaceId boardId db t && t.dueDate.any (fun due => decide (due < now)) &&
    (completedColumnIds.isEmpty || !completedColumnIds.elem t.columnId)

/-- `INNER JOIN "Task" t ON t."id" = a."taskId"` and `t."boardId" = …`, when there is a board. -/
def boardFilter (boardId : Option Id) (db : Db) (a : ActivityRow) : Bool :=
  boardId.all fun b => (a.taskId.bind (byId TaskRow db)).any fun t => t.boardId = b

/-- The rows `countActivitiesByDay` groups. -/
def activitiesSince (workspaceId : Id) (type : ActivityType) (since : Instant)
    (boardId : Option Id) (extraFilter : ActivityRow → Bool) (db : Db) : List ActivityRow :=
  (rows ActivityRow db).filter fun a => a.workspaceId = workspaceId && a.type = type &&
    since ≤ a.createdAt && boardFilter boardId db a && extraFilter a

def countActivitiesByDay (workspaceId : Id) (type : ActivityType) (since : Instant)
    (boardId : Option Id) (extraFilter : ActivityRow → Bool) : Tx kurul (List DayCountRow) :=
  query fun db => groupByDay (activitiesSince workspaceId type since boardId extraFilter db)

/-- The column is completed now, or it was when the task was moved into it. -/
def completes (completedColumnIds : List Id) (a : ActivityRow) : Bool :=
  (a.text "toColumnId").any (fun i => completedColumnIds.elem i) ||
    a.text "toColumnCategory" = some ColumnCategory.completed.text

def countCompletedMovesByDay (workspaceId : Id) (since : Instant) (completedColumnIds : List Id)
    (boardId : Option Id) : Tx kurul (List DayCountRow) :=
  countActivitiesByDay workspaceId .taskMoved since boardId (completes completedColumnIds)

def assigneeTopN : Nat := 8

/-- Assignments counted by user, most first, then by name; `collate` is the sort key of a text. -/
def rankedAssignees (collate : JsString → JsString) (workspaceId : Id) (boardId : Option Id)
    (db : Db) : List DashboardCountByAssignee :=
  let assigned := (rows TaskAssigneeRow db).filter fun (ta : TaskAssigneeRow) =>
    (byId TaskRow db ta.taskId).any (taskWhere workspaceId boardId db)
  sortBy (fun c => toLex (OrderDual.toDual c.count, collate c.name))
    ((assigned.map TaskAssigneeRow.userId).dedup.map fun userId =>
      ⟨some userId, ((byId UserRow db userId).map UserRow.name).getD userId,
        (assigned.filter fun ta => ta.userId = userId).length⟩)

def rankedAssigneeBuckets (collate : JsString → JsString) (workspaceId : Id)
    (boardId : Option Id) : Tx kurul (List DashboardCountByAssignee) := query fun db =>
  let ranked := rankedAssignees collate workspaceId boardId db
  let tail := ((ranked.drop assigneeTopN).map DashboardCountByAssignee.count).sum
  ranked.take assigneeTopN ++ if 0 < tail then [⟨none, js "Other", tail⟩] else []

def unassignedWhere (workspaceId : Id) (boardId : Option Id) (db : Db) (t : TaskRow) : Bool :=
  taskWhere workspaceId boardId db t && !(rows TaskAssigneeRow db).any fun ta => ta.taskId = t.id

/-- `task.groupBy({ by: ['priority'], … })`. -/
def priorityGroups (workspaceId : Id) (boardId : Option Id) : Tx kurul (List (Priority × Nat)) :=
  query fun db =>
    let found := (rows TaskRow db).filter (taskWhere workspaceId boardId db)
    (found.map TaskRow.priority).dedup.map fun p => (p, (found.filter fun t => t.priority = p).length)

/-- `columns` and `columnCounts`, which are asked for only with a board. -/
def countsByColumn (workspaceId : Id) :
    Option Id → Tx kurul (Option (List DashboardCountByColumn))
  | none => return none
  | some boardId => do
    let columns ← query fun db => sortBy (fun (c : ColumnRow) => toLex (c.position, c.id))
      ((rows ColumnRow db).filter fun c => c.boardId = boardId && onBoardOf db workspaceId c.boardId)
    let columnCounts ← groupCount TaskRow.columnId (taskWhere workspaceId (some boardId))
    let countByColumn := JsMap.ofEntries columnCounts
    return some (columns.map fun c =>
      ⟨c.id, c.name, c.position, (countByColumn.get c.id).getD 0⟩)

/-! ## The summary -/

def byPriority (groups : List (Priority × Nat)) : List DashboardCountByPriority :=
  allPriorities.map fun p => ⟨p, ((groups.find? fun row => row.1 = p).map Prod.snd).getD 0⟩

def byAssignee (unassignedCount : Nat) (buckets : List DashboardCountByAssignee) :
    List DashboardCountByAssignee :=
  if 0 < unassignedCount then ⟨none, js "Unassigned", unassignedCount⟩ :: buckets else buckets

def summary (collate : JsString → JsString) (workspaceId : Id) (boardId : Option Id) :
    Call kurul DashboardSummaryDto := do
  Call.auto (assertNarrowed workspaceId boardId)
  let now ← Call.auto Tx.now
  let series := emptyThroughputSeries now
  let since := throughputSince series
  let completed ← Call.auto (findMany (completedColumns workspaceId boardId))
  let completedColumnIds := completed.map ColumnRow.id
  let totalTasks ← Call.auto (count (taskWhere workspaceId boardId))
  let overdueCount ← Call.auto (count (overdueWhere workspaceId boardId now completedColumnIds))
  let groups ← Call.auto (priorityGroups workspaceId boardId)
  let buckets ← Call.auto (rankedAssigneeBuckets collate workspaceId boardId)
  let unassignedCount ← Call.auto (count (unassignedWhere workspaceId boardId))
  let byColumn ← Call.auto (countsByColumn workspaceId boardId)
  let createdDays ← Call.auto
    (countActivitiesByDay workspaceId .taskCreated since boardId fun _ => true)
  let completedDays ← Call.auto
    (countCompletedMovesByDay workspaceId since completedColumnIds boardId)
  return ⟨totalTasks, overdueCount, byPriority groups, byAssignee unassignedCount buckets,
    byColumn, applyThroughputDayCounts series (toDayCountMap createdDays)
      (toDayCountMap completedDays)⟩

/-! ## What it answers -/

/-- The ids of the completed columns, of the workspace or of the board. -/
def completedColumnIds (workspaceId : Id) (boardId : Option Id) (db : Db) : List Id :=
  ((rows ColumnRow db).filter (completedColumns workspaceId boardId db)).map ColumnRow.id

/-- The entries the created figures count. -/
def creations (workspaceId : Id) (boardId : Option Id) (now : Instant) (db : Db) :
    List ActivityRow :=
  activitiesSince workspaceId .taskCreated (throughputSince (emptyThroughputSeries now)) boardId
    (fun _ => true) db

/-- The entries the completed figures count. -/
def completions (workspaceId : Id) (boardId : Option Id) (now : Instant) (db : Db) :
    List ActivityRow :=
  activitiesSince workspaceId .taskMoved (throughputSince (emptyThroughputSeries now)) boardId
    (completes (completedColumnIds workspaceId boardId db)) db

variable {env : Env kurul} {w w' : World kurul} {collate : JsString → JsString}
  {workspaceId : Id} {boardId : Option Id} {now : Instant} {db : Db} {d : DashboardSummaryDto}

theorem run_assertNarrowed_ok {u : Unit}
    (h : (assertNarrowed workspaceId boardId).run env w = (.ok u, w')) :
    w'.db = w.db ∧ w'.ticks = w.ticks := by
  cases boardId with
  | none =>
    simp only [assertNarrowed, Tx.pure_eq, Tx.run_ret, Prod.mk.injEq] at h
    rw [← h.2]
    exact ⟨rfl, rfl⟩
  | some b =>
    obtain ⟨_, w₁, h₁, h⟩ := Tx.run_bind_ok h
    obtain ⟨x, w₂, h₂, h₁⟩ := Tx.run_bind_ok h₁
    obtain ⟨_, rfl⟩ := run_query_ok h₂
    obtain ⟨_, rfl⟩ := run_orThrow_ok h₁
    simp only [Tx.pure_eq, Tx.run_ret, Prod.mk.injEq] at h
    rw [← h.2]
    exact ⟨rfl, rfl⟩

/-- The first of the ranking, and the rest of it as one. -/
def assigneeBuckets (ranked : List DashboardCountByAssignee) : List DashboardCountByAssignee :=
  let tail := ((ranked.drop assigneeTopN).map DashboardCountByAssignee.count).sum
  ranked.take assigneeTopN ++ if 0 < tail then [⟨none, js "Other", tail⟩] else []

/-- The tasks a summary is about. -/
def tasksOf (workspaceId : Id) (boardId : Option Id) (db : Db) : List TaskRow :=
  (rows TaskRow db).filter (taskWhere workspaceId boardId db)

/-- A board's columns in order, each with its tasks counted. -/
def columnBars (workspaceId : Id) (db : Db) (boardId : Id) : List DashboardCountByColumn :=
  (sortBy (fun (c : ColumnRow) => toLex (c.position, c.id))
    ((rows ColumnRow db).filter fun c => c.boardId = boardId && onBoardOf db workspaceId c.boardId)).map
    fun c => ⟨c.id, c.name, c.position,
      ((tasksOf workspaceId (some boardId) db).filter fun t => t.columnId = c.id).length⟩

theorem run_countsByColumn_ok {r : Option (List DashboardCountByColumn)}
    (h : (countsByColumn workspaceId boardId).run env w = (.ok r, w')) :
    r = boardId.map (columnBars workspaceId w.db) ∧ w'.db = w.db := by
  cases boardId with
  | none =>
    simp only [countsByColumn, Tx.pure_eq, Tx.run_ret, Prod.mk.injEq, Except.ok.injEq] at h
    exact ⟨h.1.symm, by rw [← h.2]⟩
  | some b =>
    obtain ⟨columns, w₁, h₁, h⟩ := Tx.run_bind_ok h
    obtain ⟨counts, w₂, h₂, h⟩ := Tx.run_bind_ok h
    obtain ⟨rfl, rfl⟩ := run_query_ok h₁
    obtain ⟨rfl, rfl⟩ := run_query_ok h₂
    simp only [Tx.pure_eq, Tx.run_ret, Prod.mk.injEq, Except.ok.injEq] at h
    obtain ⟨rfl, rfl⟩ := h
    refine ⟨congrArg some (List.map_congr_left fun c _ => ?_), rfl⟩
    rw [getD_ofEntries_counts]
    rfl

/-- What is found for one day. -/
def onDay (day : UtcDay) (found : List ActivityRow) : List ActivityRow :=
  found.filter fun a => utcDateKey a.createdAt = day

theorem utcDateKey_startOfDay (day : UtcDay) : utcDateKey (startOfDay day) = day :=
  Int.mul_ediv_cancel day (by decide)

/-- The rows of a day, counted by the database and looked up by the service. -/
theorem getD_toDayCountMap (found : List ActivityRow) (day : UtcDay) :
    ((toDayCountMap (groupByDay found)).get day).getD 0 = (onDay day found).length := by
  rw [toDayCountMap, groupByDay, List.map_map, JsMap.get_ofEntries, ← List.map_reverse]
  have hcount := getD_find?_groups (l := found) (f := fun a => startOfDay (utcDateKey a.createdAt))
    (g := utcDateKey) (fun x => by rw [List.mem_reverse, List.mem_dedup])
    (fun a _ b _ h => by rw [utcDateKey_startOfDay, utcDateKey_startOfDay] at h; rw [h]) day
  refine hcount.trans (congrArg List.length (List.filter_congr fun a _ => ?_))
  rw [utcDateKey_startOfDay]

theorem countOf_byPriority (found : List TaskRow) (hd : d.byPriority = byPriority
    ((found.map TaskRow.priority).dedup.map fun p => (p, (found.filter fun t => t.priority = p).length)))
    (p : Priority) : d.countOf p = (found.filter fun t => t.priority = p).length := by
  have hcount := getD_find?_groups (l := found) (f := TaskRow.priority) (g := id)
    (fun x => List.mem_dedup) (fun _ _ _ _ h => h) p
  rw [DashboardSummaryDto.countOf, hd]
  refine Eq.trans ?_ hcount
  cases p <;> rfl

section Throughput

variable {series : List DashboardThroughputDay} {m m' : JsMap UtcDay Nat} {day : UtcDay}

/-- Looking a day up in a series that has it. -/
theorem find?_applyThroughputDayCounts
    (h : day ∈ series.map DashboardThroughputDay.date) :
    (applyThroughputDayCounts series m m').find? (fun row => row.date = day) =
      some ⟨day, (m.get day).getD 0, (m'.get day).getD 0⟩ := by
  rw [applyThroughputDayCounts, List.find?_map]
  cases hfind : series.find? ((fun row : DashboardThroughputDay => decide (row.date = day)) ∘ fun row =>
      ⟨row.date, (m.get row.date).getD 0, (m'.get row.date).getD 0⟩) with
  | some row =>
    obtain rfl : row.date = day := by simpa using List.find?_some hfind
    rfl
  | none =>
    obtain ⟨row, hrow, rfl⟩ := List.mem_map.mp h
    have := List.find?_eq_none.mp hfind row hrow
    simp at this

variable (hd : d.throughput = applyThroughputDayCounts series m m')

include hd

theorem dates_of_throughput : d.dates = series.map DashboardThroughputDay.date := by
  rw [DashboardSummaryDto.dates, hd, applyThroughputDayCounts, List.map_map]
  rfl

theorem createdOn_of_throughput (h : day ∈ d.dates) : d.createdOn day = (m.get day).getD 0 := by
  rw [dates_of_throughput hd] at h
  rw [DashboardSummaryDto.createdOn, hd, find?_applyThroughputDayCounts h]
  rfl

theorem completedOn_of_throughput (h : day ∈ d.dates) :
    d.completedOn day = (m'.get day).getD 0 := by
  rw [dates_of_throughput hd] at h
  rw [DashboardSummaryDto.completedOn, hd, find?_applyThroughputDayCounts h]
  rfl

end Throughput

/-- The figures of a summary, as of the rows it found and the time it read. -/
structure Answers (workspaceId : Id) (boardId : Option Id) (now : Instant) (db : Db)
    (d : DashboardSummaryDto) : Prop where
  totalTasks : d.totalTasks = ((rows TaskRow db).filter (taskWhere workspaceId boardId db)).length
  overdueCount : d.overdueCount = ((rows TaskRow db).filter (overdueWhere workspaceId boardId now
    (completedColumnIds workspaceId boardId db) db)).length
  countOf : ∀ p, d.countOf p =
    (((rows TaskRow db).filter (taskWhere workspaceId boardId db)).filter fun t => t.priority = p).length
  dates : d.dates = (emptyThroughputSeries now).map DashboardThroughputDay.date
  createdOn : ∀ day ∈ d.dates,
    d.createdOn day = (onDay day (creations workspaceId boardId now db)).length
  completedOn : ∀ day ∈ d.dates,
    d.completedOn day = (onDay day (completions workspaceId boardId now db)).length

/-- A summary that was answered, as one expression of the rows and the time. -/
theorem run_summary_ok (h : (summary collate workspaceId boardId).run env w = (.ok d, w')) :
    d = {
      totalTasks := (tasksOf workspaceId boardId w.db).length
      overdueCount := ((rows TaskRow w.db).filter (overdueWhere workspaceId boardId (env.time w.ticks)
        (completedColumnIds workspaceId boardId w.db) w.db)).length
      byPriority := byPriority (((tasksOf workspaceId boardId w.db).map TaskRow.priority).dedup.map
        fun p => (p, ((tasksOf workspaceId boardId w.db).filter fun t => t.priority = p).length))
      byAssignee := byAssignee
        ((rows TaskRow w.db).filter (unassignedWhere workspaceId boardId w.db)).length
        (assigneeBuckets (rankedAssignees collate workspaceId boardId w.db))
      byColumn := boardId.map (columnBars workspaceId w.db)
      throughput := applyThroughputDayCounts (emptyThroughputSeries (env.time w.ticks))
        (toDayCountMap (groupByDay (creations workspaceId boardId (env.time w.ticks) w.db)))
        (toDayCountMap (groupByDay (completions workspaceId boardId (env.time w.ticks) w.db))) } := by
  obtain ⟨_, w₁, h₁, h⟩ := Call.run_bind_ok h
  obtain ⟨now, w₂, h₂, h⟩ := Call.run_bind_ok h
  obtain ⟨completed, w₃, h₃, h⟩ := Call.run_bind_ok h
  obtain ⟨totalTasks, w₄, h₄, h⟩ := Call.run_bind_ok h
  obtain ⟨overdueCount, w₅, h₅, h⟩ := Call.run_bind_ok h
  obtain ⟨groups, w₆, h₆, h⟩ := Call.run_bind_ok h
  obtain ⟨buckets, w₇, h₇, h⟩ := Call.run_bind_ok h
  obtain ⟨unassignedCount, w₈, h₈, h⟩ := Call.run_bind_ok h
  obtain ⟨columns, w₉, h₉, h⟩ := Call.run_bind_ok h
  obtain ⟨createdDays, w₁₀, h₁₀, h⟩ := Call.run_bind_ok h
  obtain ⟨completedDays, w₁₁, h₁₁, h⟩ := Call.run_bind_ok h
  rw [Call.run_auto] at h₁ h₂ h₃ h₄ h₅ h₆ h₇ h₈ h₉ h₁₀ h₁₁
  obtain ⟨hdb₁, hticks⟩ := run_assertNarrowed_ok h₁
  simp only [Tx.now, Tx.run, Prod.mk.injEq, Except.ok.injEq] at h₂
  obtain ⟨rfl, rfl⟩ := h₂
  obtain ⟨rfl, rfl⟩ := run_query_ok h₃
  obtain ⟨rfl, rfl⟩ := run_query_ok h₄
  obtain ⟨rfl, rfl⟩ := run_query_ok h₅
  obtain ⟨rfl, rfl⟩ := run_query_ok h₆
  obtain ⟨rfl, rfl⟩ := run_query_ok h₇
  obtain ⟨rfl, rfl⟩ := run_query_ok h₈
  obtain ⟨rfl, hdb₉⟩ := run_countsByColumn_ok h₉
  obtain ⟨rfl, rfl⟩ := run_query_ok h₁₀
  obtain ⟨rfl, rfl⟩ := run_query_ok h₁₁
  simp only [Call.pure_eq, Call.run_ret, Prod.mk.injEq, Except.ok.injEq] at h
  obtain ⟨rfl, _⟩ := h
  rw [← hdb₁, ← hticks, hdb₉]
  rfl

theorem summary_ok (h : (summary collate workspaceId boardId).run env w = (.ok d, w')) :
    Answers workspaceId boardId (env.time w.ticks) w.db d := by
  obtain rfl := run_summary_ok h
  refine ⟨rfl, rfl, countOf_byPriority _ rfl, dates_of_throughput rfl, fun day hday => ?_,
    fun day hday => ?_⟩
  · rw [createdOn_of_throughput rfl hday, ← getD_toDayCountMap]
  · rw [completedOn_of_throughput rfl hday, ← getD_toDayCountMap]

end DashboardService
end Kurul
