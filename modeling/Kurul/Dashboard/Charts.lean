import Kurul.Dashboard.BoardSums
import Kurul.Position.RebalanceSql

/-!
# Kurul.Dashboard.Charts

Whether the charts of one summary add up: each comes from queries of its own, and the columns, the days
and the priorities are filled up with zeros afterwards.

* `Reconciles`        — what the charts of a summary have to do with each other and with the rows.
* `charts_reconcile`  — they do, when every foreign key resolves and the log is not ahead of the clock.
* `summary_answers`   — and unless a statement fails or the board is not there, there is a summary.
-/

namespace Kurul
namespace Dashboard

open Sql DashboardService

/-! ## What is asked of the charts -/

/-- Due before now, and in no completed column. -/
def lateAndOpen (now : Instant) (db : Db) (t : TaskRow) : Bool :=
  t.dueDate.any (fun due => decide (due < now)) &&
    (rows ColumnRow db).all fun c => c.id ≠ t.columnId || c.category ≠ .completed

/-- The assignments of the tasks a summary is about. -/
def assignments (workspaceId : Id) (boardId : Option Id) (db : Db) : List TaskAssigneeRow :=
  (rows TaskAssigneeRow db).filter fun ta =>
    (byId TaskRow db ta.taskId).any (taskWhere workspaceId boardId db)

/-- Those of the tasks that nobody is assigned to. -/
def unassigned (workspaceId : Id) (boardId : Option Id) (db : Db) : List TaskRow :=
  (tasksOf workspaceId boardId db).filter fun t => !(rows TaskAssigneeRow db).any fun ta => ta.taskId = t.id

structure Reconciles (workspaceId : Id) (boardId : Option Id) (now : Instant) (db : Db)
    (d : DashboardSummaryDto) : Prop where
  totalTasks : d.totalTasks = (tasksOf workspaceId boardId db).length
  byPriority : (d.byPriority.map DashboardCountByPriority.count).sum = d.totalTasks
  /-- A board's columns, in their order, share out its tasks. -/
  byColumn : ∀ b, boardId = some b → ∃ bars, d.byColumn = some bars ∧
    bars.map (fun bar => (bar.columnId, bar.name, bar.position)) =
      ((ordered ColumnRow db b).map fun c => (c.id, c.name, c.position)) ∧
    (bars.map DashboardCountByColumn.count).sum = d.totalTasks
  overdueCount : d.overdueCount = ((tasksOf workspaceId boardId db).filter (lateAndOpen now db)).length
  overdue_le : d.overdueCount ≤ d.totalTasks
  /-- Unassigned, the people by how much they have, and the others as one. -/
  byAssignee : ∃ people tail, d.byAssignee =
      (if unassigned workspaceId boardId db = [] then []
        else [⟨none, js "Unassigned", (unassigned workspaceId boardId db).length⟩]) ++ people ++
      (if tail = 0 then [] else [⟨none, js "Other", tail⟩]) ∧
    people.length ≤ 8 ∧ (∀ row ∈ people, row.userId ≠ none) ∧
    people.Pairwise fun a b => b.count ≤ a.count
  assigned : (d.byAssignee.map DashboardCountByAssignee.count).sum =
    (assignments workspaceId boardId db).length + (unassigned workspaceId boardId db).length
  /-- Fourteen days, one after the other, and the last of them is today. -/
  days : d.dates = (List.range 14).map fun (i : Nat) => utcDateKey now - 13 + i
  created : (d.throughput.map DashboardThroughputDay.created).sum = ((rows ActivityRow db).filter fun a =>
    a.workspaceId = workspaceId && a.type = .taskCreated && boardFilter boardId db a &&
      startOfDay (utcDateKey now - 13) ≤ a.createdAt).length

section Figures

variable {workspaceId : Id} {boardId : Option Id} {now : Instant} {db : Db} {d : DashboardSummaryDto}

/-! ## Priorities and columns -/

theorem sum_byPriority (found : List TaskRow) : ((byPriority ((found.map TaskRow.priority).dedup.map fun p =>
    (p, (found.filter fun t => t.priority = p).length))).map DashboardCountByPriority.count).sum =
      found.length := by
  have hcounts : (byPriority ((found.map TaskRow.priority).dedup.map fun p =>
      (p, (found.filter fun t => t.priority = p).length))).map DashboardCountByPriority.count =
        allPriorities.map fun p => (found.filter fun t => t.priority = p).length := by
    rw [byPriority, List.map_map]
    exact List.map_congr_left fun p _ => getD_find?_groups (l := found) (f := TaskRow.priority) (g := id)
      (fun x => List.mem_dedup) (fun _ _ _ _ h => h) p
  rw [hcounts, sum_length_filter (by decide)
    (fun t _ p _ q _ hp hq => (of_decide_eq_true hp).symm.trans (of_decide_eq_true hq))]
  refine congrArg List.length (List.filter_eq_self.mpr fun t _ => ?_)
  cases t.priority <;> decide

/-- Every foreign key of the stored rows resolves. -/
def Referential (db : Db) : Prop := ∀ v ∈ db.rows, v.resolves db = true

theorem Referential.column (h : Referential db) {t : TaskRow} (ht : t ∈ rows TaskRow db) :
    ∃ c ∈ rows ColumnRow db, c.id = t.columnId ∧ c.boardId = t.boardId := by
  have hres := h (.task t) (mem_rows.mp ht)
  simp only [Row.resolves, Bool.and_eq_true, Row.composite] at hres
  have hcolumn := hres.2
  split at hcolumn
  · rename_i c hget
    have hkey : Row.key (.column c) = ⟨.column, t.columnId⟩ := Store.key_of_get? hget
    exact ⟨c, mem_rows.mpr (Store.mem_of_get? hget), (Key.mk.inj hkey).2, of_decide_eq_true hcolumn⟩
  · cases hcolumn

theorem nodup_columnBars (workspaceId b : Id) (db : Db) :
    ((columnBars workspaceId db b).map DashboardCountByColumn.columnId).Nodup := by
  rw [columnBars, List.map_map]
  exact ((sortBy_perm _ _).map ColumnRow.id).nodup_iff.mpr
    ((nodup_ids ColumnRow db).sublist (List.filter_sublist.map ColumnRow.id))

theorem mem_columnBars {b i : Id} :
    i ∈ (columnBars workspaceId db b).map DashboardCountByColumn.columnId ↔
      ∃ c ∈ rows ColumnRow db, c.id = i ∧ c.boardId = b ∧ onBoardOf db workspaceId c.boardId = true := by
  simp only [columnBars, List.map_map, List.mem_map, mem_sortBy, List.mem_filter, Bool.and_eq_true,
    decide_eq_true_eq, Function.comp_apply]
  constructor
  · rintro ⟨c, ⟨hc, hb, hon⟩, hid⟩
    exact ⟨c, hc, hid, hb, hon⟩
  · rintro ⟨c, hc, hid, hb, hon⟩
    exact ⟨c, ⟨hc, hb, hon⟩, hid⟩

/-- Every task of the board is in one of its columns. -/
theorem sum_columnBars (h : Referential db) (b : Id) :
    ((columnBars workspaceId db b).map DashboardCountByColumn.count).sum =
      (tasksOf workspaceId (some b) db).length := by
  have hcounts : (columnBars workspaceId db b).map DashboardCountByColumn.count =
      ((columnBars workspaceId db b).map DashboardCountByColumn.columnId).map fun i =>
        ((tasksOf workspaceId (some b) db).filter fun t => t.columnId = i).length := by
    simp only [columnBars, List.map_map]
    rfl
  rw [hcounts, sum_length_filter (nodup_columnBars workspaceId b db)
    (fun t _ i _ j _ hi hj => (of_decide_eq_true hi).symm.trans (of_decide_eq_true hj))]
  refine congrArg List.length (List.filter_eq_self.mpr fun t ht => ?_)
  obtain ⟨hmem, hwhere⟩ := List.mem_filter.mp ht
  obtain ⟨_, hboard⟩ := taskWhere_some.mp hwhere
  obtain ⟨c, hc, hid, hcboard⟩ := h.column hmem
  have hon : onBoardOf db workspaceId c.boardId = true := by
    rw [hcboard]
    exact onBoard_of_taskWhere hwhere
  exact List.any_eq_true.mpr ⟨t.columnId, mem_columnBars.mpr ⟨c, hc, hid, hcboard.trans hboard, hon⟩,
    decide_eq_true rfl⟩

theorem columnBars_ordered {b : Id} (hon : onBoardOf db workspaceId b = true) :
    (columnBars workspaceId db b).map (fun bar => (bar.columnId, bar.name, bar.position)) =
      (ordered ColumnRow db b).map fun c => (c.id, c.name, c.position) := by
  have hfilter : (rows ColumnRow db).filter (fun c => c.boardId = b && onBoardOf db workspaceId c.boardId) =
      (rows ColumnRow db).filter fun c => Placed.list c = b := by
    refine List.filter_congr fun c _ => ?_
    have hlist : Placed.list c = c.boardId := rfl
    rw [hlist]
    by_cases hb : c.boardId = b
    · simp [hb, hon]
    · simp [hb]
  rw [columnBars, hfilter, List.map_map]
  rfl

/-! ## Late tasks -/

theorem overdue_eq (h : Referential db) : (rows TaskRow db).filter (overdueWhere workspaceId boardId now
    (completedColumnIds workspaceId boardId db) db) =
      (tasksOf workspaceId boardId db).filter (lateAndOpen now db) := by
  rw [tasksOf, List.filter_filter]
  refine List.filter_congr fun t ht => ?_
  rw [Bool.eq_iff_iff, overdueWhere_iff, Bool.and_eq_true, lateAndOpen, Bool.and_eq_true]
  obtain ⟨c, hc, hid, hboard⟩ := h.column ht
  -- the task's column is on its board, so a narrowed search finds it too
  have hopen : taskWhere workspaceId boardId db t = true →
      (t.columnId ∉ completedColumnIds workspaceId boardId db ↔
        ((rows ColumnRow db).all fun c => c.id ≠ t.columnId || c.category ≠ .completed) = true) := by
    intro hwhere
    have hwhere' := hwhere
    simp only [taskWhere, Bool.and_eq_true] at hwhere'
    rw [mem_completedColumnIds, List.all_eq_true]
    constructor
    · intro hnone c' hc'
      by_contra hcontra
      simp only [Bool.or_eq_true, decide_eq_true_eq, not_or, not_not] at hcontra
      obtain rfl : c' = c := eq_of_id hc' hc (hcontra.1.trans hid.symm)
      exact hnone ⟨c', hc', hid, by rw [hboard]; exact hwhere'.1, by rw [hboard]; exact hwhere'.2,
        hcontra.2⟩
    · rintro hall ⟨c', hc', hid', _, _, hcat⟩
      have := hall c' hc'
      simp [hid', hcat] at this
  constructor
  · rintro ⟨hwhere, hdue, hout⟩
    exact ⟨⟨hdue, (hopen hwhere).mp hout⟩, hwhere⟩
  · rintro ⟨⟨hdue, hout⟩, hwhere⟩
    exact ⟨hwhere, hdue, (hopen hwhere).mpr hout⟩

/-! ## People -/

variable {collate : JsString → JsString}

theorem sum_rankedAssignees : ((rankedAssignees collate workspaceId boardId db).map
    DashboardCountByAssignee.count).sum = (assignments workspaceId boardId db).length := by
  have hperm : ((rankedAssignees collate workspaceId boardId db).map DashboardCountByAssignee.count).sum =
      (((assignments workspaceId boardId db).map TaskAssigneeRow.userId).dedup.map fun userId =>
        ((assignments workspaceId boardId db).filter fun ta => ta.userId = userId).length).sum := by
    rw [rankedAssignees, ((sortBy_perm _ _).map DashboardCountByAssignee.count).sum_eq, List.map_map]
    rfl
  rw [hperm, sum_length_filter (List.nodup_dedup _)
    (fun ta _ i _ j _ hi hj => (of_decide_eq_true hi).symm.trans (of_decide_eq_true hj))]
  refine congrArg List.length (List.filter_eq_self.mpr fun ta hta => ?_)
  exact List.any_eq_true.mpr ⟨ta.userId, List.mem_dedup.mpr (List.mem_map_of_mem hta), decide_eq_true rfl⟩

theorem rankedAssignees_le : (rankedAssignees collate workspaceId boardId db).Pairwise
    fun a b => b.count ≤ a.count := by
  refine (sortBy_le _ _).imp fun {a b} h => ?_
  rcases Prod.Lex.toLex_le_toLex.mp h with hlt | ⟨heq, _⟩
  · exact le_of_lt hlt
  · exact le_of_eq (OrderDual.toDual_inj.mp heq).symm

theorem userId_rankedAssignees {row : DashboardCountByAssignee}
    (h : row ∈ rankedAssignees collate workspaceId boardId db) : row.userId ≠ none := by
  obtain ⟨i, _, rfl⟩ := List.mem_map.mp (mem_sortBy.mp h)
  exact Option.some_ne_none i

theorem sum_assigneeBuckets (ranked : List DashboardCountByAssignee) :
    ((assigneeBuckets ranked).map DashboardCountByAssignee.count).sum =
      (ranked.map DashboardCountByAssignee.count).sum := by
  have hsplit : (ranked.map DashboardCountByAssignee.count).sum =
      ((ranked.take assigneeTopN).map DashboardCountByAssignee.count).sum +
        ((ranked.drop assigneeTopN).map DashboardCountByAssignee.count).sum := by
    rw [← List.sum_append, ← List.map_append, List.take_append_drop]
  rw [hsplit, assigneeBuckets, List.map_append, List.sum_append]
  congr 1
  split
  · simp
  · simp only [List.map_nil, List.sum_nil]
    omega

/-! ## Days -/

theorem dates_emptyThroughputSeries (now : Instant) :
    (emptyThroughputSeries now).map DashboardThroughputDay.date =
      (List.range 14).map fun (i : Nat) => utcDateKey now - 13 + i := by
  have hday : ∀ i : Nat, utcDateKey (startOfDay (utcDateKey now) - i * msInDay) = utcDateKey now - i := by
    intro i
    rw [← utcDateKey_startOfDay (utcDateKey now - i), startOfDay, startOfDay, Int.sub_mul]
  simp only [emptyThroughputSeries, List.map_map, Function.comp_def, hday, throughputDays]
  refine List.ext_getElem (by simp) fun i hi _ => ?_
  simp only [List.getElem_map, List.getElem_reverse, List.getElem_range, List.length_range]
  have hlt : i < 14 := by simpa using hi
  unfold UtcDay at *
  omega

theorem throughputSince_eq (now : Instant) :
    throughputSince (emptyThroughputSeries now) = startOfDay (utcDateKey now - 13) := by
  rw [throughputSince, dates_emptyThroughputSeries]
  simp [List.range_succ_eq_map]

/-- Entries of the days of the series are each counted on their day. -/
theorem sum_created (hlog : ∀ a ∈ rows ActivityRow db, a.createdAt ≤ now) {m : JsMap UtcDay Nat} :
    ((applyThroughputDayCounts (emptyThroughputSeries now)
      (toDayCountMap (groupByDay (creations workspaceId boardId now db))) m).map
        DashboardThroughputDay.created).sum = (creations workspaceId boardId now db).length := by
  have hcounts : (applyThroughputDayCounts (emptyThroughputSeries now)
      (toDayCountMap (groupByDay (creations workspaceId boardId now db))) m).map
        DashboardThroughputDay.created =
      ((emptyThroughputSeries now).map DashboardThroughputDay.date).map fun day =>
        (onDay day (creations workspaceId boardId now db)).length := by
    rw [applyThroughputDayCounts, List.map_map, List.map_map]
    exact List.map_congr_left fun day _ => getD_toDayCountMap _ _
  rw [hcounts, dates_emptyThroughputSeries]
  simp only [onDay]
  rw [sum_length_filter (List.Nodup.map (fun i j hij => by simpa using hij) List.nodup_range)
    (fun a _ x _ y _ hx hy => (of_decide_eq_true hx).symm.trans (of_decide_eq_true hy))]
  refine congrArg List.length (List.filter_eq_self.mpr fun a ha => ?_)
  obtain ⟨hmem, hp⟩ := List.mem_filter.mp ha
  simp only [Bool.and_eq_true, decide_eq_true_eq] at hp
  have hsince : startOfDay (utcDateKey now - 13) ≤ a.createdAt := by
    rw [← throughputSince_eq]
    exact hp.1.1.2
  have hfirst : utcDateKey now - 13 ≤ utcDateKey a.createdAt := by
    rw [← utcDateKey_startOfDay (utcDateKey now - 13)]
    exact Int.ediv_le_ediv (by decide) hsince
  have hlast : utcDateKey a.createdAt ≤ utcDateKey now := Int.ediv_le_ediv (by decide) (hlog a hmem)
  refine List.any_eq_true.mpr ⟨utcDateKey a.createdAt, List.mem_map.mpr
    ⟨(utcDateKey a.createdAt - (utcDateKey now - 13)).toNat, List.mem_range.mpr ?_, ?_⟩, decide_eq_true rfl⟩
  · unfold UtcDay at *
    omega
  · unfold UtcDay at *
    omega

/-! ## The summary -/

theorem unassigned_eq : (rows TaskRow db).filter (unassignedWhere workspaceId boardId db) =
    unassigned workspaceId boardId db := by
  rw [unassigned, tasksOf, List.filter_filter]
  exact List.filter_congr fun t _ => Bool.and_comm _ _

theorem byAssignee_split (ranked : List DashboardCountByAssignee) (alone : List TaskRow) :
    byAssignee alone.length (assigneeBuckets ranked) =
      (if alone = [] then [] else [⟨none, js "Unassigned", alone.length⟩]) ++ ranked.take 8 ++
        (if ((ranked.drop 8).map DashboardCountByAssignee.count).sum = 0 then []
          else [⟨none, js "Other", ((ranked.drop 8).map DashboardCountByAssignee.count).sum⟩]) := by
  have htail : ∀ n : Nat, (if 0 < n then [(⟨none, js "Other", n⟩ : DashboardCountByAssignee)] else []) =
      if n = 0 then [] else [⟨none, js "Other", n⟩] := by
    intro n
    cases n <;> simp
  cases alone with
  | nil => simp [byAssignee, assigneeBuckets, assigneeTopN, htail]
  | cons t rest => simp [byAssignee, assigneeBuckets, assigneeTopN, htail]

theorem sum_byAssignee (ranked : List DashboardCountByAssignee) (n : Nat) :
    ((byAssignee n (assigneeBuckets ranked)).map DashboardCountByAssignee.count).sum =
      (ranked.map DashboardCountByAssignee.count).sum + n := by
  rw [byAssignee]
  split
  · rw [List.map_cons, List.sum_cons, sum_assigneeBuckets, Nat.add_comm]
  · rw [sum_assigneeBuckets]
    omega

variable {env : Env kurul} {w w' : World kurul}

theorem onBoard_of_summary {b : Id} (h : (summary collate workspaceId (some b)).run env w = (.ok d, w')) :
    onBoardOf w.db workspaceId b = true := by
  obtain ⟨_, w₁, h₁, _⟩ := Call.run_bind_ok h
  rw [Call.run_auto] at h₁
  obtain ⟨board, w₂, hassert, _⟩ := Tx.run_bind_ok h₁
  obtain ⟨found, w₃, hfind, hthrow⟩ := Tx.run_bind_ok hassert
  obtain ⟨rfl, _⟩ := run_query_ok hfind
  obtain ⟨hfound, _⟩ := run_orThrow_ok hthrow
  have hscope := List.find?_some hfound
  simp only [boardScope, Bool.and_eq_true, decide_eq_true_eq] at hscope
  rw [onBoardOf, of_boardScope hfound]
  simpa using hscope.2

theorem reconciles_of_summary (hkeys : Referential w.db)
    (hlog : ∀ a ∈ rows ActivityRow w.db, a.createdAt ≤ env.time w.ticks)
    (h : (summary collate workspaceId boardId).run env w = (.ok d, w')) :
    Reconciles workspaceId boardId (env.time w.ticks) w.db d := by
  have hon : ∀ b, boardId = some b → onBoardOf w.db workspaceId b = true := by
    rintro b rfl
    exact onBoard_of_summary h
  obtain rfl := run_summary_ok h
  constructor
  · rfl
  · exact sum_byPriority _
  · rintro b rfl
    exact ⟨_, rfl, columnBars_ordered (hon b rfl), sum_columnBars hkeys b⟩
  · exact congrArg List.length (overdue_eq hkeys)
  · exact (congrArg List.length (overdue_eq hkeys)).le.trans (List.length_filter_le _ _)
  · refine ⟨(rankedAssignees collate workspaceId boardId w.db).take 8,
      (((rankedAssignees collate workspaceId boardId w.db).drop 8).map
        DashboardCountByAssignee.count).sum, ?_, List.length_take_le _ _,
      fun row hrow => userId_rankedAssignees (List.mem_of_mem_take hrow),
      rankedAssignees_le.sublist (List.take_sublist _ _)⟩
    simp only [unassigned_eq]
    exact byAssignee_split _ _
  · simp only [unassigned_eq]
    rw [sum_byAssignee, sum_rankedAssignees]
  · exact (dates_of_throughput rfl).trans (dates_emptyThroughputSeries _)
  · refine (sum_created hlog).trans (congrArg List.length (List.filter_congr fun a _ => ?_))
    rw [throughputSince_eq]
    cases boardFilter boardId w.db a <;> simp

/-! ## That there is one -/

/-- Whatever rows the call finds, it returns and leaves them. -/
def Returns {α : Type} (env : Env kurul) (call : Call kurul α) : Prop :=
  ∀ w : World kurul, ∃ a w', call.run env w = (.ok a, w') ∧ w'.db = w.db

theorem Returns.bind {α β : Type} {call : Call kurul α} {f : α → Call kurul β} (h : Returns env call)
    (hf : ∀ a, Returns env (f a)) : Returns env (call >>= f) := by
  intro w
  obtain ⟨a, w₁, hrun, hdb⟩ := h w
  obtain ⟨b, w₂, hrun₂, hdb₂⟩ := hf a w₁
  exact ⟨b, w₂, by rw [Call.run_bind, hrun]; exact hrun₂, hdb₂.trans hdb⟩

theorem returns_query {α : Type} (hcalm : ∀ n, env.fails n = none) (f : Db → α) :
    Returns env (Call.auto (query f)) := by
  intro w
  refine ⟨f w.db, { w with stmts := w.stmts + 1 }, ?_, rfl⟩
  rw [Call.run_auto]
  simp [query, Tx.exec, Tx.run, Stmt.run, hcalm]

/-- Unless a statement fails or there is no such board in the workspace, the summary is answered. -/
theorem summary_answers (hcalm : ∀ n, env.fails n = none)
    (hboard : ∀ b, boardId = some b → ∃ r ∈ rows BoardRow w.db, r.id = b ∧ r.workspaceId = workspaceId) :
    ∃ d w', (summary collate workspaceId boardId).run env w = (.ok d, w') := by
  have hassert : ∃ u w₁, (Call.auto (assertNarrowed workspaceId boardId)).run env w = (.ok u, w₁) := by
    cases boardId with
    | none => exact ⟨(), w, rfl⟩
    | some b =>
      obtain ⟨r, hr, hid, hworkspace⟩ := hboard b rfl
      have hfound : ((rows BoardRow w.db).find? (boardScope workspaceId b w.db)).isSome = true :=
        List.find?_isSome.mpr ⟨r, hr, by simp [boardScope, hid, hworkspace]⟩
      obtain ⟨found, hfound⟩ := Option.isSome_iff_exists.mp hfound
      refine ⟨(), { w with stmts := w.stmts + 1 }, ?_⟩
      rw [Call.run_auto]
      simp [assertNarrowed, assertBoard, findFirst, query, Tx.exec, Tx.run, Stmt.run, hcalm,
        hfound, orThrow]
  have hcolumns : Returns env (Call.auto (countsByColumn workspaceId boardId)) := by
    cases boardId with
    | none => exact fun w => ⟨none, w, rfl, rfl⟩
    | some b =>
      simp only [countsByColumn, Call.auto_bind]
      exact (returns_query hcalm _).bind fun _ => (returns_query hcalm _).bind fun _ w => ⟨_, w, rfl, rfl⟩
  obtain ⟨u, w₁, hrun⟩ := hassert
  rw [summary, Call.run_bind, hrun]
  dsimp only
  -- from here on every step is a query
  refine (fun h => by obtain ⟨d, w', hd, _⟩ := h w₁; exact ⟨d, w', hd⟩ : Returns env _ → _) ?_
  have hnow : Returns env (Call.auto Tx.now) := fun w => ⟨_, _, rfl, rfl⟩
  refine hnow.bind fun now => ?_
  refine (returns_query hcalm _).bind fun completed => (returns_query hcalm _).bind fun totalTasks => ?_
  refine (returns_query hcalm _).bind fun overdueCount => (returns_query hcalm _).bind fun groups => ?_
  refine (returns_query hcalm _).bind fun buckets => (returns_query hcalm _).bind fun alone => ?_
  refine hcolumns.bind fun columns => (returns_query hcalm _).bind fun createdDays => ?_
  exact (returns_query hcalm _).bind fun completedDays w => ⟨_, w, rfl, rfl⟩

/-- The charts of every summary add up, where foreign keys resolve and no entry of the log is of the
future; and unless a statement fails or the board is not there, there is a summary. -/
theorem charts_reconcile (hkeys : Referential w.db)
    (hlog : ∀ a ∈ rows ActivityRow w.db, a.createdAt ≤ env.time w.ticks) :
    (∀ d w', (summary collate workspaceId boardId).run env w = (.ok d, w') →
      Reconciles workspaceId boardId (env.time w.ticks) w.db d) ∧
    ((∀ n, env.fails n = none) →
      (∀ b, boardId = some b → ∃ r ∈ rows BoardRow w.db, r.id = b ∧ r.workspaceId = workspaceId) →
      ∃ d w', (summary collate workspaceId boardId).run env w = (.ok d, w')) :=
  ⟨fun _ _ h => reconciles_of_summary hkeys hlog h, summary_answers⟩

end Figures

/-- A board with a task that nine people are assigned to, and another one that is late. -/
def crowdedBoard : Db where
  rows := [
    .workspace ⟨js "w", js "W", js "w"⟩,
    .board ⟨js "b", js "w", js "B", none, 0⟩,
    .column ⟨js "d", js "b", js "Done", 2000, none, .completed⟩,
    .column ⟨js "c", js "b", js "To Do", 1000, none, .unstarted⟩,
    .user ⟨js "u", js "u@x", js "U", true, none, none, none⟩,
    .task ⟨js "s", js "b", js "c", js "S", none, .high, 5, none, none, js "u", 0, 0⟩,
    .task ⟨js "t", js "b", js "c", js "T", none, .medium, 6, some (-1), none, js "u", 0, 0⟩,
    .activity ⟨js "x", js "w", some (js "s"), js "u", .taskCreated, .obj [], -msInDay⟩] ++
    (["1", "2", "3", "4", "5", "6", "7", "8", "9"].map fun i =>
      .user ⟨js i, js i ++ js "@x", js "P" ++ js i, true, none, none, none⟩) ++
    ["1", "2", "3", "4", "5", "6", "7", "8", "9"].map fun i => .taskAssignee ⟨js i, js "s", js i⟩
  nodup := by decide +kernel

/-- Nobody, eight people and the ninth among the others. -/
theorem charts_reconcile_crowded : ∃ d w',
    (summary id (js "w") (some (js "b"))).run calm (World.start crowdedBoard) = (.ok d, w') ∧
    d.byAssignee.length = 10 ∧ Reconciles (js "w") (some (js "b")) 0 crowdedBoard d := by
  have hkeys : Referential crowdedBoard := by
    unfold Referential
    decide +kernel
  have hlog : ∀ a ∈ rows ActivityRow crowdedBoard, a.createdAt ≤ calm.time 0 := by decide +kernel
  have hboard : ∀ b, some (js "b") = some b → ∃ r ∈ rows BoardRow crowdedBoard, r.id = b ∧
      r.workspaceId = js "w" := by
    rintro b ⟨⟩
    decide +kernel
  obtain ⟨d, w', hrun⟩ : ∃ d w', (summary id (js "w") (some (js "b"))).run calm
      (World.start crowdedBoard) = (.ok d, w') :=
    (charts_reconcile hkeys hlog).2 (fun _ => rfl) hboard
  have hlength : ((summary id (js "w") (some (js "b"))).run calm (World.start crowdedBoard)).1.map
      (fun d => d.byAssignee.length) = .ok 10 := by decide +kernel
  rw [hrun] at hlength
  exact ⟨d, w', hrun, Except.ok.inj hlength, (charts_reconcile hkeys hlog).1 d w' hrun⟩

end Dashboard
end Kurul
