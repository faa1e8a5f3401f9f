import Kurul.Dashboard.DashboardService
import Kurul.Dashboard.History

/-!
# Kurul.Dashboard.BoardSums

A workspace's figures against the sums of its boards' figures, in every state a history leads to.

`board_sums`: the workspace's figures are the sums, entries of deleted boards left aside, if and
only if no entry the workspace counts has lost a task of a board that is still there.
-/

namespace Kurul
namespace Dashboard

open Sql DashboardService

/-- The boards of the workspace that have not been deleted. -/
def boardIds (workspaceId : Id) (db : Db) : List Id :=
  ((rows BoardRow db).filter fun b => b.workspaceId = workspaceId).map BoardRow.id

/-- The entries of deleted boards among these. -/
def History.ofDeletedBoards (s : History) (workspaceId : Id) (found : List ActivityRow) :
    List ActivityRow :=
  found.filter fun a => !(s.boardOf a.id).any fun b => (boardIds workspaceId s.world.db).elem b

/-- The workspace's figures `d` are the sums of its boards' figures `ds`, entries of deleted boards
left aside. -/
structure IsSum (s : History) (workspaceId : Id) (now : Instant) (d : DashboardSummaryDto)
    (ds : Id → DashboardSummaryDto) : Prop where
  totalTasks : d.totalTasks =
    ((boardIds workspaceId s.world.db).map fun b => (ds b).totalTasks).sum
  overdueCount : d.overdueCount =
    ((boardIds workspaceId s.world.db).map fun b => (ds b).overdueCount).sum
  countOf : ∀ p, d.countOf p =
    ((boardIds workspaceId s.world.db).map fun b => (ds b).countOf p).sum
  createdOn : ∀ day ∈ d.dates, d.createdOn day =
    ((boardIds workspaceId s.world.db).map fun b => (ds b).createdOn day).sum +
      (s.ofDeletedBoards workspaceId (onDay day (creations workspaceId none now s.world.db))).length
  completedOn : ∀ day ∈ d.dates, d.completedOn day =
    ((boardIds workspaceId s.world.db).map fun b => (ds b).completedOn day).sum +
      (s.ofDeletedBoards workspaceId (onDay day (completions workspaceId none now s.world.db))).length

/-- Of the entries the workspace's series counts, those of boards that are still there have their
tasks: no task created, or moved into a completed column, within its days has been deleted from a
board that has not. -/
def KeepsTasks (s : History) (workspaceId : Id) (now : Instant) : Prop :=
  ∀ a ∈ creations workspaceId none now s.world.db ++ completions workspaceId none now s.world.db,
    utcDateKey a.createdAt ∈ (emptyThroughputSeries now).map DashboardThroughputDay.date →
    (∃ b ∈ boardIds workspaceId s.world.db, s.boardOf a.id = some b) → a.taskId ≠ none

section Sums

variable {db : Db} {s : History} {workspaceId : Id} {now : Instant}

theorem nodup_boardIds (workspaceId : Id) (db : Db) : (boardIds workspaceId db).Nodup :=
  (nodup_ids BoardRow db).sublist (List.filter_sublist.map BoardRow.id)

theorem mem_boardIds {b : Id} : b ∈ boardIds workspaceId db ↔ onBoardOf db workspaceId b = true := by
  simp only [boardIds, List.mem_map, List.mem_filter, decide_eq_true_eq, onBoardOf,
    Option.any_eq_true]
  constructor
  · rintro ⟨r, ⟨hr, hw⟩, rfl⟩
    exact ⟨r, byId_eq_some.mpr ⟨hr, rfl⟩, hw⟩
  · rintro ⟨r, hr, hw⟩
    obtain ⟨hmem, hid⟩ := byId_eq_some.mp hr
    exact ⟨r, ⟨hmem, hw⟩, hid⟩

/-- Tasks counted board by board. -/
theorem sum_tasks {p : Option Id → TaskRow → Bool}
    (hp : ∀ t ∈ rows TaskRow db, ∀ b, p (some b) t = true ↔ p none t = true ∧ t.boardId = b)
    (hnone : ∀ t, p none t = true → onBoardOf db workspaceId t.boardId = true) :
    ((rows TaskRow db).filter (p none)).length =
      ((boardIds workspaceId db).map fun b => ((rows TaskRow db).filter (p (some b))).length).sum := by
  rw [sum_length_filter (p := fun b => p (some b)) (nodup_boardIds workspaceId db)]
  · refine congrArg List.length (List.filter_congr fun t ht => Bool.eq_iff_iff.mpr ?_)
    rw [List.any_eq_true]
    constructor
    · intro h
      exact ⟨t.boardId, mem_boardIds.mpr (hnone t h), (hp t ht _).mpr ⟨h, rfl⟩⟩
    · rintro ⟨b, _, h⟩
      exact ((hp t ht b).mp h).1
  · intro t ht b _ b' _ hb hb'
    exact ((hp t ht b).mp hb).2.symm.trans ((hp t ht b').mp hb').2

theorem taskWhere_some {t : TaskRow} {b : Id} : taskWhere workspaceId (some b) db t = true ↔
    taskWhere workspaceId none db t = true ∧ t.boardId = b := by
  simp [taskWhere, narrows]

theorem onBoard_of_taskWhere {t : TaskRow} {boardId : Option Id}
    (h : taskWhere workspaceId boardId db t = true) : onBoardOf db workspaceId t.boardId = true := by
  simp only [taskWhere, Bool.and_eq_true] at h
  exact h.1

theorem mem_completedColumnIds {boardId : Option Id} {i : Id} :
    i ∈ completedColumnIds workspaceId boardId db ↔ ∃ c ∈ rows ColumnRow db, c.id = i ∧
      onBoardOf db workspaceId c.boardId = true ∧ narrows boardId c.boardId = true ∧
      c.category = .completed := by
  simp only [completedColumnIds, completedColumns, List.mem_map, List.mem_filter, Bool.and_eq_true,
    decide_eq_true_eq]
  constructor
  · rintro ⟨c, ⟨hc, ⟨hon, hnarrow⟩, hcat⟩, hid⟩
    exact ⟨c, hc, hid, hon, hnarrow, hcat⟩
  · rintro ⟨c, hc, hid, hon, hnarrow, hcat⟩
    exact ⟨c, ⟨hc, ⟨hon, hnarrow⟩, hcat⟩, hid⟩

/-- A column of the board is completed in the board's summary if it is in the workspace's. -/
theorem completed_narrowed {b i : Id} (hb : ∀ c ∈ rows ColumnRow db, c.id = i → c.boardId = b) :
    i ∈ completedColumnIds workspaceId (some b) db ↔ i ∈ completedColumnIds workspaceId none db := by
  rw [mem_completedColumnIds, mem_completedColumnIds]
  constructor
  · rintro ⟨c, hc, hid, hon, _, hcat⟩
    exact ⟨c, hc, hid, hon, rfl, hcat⟩
  · rintro ⟨c, hc, hid, hon, _, hcat⟩
    exact ⟨c, hc, hid, hon, by simp [narrows, hb c hc hid], hcat⟩

theorem overdueWhere_iff {ids : List Id} {boardId : Option Id} {t : TaskRow} :
    overdueWhere workspaceId boardId now ids db t = true ↔
      taskWhere workspaceId boardId db t = true ∧
        t.dueDate.any (fun due => decide (due < now)) = true ∧ t.columnId ∉ ids := by
  have hids : (ids.isEmpty || !ids.elem t.columnId) = true ↔ t.columnId ∉ ids := by
    cases ids with
    | nil => simp
    | cons i ids => simp
  rw [overdueWhere, Bool.and_eq_true, Bool.and_eq_true, hids, and_assoc]

/-- Overdue in the board's summary is overdue in the workspace's. -/
theorem overdueWhere_some {f : Id → Option Id} (h : Sound f db) {t : TaskRow}
    (ht : t ∈ rows TaskRow db) {b : Id} :
    overdueWhere workspaceId (some b) now (completedColumnIds workspaceId (some b) db) db t = true ↔
      overdueWhere workspaceId none now (completedColumnIds workspaceId none db) db t = true ∧
        t.boardId = b := by
  rw [overdueWhere_iff, overdueWhere_iff, taskWhere_some]
  constructor
  · rintro ⟨⟨hwhere, rfl⟩, hdue, hopen⟩
    rw [completed_narrowed fun c hc hid => h.columns t ht c hc hid] at hopen
    exact ⟨⟨hwhere, hdue, hopen⟩, rfl⟩
  · rintro ⟨⟨hwhere, hdue, hopen⟩, rfl⟩
    rw [← completed_narrowed fun c hc hid => h.columns t ht c hc hid] at hopen
    exact ⟨⟨hwhere, rfl⟩, hdue, hopen⟩

/-! ### Entries -/

/-- An entry is joined to its task while it names it, and so to the board it was about. -/
theorem boardFilter_some {f : Id → Option Id} (h : Sound f db) {a : ActivityRow}
    (ha : a ∈ rows ActivityRow db) (hcounted : Counted a.type) {b : Id} :
    boardFilter (some b) db a = true ↔ a.taskId ≠ none ∧ f a.id = some b := by
  simp only [boardFilter, Option.all_some]
  cases hi : a.taskId with
  | none => simp
  | some i =>
    obtain ⟨t, ht, rfl, hof⟩ := h.tasks a ha hcounted i hi
    have hget : byId TaskRow db t.id = some t := byId_eq_some.mpr ⟨ht, rfl⟩
    simp [hget, hof]

theorem mem_creations {a : ActivityRow} (ha : a ∈ creations workspaceId none now db) :
    a ∈ rows ActivityRow db ∧ Counted a.type := by
  obtain ⟨hmem, hp⟩ := List.mem_filter.mp ha
  simp only [Bool.and_eq_true, decide_eq_true_eq] at hp
  exact ⟨hmem, .inl hp.1.1.1.2⟩

theorem mem_completions {a : ActivityRow} (ha : a ∈ completions workspaceId none now db) :
    a ∈ rows ActivityRow db ∧ Counted a.type := by
  obtain ⟨hmem, hp⟩ := List.mem_filter.mp ha
  simp only [Bool.and_eq_true, decide_eq_true_eq] at hp
  exact ⟨hmem, .inr hp.1.1.1.2⟩

theorem creations_some (b : Id) : creations workspaceId (some b) now db =
    (creations workspaceId none now db).filter (boardFilter (some b) db) := by
  rw [creations, creations, activitiesSince, activitiesSince, List.filter_filter]
  refine List.filter_congr fun a _ => ?_
  cases hb : boardFilter (some b) db a <;> simp [boardFilter]

/-- A move a board's summary joins is completed there if it is in the workspace's. -/
theorem completions_some {f : Id → Option Id} (h : Sound f db) (b : Id) :
    completions workspaceId (some b) now db =
      (completions workspaceId none now db).filter (boardFilter (some b) db) := by
  rw [completions, completions, activitiesSince, activitiesSince, List.filter_filter]
  refine List.filter_congr fun a ha => ?_
  cases hb : boardFilter (some b) db a with
  | false => simp
  | true =>
    by_cases htype : a.type = .taskMoved
    · have hof := ((boardFilter_some h ha (.inr htype)).mp hb).2
      have hsame : completes (completedColumnIds workspaceId (some b) db) a =
          completes (completedColumnIds workspaceId none db) a := by
        have hcolumn : ∀ i, a.text "toColumnId" = some i →
            (i ∈ completedColumnIds workspaceId (some b) db ↔
              i ∈ completedColumnIds workspaceId none db) := by
          intro i hi
          refine completed_narrowed fun c hc hid => ?_
          exact Option.some.inj ((h.targets a ha htype c hc (hid ▸ hi)).symm.trans hof)
        cases hi : a.text "toColumnId" with
        | none => simp [completes, hi]
        | some i => simp [completes, hi, hcolumn i hi]
      simp [hsame, boardFilter]
    · simp [htype]

/-- Of entries counted on a day, those not joined to any board are of deleted boards, or have lost
their tasks. -/
theorem day_sum_iff (h : Sound s.boardOf s.world.db) {E : Option Id → List ActivityRow}
    (hmem : ∀ a ∈ E none, a ∈ rows ActivityRow s.world.db ∧ Counted a.type)
    (hsome : ∀ b, E (some b) = (E none).filter (boardFilter (some b) s.world.db))
    {day : UtcDay} {total : Nat} {figure : Id → Nat} (htotal : total = (onDay day (E none)).length)
    (hfigure : ∀ b ∈ boardIds workspaceId s.world.db,
      figure b = (onDay day (E (some b))).length) :
    total = ((boardIds workspaceId s.world.db).map figure).sum +
      (s.ofDeletedBoards workspaceId (onDay day (E none))).length ↔
    ∀ a ∈ onDay day (E none),
      (∃ b ∈ boardIds workspaceId s.world.db, s.boardOf a.id = some b) → a.taskId ≠ none := by
  have hday : ∀ a ∈ onDay day (E none), a ∈ rows ActivityRow s.world.db ∧ Counted a.type :=
    fun a ha => hmem a (List.mem_filter.mp ha).1
  have hjoined : ∀ a ∈ onDay day (E none), ∀ b, boardFilter (some b) s.world.db a = true ↔
      a.taskId ≠ none ∧ s.boardOf a.id = some b :=
    fun a ha b => boardFilter_some h (hday a ha).1 (hday a ha).2
  have hboards : (boardIds workspaceId s.world.db).map figure = (boardIds workspaceId s.world.db).map
      fun b => ((onDay day (E none)).filter (boardFilter (some b) s.world.db)).length := by
    refine List.map_congr_left fun b hb => ?_
    rw [hfigure b hb, hsome, onDay, onDay, List.filter_filter, List.filter_filter]
    exact congrArg List.length (List.filter_congr fun a _ => Bool.and_comm _ _)
  have hgone : ∀ a : ActivityRow, (!(s.boardOf a.id).any fun b => (boardIds workspaceId s.world.db).elem b) = true ↔
      ¬ ∃ b ∈ boardIds workspaceId s.world.db, s.boardOf a.id = some b := by
    intro a
    rw [Bool.not_eq_true', ← Bool.not_eq_true, Option.any_eq_true]
    simp only [List.elem_eq_mem, decide_eq_true_eq, and_comm]
  rw [htotal, hboards,
    sum_length_filter (p := fun b => boardFilter (some b) s.world.db) (nodup_boardIds _ _)
    fun a ha b _ b' _ hb hb' => Option.some.inj
      ((((hjoined a ha b).mp hb).2).symm.trans ((hjoined a ha b').mp hb').2),
    eq_comm, History.ofDeletedBoards, length_filter_add_eq_iff]
  · refine forall₂_congr fun a ha => ?_
    rw [hgone, List.any_eq_true]
    constructor
    · rintro (⟨b, _, hb⟩ | hdeleted) hlive
      · exact ((hjoined a ha b).mp hb).1
      · exact absurd hlive hdeleted
    · intro hkeeps
      by_cases hlive : ∃ b ∈ boardIds workspaceId s.world.db, s.boardOf a.id = some b
      · obtain ⟨b, hb, hof⟩ := hlive
        exact .inl ⟨b, hb, (hjoined a ha b).mpr ⟨hkeeps ⟨b, hb, hof⟩, hof⟩⟩
      · exact .inr hlive
  · intro a ha hheld hdeleted
    obtain ⟨b, hb, hbf⟩ := List.any_eq_true.mp hheld
    exact (hgone a).mp hdeleted ⟨b, hb, ((hjoined a ha b).mp hbf).2⟩

end Sums

/-- In every state a history leads to, a workspace's figures are the sums of its boards' figures,
entries of deleted boards left aside, exactly when the entries its series counts have kept their
tasks. -/
theorem board_sums {rt : Runtime} {env : Env kurul} {db : Db} (hdb : Unlogged db) (ops : List Op)
    {collate : JsString → JsString} {workspaceId : Id} {d : DashboardSummaryDto}
    {ds : Id → DashboardSummaryDto}
    (hd : ((summary collate workspaceId none).run env (History.run rt env db ops).world).1 = .ok d)
    (hds : ∀ b ∈ boardIds workspaceId (History.run rt env db ops).world.db,
      ((summary collate workspaceId (some b)).run env (History.run rt env db ops).world).1 =
        .ok (ds b)) :
    IsSum (History.run rt env db ops) workspaceId
        (env.time (History.run rt env db ops).world.ticks) d ds ↔
      KeepsTasks (History.run rt env db ops) workspaceId
        (env.time (History.run rt env db ops).world.ticks) := by
  have hsound : Sound (History.run rt env db ops).boardOf (History.run rt env db ops).world.db :=
    History.run_sound hdb ops
  generalize History.run rt env db ops = s at hd hds hsound ⊢
  have answers : ∀ {boardId d}, ((summary collate workspaceId boardId).run env s.world).1 = .ok d →
      Answers workspaceId boardId (env.time s.world.ticks) s.world.db d :=
    fun h => summary_ok (Prod.ext h rfl)
  have hall := answers hd
  have heach := fun b hb => answers (hds b hb)
  have hdates : ∀ b ∈ boardIds workspaceId s.world.db, ∀ day ∈ d.dates, day ∈ (ds b).dates :=
    fun b hb day hday => by rwa [(heach b hb).dates, ← hall.dates]
  have hcreated := fun day (hday : day ∈ d.dates) => day_sum_iff
    (E := fun b => creations workspaceId b (env.time s.world.ticks) s.world.db) hsound
    (fun _ => mem_creations) creations_some (hall.createdOn day hday)
    fun b hb => (heach b hb).createdOn day (hdates b hb day hday)
  have hcompleted := fun day (hday : day ∈ d.dates) => day_sum_iff
    (E := fun b => completions workspaceId b (env.time s.world.ticks) s.world.db) hsound
    (fun _ => mem_completions) (completions_some hsound) (hall.completedOn day hday)
    fun b hb => (heach b hb).completedOn day (hdates b hb day hday)
  constructor
  · intro hsum a ha hday hlive
    rw [← hall.dates] at hday
    rcases List.mem_append.mp ha with ha | ha
    · exact (hcreated _ hday).mp (hsum.createdOn _ hday) a
        (List.mem_filter.mpr ⟨ha, decide_eq_true rfl⟩) hlive
    · exact (hcompleted _ hday).mp (hsum.completedOn _ hday) a
        (List.mem_filter.mpr ⟨ha, decide_eq_true rfl⟩) hlive
  · intro hkeeps
    refine ⟨?_, ?_, fun p => ?_, fun day hday => (hcreated day hday).mpr ?_,
      fun day hday => (hcompleted day hday).mpr ?_⟩
    · rw [hall.totalTasks, sum_tasks (p := fun b => taskWhere workspaceId b s.world.db)
        (fun _ _ _ => taskWhere_some) fun _ => onBoard_of_taskWhere]
      exact congrArg List.sum (List.map_congr_left fun b hb => (heach b hb).totalTasks.symm)
    · rw [hall.overdueCount, sum_tasks (p := fun b => overdueWhere workspaceId b _
        (completedColumnIds workspaceId b s.world.db) s.world.db)
        (fun t ht b => overdueWhere_some hsound ht)
        fun t ht => onBoard_of_taskWhere (overdueWhere_iff.mp ht).1]
      exact congrArg List.sum (List.map_congr_left fun b hb => (heach b hb).overdueCount.symm)
    · rw [hall.countOf, List.filter_filter, sum_tasks (p := fun b t => decide (t.priority = p) &&
        taskWhere workspaceId b s.world.db t)
        (fun t _ b => by simp only [Bool.and_eq_true, taskWhere_some, and_assoc])
        fun t ht => onBoard_of_taskWhere (Bool.and_eq_true _ _ ▸ ht).2]
      refine congrArg List.sum (List.map_congr_left fun b hb => ?_)
      rw [(heach b hb).countOf, List.filter_filter]
    · intro a ha hlive
      obtain ⟨hmem, hday'⟩ := List.mem_filter.mp ha
      obtain rfl : utcDateKey a.createdAt = day := of_decide_eq_true hday'
      exact hkeeps a (List.mem_append_left _ hmem) (hall.dates ▸ hday) hlive
    · intro a ha hlive
      obtain ⟨hmem, hday'⟩ := List.mem_filter.mp ha
      obtain rfl : utcDateKey a.createdAt = day := of_decide_eq_true hday'
      exact hkeeps a (List.mem_append_right _ hmem) (hall.dates ▸ hday) hlive


/-- A workspace with two boards, one with a column for work to do and one for work done. -/
def twoBoards : Db where
  rows := [
    .user ⟨js "u", js "u@x", js "U", true, none, none, none⟩,
    .workspace ⟨js "w", js "W", js "w"⟩,
    .board ⟨js "a", js "w", js "A", none, 0⟩,
    .board ⟨js "b", js "w", js "B", none, 0⟩,
    .column ⟨js "todo", js "a", js "To Do", 1000, none, .unstarted⟩,
    .column ⟨js "done", js "a", js "Done", 2000, none, .completed⟩,
    .column ⟨js "open", js "b", js "Open", 1000, none, .unstarted⟩]
  nodup := by decide

def newTask (columnId : Id) : CreateTaskDto :=
  ⟨js "T", columnId, .absent, none, .absent, .absent, none⟩

/-- A task on each board, and the first of them moved to be done. -/
def worked : List Op :=
  [.createTask (js "w") (js "a") (js "u") (newTask (js "todo")),
    .createTask (js "w") (js "b") (js "u") (newTask (js "open")),
    .moveTask (js "w") (js "x") (js "u") ⟨js "done", none, none⟩]

theorem twoBoards_unlogged : Unlogged twoBoards := ⟨by decide, by decide⟩

theorem board_sums_worked : ∃ d ds,
    IsSum (History.run .bare calm twoBoards worked) (js "w") 0 d ds := by
  have run (boardId : Option Id) := Call.run_isOk calm (History.run .bare calm twoBoards worked).world
    (p := summary id (js "w") boardId)
  obtain ⟨d, _, hd⟩ := run none (by decide +kernel)
  obtain ⟨d₁, _, hd₁⟩ := run (some (js "a")) (by decide +kernel)
  obtain ⟨d₂, _, hd₂⟩ := run (some (js "b")) (by decide +kernel)
  have hboards : boardIds (js "w") (History.run .bare calm twoBoards worked).world.db =
      [js "a", js "b"] := by decide +kernel
  refine ⟨d, fun b => if b = js "a" then d₁ else d₂,
    (board_sums twoBoards_unlogged worked (congrArg Prod.fst hd) fun b hb => ?_).mpr ?_⟩
  · rw [hboards] at hb
    rcases List.mem_pair.mp hb with rfl | rfl
    · exact congrArg Prod.fst hd₁
    · exact congrArg Prod.fst hd₂
  · have hkeeps : KeepsTasks (History.run .bare calm twoBoards worked) (js "w") 0 := by
      unfold KeepsTasks
      decide +kernel
    exact hkeeps

/-- A task made and deleted the same day. -/
def undone : List Op :=
  [.createTask (js "w") (js "a") (js "u") (newTask (js "todo")),
    .removeTask (js "w") (js "x") (js "u")]

/-- The workspace's summary counts a task created that day, and no board's does. -/
theorem deleted_task_lost : ∃ d ds,
    ((summary id (js "w") none).run calm (History.run .bare calm twoBoards undone).world).1 = .ok d ∧
    (∀ b ∈ boardIds (js "w") (History.run .bare calm twoBoards undone).world.db,
      ((summary id (js "w") (some b)).run calm (History.run .bare calm twoBoards undone).world).1 =
        .ok (ds b)) ∧
    ¬ IsSum (History.run .bare calm twoBoards undone) (js "w") 0 d ds := by
  have run (boardId : Option Id) := Call.run_isOk calm (History.run .bare calm twoBoards undone).world
    (p := summary id (js "w") boardId)
  obtain ⟨d, _, hd⟩ := run none (by decide +kernel)
  obtain ⟨d₁, _, hd₁⟩ := run (some (js "a")) (by decide +kernel)
  obtain ⟨d₂, _, hd₂⟩ := run (some (js "b")) (by decide +kernel)
  have hboards : boardIds (js "w") (History.run .bare calm twoBoards undone).world.db =
      [js "a", js "b"] := by decide +kernel
  refine ⟨d, fun b => if b = js "a" then d₁ else d₂, congrArg Prod.fst hd, fun b hb => ?_,
    fun hsum => ?_⟩
  · rw [hboards] at hb
    rcases List.mem_pair.mp hb with rfl | rfl
    · exact congrArg Prod.fst hd₁
    · exact congrArg Prod.fst hd₂
  · have figure (boardId : Option Id) {e : DashboardSummaryDto} {w : World kurul} {n : Nat}
        (he : (summary id (js "w") boardId).run calm
          (History.run .bare calm twoBoards undone).world = (.ok e, w))
        (hn : ((summary id (js "w") boardId).run calm
          (History.run .bare calm twoBoards undone).world).1.toOption.map
            (fun e => (e.createdOn 0, e.dates.elem 0)) = some (n, true)) :
        e.createdOn 0 = n ∧ 0 ∈ e.dates := by
      rw [he] at hn
      simpa [Except.toOption] using hn
    have hdeleted : (History.run .bare calm twoBoards undone).ofDeletedBoards (js "w")
        (onDay 0 (creations (js "w") none 0 (History.run .bare calm twoBoards undone).world.db)) =
        [] := List.eq_nil_of_length_eq_zero (by decide +kernel)
    have hall := figure none (n := 1) hd (by decide +kernel)
    have h₁ := figure (some (js "a")) (n := 0) hd₁ (by decide +kernel)
    have h₂ := figure (some (js "b")) (n := 0) hd₂ (by decide +kernel)
    have hday := hsum.createdOn 0 hall.2
    rw [hboards, hdeleted, hall.1] at hday
    simp [js, h₁.1, h₂.1] at hday

end Dashboard
end Kurul
