import Kurul.Task.TaskAssignee
import Kurul.Task.TaskLabel
import Kurul.Task.TaskList
import Kurul.Task.TaskService
import Kurul.Tenancy.Scopes

/-!
# Kurul.Tenancy.Tasks

Requests for tasks stay with the workspace: what `TaskService`, `TaskAssigneeService` and
`TaskLabelService` read, write and publish.
-/

namespace Kurul
namespace Homes

open Sql

variable {H : Homes} {workspaceId : Id} {db : Db}

/-! ## `TaskService` -/

/-- A task on a board of the workspace, in one of its columns. -/
theorem homed_task {t : TaskRow} (hboard : H.home ⟨.board, t.boardId⟩ = H.home ⟨.task, t.id⟩)
    (hcolumn : H.home ⟨.column, t.columnId⟩ = H.home ⟨.task, t.id⟩) : H.Homed (Model.row t) := by
  intro x hx hne
  simp only [Model.row, Row.refs, List.mem_cons, List.not_mem_nil, or_false] at hx
  rcases hx with rfl | rfl | rfl
  · exact hboard
  · exact hcolumn
  · exact absurd rfl hne

theorem stays_findColumnOnBoard (workspaceId boardId columnId : Id) :
    (TaskService.findColumnOnBoard workspaceId boardId columnId).Stays H.tenants workspaceId
      fun c : ColumnRow => H.Of workspaceId c := by
  have hp : H.Scoped workspaceId fun db (c : ColumnRow) =>
      c.id = columnId && c.boardId = boardId && onBoardOf db workspaceId c.boardId :=
    .of_ref (fun c => ⟨.board, c.boardId⟩) (fun _ => List.mem_cons_self)
      (fun _ hdb _ h => home_of_onBoardOf hdb (Bool.and_eq_true_iff.mp h).2)
      fun _ hdb c => by rw [onBoardOf_view hdb]
  exact (stays_findFirst hp).bind fun _ hc => stays_orThrow fun c h => (hc c h).row

theorem stays_createTaskBody {boardId userId : Id} {column : ColumnRow} {attributes : TaskAttributes}
    {afterTaskId : Option Id} (hboard : H.home ⟨.board, boardId⟩ = some workspaceId)
    (hcolumn : H.Of workspaceId column) :
    (TaskService.createBody workspaceId boardId userId column attributes afterTaskId).Stays H.tenants
      workspaceId fun d => H.home ⟨.board, d.boardId⟩ = some workspaceId := by
  refine (stays_lockRow hcolumn.1).bind fun _ _ => ?_
  refine (stays_findSiblings hcolumn.1).bind fun l _ => ?_
  refine (stays_check _).bind fun slot _ => (stays_makeRoom hcolumn.1 l slot).bind fun position _ => ?_
  refine Tx.Stays.fresh.bind fun i hi => Tx.Stays.now.bind fun now _ => ?_
  have hi' : H.home ⟨.task, i⟩ = some workspaceId := hi .task rfl (by decide)
  refine (stays_create (by decide) ⟨hi', homed_task (hboard.trans hi'.symm)
    (hcolumn.1.trans hi'.symm)⟩).bind fun created hcreated => ?_
  subst hcreated
  exact (stays_record hi').bind fun _ _ => hboard

theorem stays_createTask (rt : Runtime) (workspaceId boardId userId : Id) (dto : CreateTaskDto) :
    (TaskService.create rt workspaceId boardId userId dto).Stays H.tenants workspaceId
      fun _ => True := by
  refine (stays_assertBoard workspaceId boardId).auto.bind fun board hboard => ?_
  refine (stays_findColumnOnBoard workspaceId boardId dto.columnId).auto.bind fun column hcolumn => ?_
  refine (stays_check _).auto.bind fun attributes _ => ?_
  refine (stays_createTaskBody hboard.board hcolumn).transaction.bind fun d hd => ?_
  exact (Call.Stays.publish (hears_toBoard hd)).bind fun _ _ => trivial

/-- A task keeps its references when its own fields are written. -/
theorem homed_fields {f : TaskRow → TaskRow} {t : TaskRow} (h : H.Of workspaceId t)
    (hid : (f t).id = t.id) (hboard : (f t).boardId = t.boardId)
    (hcolumn : H.home ⟨.column, (f t).columnId⟩ = some workspaceId) : H.Homed (Model.row (f t)) := by
  have ht : H.home ⟨.task, t.id⟩ = some workspaceId := h.1
  refine homed_task ?_ ?_
  · rw [hboard, hid, h.board_of_task, ht]
  · rw [hid, hcolumn, ht]

theorem stays_updateTaskBody (workspaceId taskId userId : Id) (plan : TaskUpdatePlan) :
    (TaskService.updateBody workspaceId taskId userId plan).Stays H.tenants workspaceId
      fun d => H.home ⟨.board, d.boardId⟩ = some workspaceId := by
  have hp := scoped_taskScope (H := H) workspaceId taskId
  refine (stays_findFirst hp).bind fun _ hfound => (stays_orThrow hfound).bind fun t ht => ?_
  refine Tx.Stays.now.bind fun now _ => ?_
  refine (stays_update (by decide) hp fun t ht => homed_fields ht rfl rfl ht.column_of_task).bind
    fun updated hupdated => ?_
  obtain ⟨t', ht', rfl⟩ := hupdated
  have htask : H.home ⟨.task, taskId⟩ = some workspaceId := ht'.taskId ▸ ht'.home
  have hread : ∀ db, H.tenants.Lawful db →
      taskDetailInclude (H.view workspaceId db) (plan.data.apply now t') =
        taskDetailInclude db (plan.data.apply now t') :=
    fun db hdb => taskDetailInclude_view hdb ht'.home
  refine (stays_query (Q := fun d => d.task.boardId = t'.boardId) fun db hdb =>
    ⟨hread db hdb, rfl⟩).bind fun detail hdetail => ?_
  refine (stays_record htask).bind fun _ _ => (stays_countAttachments htask).bind fun n _ => ?_
  show H.home ⟨.board, detail.task.boardId⟩ = some workspaceId
  rw [hdetail]
  exact ht'.row.board_of_task

theorem stays_updateTask (rt : Runtime) (workspaceId taskId userId : Id) (dto : UpdateTaskDto) :
    (TaskService.update rt workspaceId taskId userId dto).Stays H.tenants workspaceId
      fun _ => True := by
  refine (stays_findTask workspaceId taskId).auto.bind fun existing _ => ?_
  refine (stays_check _).auto.bind fun plan _ => ?_
  split
  · trivial
  · refine (stays_updateTaskBody workspaceId taskId userId plan).transaction.bind fun d hd => ?_
    exact (Call.Stays.publish (hears_toBoard hd)).bind fun _ _ => trivial

theorem stays_removeTask (workspaceId taskId userId : Id) :
    (TaskService.remove workspaceId taskId userId).Stays H.tenants workspaceId fun _ => True := by
  have hp := scoped_taskScope (H := H) workspaceId taskId
  have hbody : (TaskService.removeBody workspaceId taskId userId).Stays H.tenants workspaceId
      (H.Found workspaceId (taskScope workspaceId taskId)) := by
    refine (stays_findFirst hp).bind fun _ hfound => (stays_orThrow hfound).bind fun t ht => ?_
    refine stays_recordOther.bind fun _ _ => (stays_deleteMany hp).bind fun n _ => ?_
    exact stays_throwIf.bind fun _ _ => ht
  refine hbody.transaction.bind fun t ht => ?_
  exact Call.Stays.publish (hears_toBoard ht.row.board_of_task)

theorem stays_getTask (workspaceId taskId : Id) :
    (TaskService.get workspaceId taskId).Stays H.tenants workspaceId fun _ => True :=
  (stays_findTask workspaceId taskId).bind fun _ _ => trivial

/-! ### Move -/

theorem stays_fromColumn {task : TaskRow} (htask : H.Of workspaceId task) (targetColumn : ColumnRow) :
    (TaskService.fromColumn task targetColumn).Stays H.tenants workspaceId fun _ => True := by
  unfold TaskService.fromColumn
  split
  · trivial
  · refine (stays_findFirst (scoped_byId htask.column_of_task fun c hc => ?_)).mono fun _ _ => trivial
    exact of_decide_eq_true hc

theorem stays_writeTaskMove {taskId columnId : Id} {position : Position}
    (hcolumn : H.home ⟨.column, columnId⟩ = some workspaceId) :
    (TaskService.writeMove workspaceId taskId columnId position).Stays H.tenants workspaceId
      fun t => H.Of workspaceId t ∧ t.id = taskId := by
  refine Tx.Stays.now.bind fun now _ => ?_
  have hhomed : ∀ t : TaskRow, H.Of workspaceId t →
      H.Homed (Model.row ({ t with columnId, position, updatedAt := now } : TaskRow)) :=
    fun t ht => homed_fields (f := fun t => { t with columnId, position, updatedAt := now }) ht rfl rfl
      hcolumn
  refine (stays_update (by decide) (scoped_taskScope workspaceId taskId) hhomed).mono fun t' ht' => ?_
  obtain ⟨t, ht, rfl⟩ := ht'
  exact ⟨of_patch ht.row (hhomed t ht.row), ht.taskId⟩

theorem stays_placeTask {taskId columnId : Id} {task : TaskDetailRow} {remaining : List Sibling}
    {slot : InsertionSlot Sibling} {n : Nat} (htask : H.Of workspaceId task.task)
    (hcolumn : H.home ⟨.column, columnId⟩ = some workspaceId) :
    (TaskService.place workspaceId taskId task columnId remaining slot n).Stays H.tenants workspaceId
      fun d => H.home ⟨.board, d.boardId⟩ = some workspaceId := by
  simp only [TaskService.place]
  split
  · refine (stays_writeTaskMove hcolumn).bind fun _ _ => ?_
    refine (stays_batchUpdatePositions (R := TaskRow) hcolumn _).bind fun _ _ => ?_
    exact Tx.Stays.now.bind fun now _ => htask.board_of_task
  · refine (stays_writeTaskMove hcolumn).bind fun updated hupdated => ?_
    refine (stays_query (Q := fun d => d.task = updated) fun db hdb =>
      ⟨taskDetailInclude_view hdb hupdated.1.1, rfl⟩).bind fun d hd => ?_
    show H.home ⟨.board, d.task.boardId⟩ = some workspaceId
    rw [hd]
    exact hupdated.1.board_of_task

theorem stays_moveTaskBody (workspaceId taskId userId : Id) (dto : MoveTaskDto) :
    (TaskService.moveBody workspaceId taskId userId dto).Stays H.tenants workspaceId
      fun d => H.home ⟨.board, d.boardId⟩ = some workspaceId := by
  refine (stays_readDetail workspaceId taskId).bind fun _ ho => (stays_orThrow ho).bind fun task ht => ?_
  refine stays_throwIf.bind fun _ _ => ?_
  refine (stays_findFirst (scoped_columnScope workspaceId dto.columnId)).bind fun _ hc => ?_
  refine (stays_orThrow hc).bind fun column hcolumn => stays_throwIf.bind fun _ _ => ?_
  refine (stays_fromColumn ht.row column).bind fun fromColumn _ => ?_
  refine (stays_lockRow hcolumn.home).bind fun _ _ => ?_
  refine (stays_findSiblings (R := TaskRow) hcolumn.home).bind fun siblings _ => ?_
  refine (stays_check _).bind fun slot _ => ?_
  have htask : H.home ⟨.task, taskId⟩ = some workspaceId := ht.taskId ▸ ht.home
  refine (stays_countAttachments htask).bind fun n _ => ?_
  refine (stays_placeTask ht.row hcolumn.home).bind fun d hd => ?_
  exact (stays_record htask).bind fun _ _ => hd

theorem stays_moveTask (workspaceId taskId userId : Id) (dto : MoveTaskDto) :
    (TaskService.move workspaceId taskId userId dto).Stays H.tenants workspaceId fun _ => True := by
  refine (stays_moveTaskBody workspaceId taskId userId dto).transaction.bind fun d hd => ?_
  exact (Call.Stays.publish (hears_toBoard hd)).bind fun _ _ => trivial

/-! ### List -/

section List

variable (ilike : JsString → JsString → Bool) (rt : Runtime)

theorem assigneeFilter_view (hdb : H.tenants.Lawful db) (ids : List JsString) {t : TaskRow}
    (ht : H.home ⟨.task, t.id⟩ = some workspaceId) :
    TaskService.assigneeFilter ids (H.view workspaceId db) t = TaskService.assigneeFilter ids db t := by
  have hsome : ∀ q : TaskAssigneeRow → Bool,
      ((rows TaskAssigneeRow (H.view workspaceId db)).any fun a => a.taskId = t.id && q a) =
        (rows TaskAssigneeRow db).any fun a => a.taskId = t.id && q a :=
    fun q => any_ref_view (a := .cascade) hdb ht fun a ha => by
      simp [Model.row, Row.refs, of_decide_eq_true (Bool.and_eq_true_iff.mp ha).1]
  have hnone : ∀ db : Db, ((rows TaskAssigneeRow db).all fun a => a.taskId ≠ t.id) =
      !(rows TaskAssigneeRow db).any fun a => a.taskId = t.id && true := by
    intro db
    rw [List.not_any_eq_all_not]
    simp
  simp only [TaskService.assigneeFilter, hnone, hsome]

theorem listFilters_view (hdb : H.tenants.Lawful db) (query : TaskQueryDto) {t : TaskRow}
    (ht : H.home ⟨.task, t.id⟩ = some workspaceId) :
    ∀ c ∈ TaskService.listFilters ilike rt query, c (H.view workspaceId db) t = c db t := by
  intro c hc
  simp only [TaskService.listFilters, List.mem_append, List.mem_map] at hc
  rcases hc with (((((⟨_, _, rfl⟩ | ⟨_, _, rfl⟩) | ⟨ids, _, rfl⟩) | ⟨ids, _, rfl⟩) | hc) | ⟨_, _, rfl⟩) |
    ⟨_, _, rfl⟩
  · rfl
  · rfl
  · exact assigneeFilter_view hdb ids ht
  · exact any_ref_view (a := .cascade) hdb ht fun l hl => by
      simp [Model.row, Row.refs, of_decide_eq_true (Bool.and_eq_true_iff.mp hl).1]
  · split at hc
    · rw [List.mem_singleton.mp hc]
    · cases hc
  · rfl
  · rfl

theorem scoped_buildListWhere {boardId : Id} (hboard : H.home ⟨.board, boardId⟩ = some workspaceId)
    (query : TaskQueryDto) :
    H.Scoped workspaceId (TaskService.buildListWhere ilike rt boardId query) := by
  intro db hdb t hmem
  have hhome : t.boardId = boardId → H.home ⟨.task, t.id⟩ = some workspaceId := fun hb =>
    home_of_ref hdb hmem (k := ⟨.board, t.boardId⟩) (a := .cascade) List.mem_cons_self (hb ▸ hboard)
  refine ⟨fun h => hhome (of_decide_eq_true (Bool.and_eq_true_iff.mp h).1), ?_⟩
  by_cases hb : t.boardId = boardId
  · have hfilters := listFilters_view ilike rt hdb query (hhome hb)
    have hall : ∀ cs ds : List (Db → TaskRow → Bool), (∀ c ∈ cs, ∀ db db', c db t = c db' t) →
        (∀ c ∈ ds, c (H.view workspaceId db) t = c db t) →
        ((cs ++ ds).all fun c => c (H.view workspaceId db) t) = (cs ++ ds).all fun c => c db t := by
      intro cs ds hcs hds
      rw [Bool.eq_iff_iff, List.all_eq_true, List.all_eq_true]
      refine forall₂_congr fun c hc => ?_
      rcases List.mem_append.mp hc with hc | hc
      · rw [hcs c hc]
      · rw [hds c hc]
    rw [TaskService.buildListWhere, TaskService.buildListWhere, hall _ _ _ hfilters]
    intro c hc db db'
    obtain ⟨_, _, rfl⟩ := List.mem_map.mp hc
    rfl
  · simp [TaskService.buildListWhere, hb]

theorem stays_countAttachmentsByTask {taskIds : List Id}
    (h : ∀ i ∈ taskIds, H.home ⟨.task, i⟩ = some workspaceId) :
    (TaskService.countAttachmentsByTask taskIds).Stays H.tenants workspaceId fun _ => True := by
  unfold TaskService.countAttachmentsByTask
  split
  · trivial
  · exact stays_groupCount _ (.of_ref (fun a => ⟨.task, a.taskId⟩) (fun _ => List.mem_cons_self)
      (fun _ _ a ha => h a.taskId (of_decide_eq_true ha)) fun _ _ _ => rfl)

theorem stays_listTasks (workspaceId boardId : Id) (query : TaskQueryDto) :
    (TaskService.list ilike rt workspaceId boardId query).Stays H.tenants workspaceId
      fun _ => True := by
  refine (stays_assertBoard workspaceId boardId).bind fun board hboard => ?_
  refine stays_throwIf.bind fun _ _ => ?_
  have hp := scoped_buildListWhere ilike rt hboard.board query
  refine (stays_query (Q := fun found => ∀ row ∈ found, H.home ⟨.task, row.task.id⟩ = some workspaceId)
    fun db hdb => ?_).bind fun found hfound => ?_
  · have hhome : ∀ t ∈ (sortBy TaskRow.id ((rows TaskRow db).filter (TaskService.buildListWhere ilike rt
        boardId query db))).take (query.limit.getD 50 + 1), H.home ⟨.task, t.id⟩ = some workspaceId := by
      intro t ht
      have hmem := List.mem_filter.mp ((sortBy_perm _ _).mem_iff.mp (List.mem_of_mem_take ht))
      exact (hp db hdb t hmem.1).1 hmem.2
    refine ⟨?_, fun row hrow => ?_⟩
    · rw [hp.filter hdb]
      exact List.map_congr_left fun t ht => taskListInclude_view hdb (hhome t ht)
    · obtain ⟨t, ht, rfl⟩ := List.mem_map.mp hrow
      exact hhome t ht
  · refine (stays_countAttachmentsByTask fun i hi => ?_).bind fun _ _ => trivial
    obtain ⟨row, hrow, rfl⟩ := List.mem_map.mp hi
    exact hfound row hrow

end List

/-! ## `TaskAssigneeService` -/

theorem stays_addAssignee (workspaceId taskId actorId : Id) (dto : TaskAssigneeService.AddAssigneeDto) :
    (TaskAssigneeService.addAssignee workspaceId taskId actorId dto).Stays H.tenants workspaceId
      fun _ => True := by
  have hchecks : (TaskAssigneeService.addAssigneeChecks workspaceId taskId dto).Stays H.tenants
      workspaceId (H.Found workspaceId (taskScope workspaceId taskId)) :=
    (stays_findTaskBasic workspaceId taskId).bind fun task ht =>
      (stays_findFirst (scoped_memberWhere workspaceId dto.userId)).bind fun _ hm =>
        (stays_orThrow hm).bind fun _ _ => ht
  refine hchecks.auto.bind fun task ht => ?_
  have hbody : (TaskAssigneeService.addAssigneeBody workspaceId actorId task dto).Stays H.tenants
      workspaceId fun _ => True := by
    have htask : H.home ⟨.task, task.id⟩ = some workspaceId := ht.home
    refine Tx.Stays.fresh.bind fun i hi => ?_
    have hnew : H.Of workspaceId (⟨i, task.id, dto.userId⟩ : TaskAssigneeRow) := by
      refine of_new hi rfl (by decide) fun x hx hne => ?_
      simp only [Model.row, Row.refs, List.mem_cons, List.not_mem_nil, or_false] at hx
      rcases hx with rfl | rfl
      · exact htask
      · exact absurd rfl hne
    refine (stays_create (by decide) hnew).bind fun _ _ => ?_
    refine (stays_record htask).bind fun activity hactivity => ?_
    exact (stays_createNotification (by rfl) (fun t ht => Option.some.inj ht ▸ htask)
      fun a ha => Option.some.inj ha ▸ hactivity.1).bind fun _ _ => trivial
  refine (stays_conflict hbody.transaction).bind fun notified _ => ?_
  exact (stays_signalIf notified workspaceId dto.userId).bind fun _ _ =>
    stays_emitUpdated workspaceId taskId actorId

theorem scoped_assigneeScope (workspaceId taskId userId : Id) :
    H.Scoped workspaceId (TaskAssigneeService.assigneeScope workspaceId taskId userId) :=
  .of_ref (fun a => ⟨.task, a.taskId⟩) (fun _ => List.mem_cons_self)
    (fun _ hdb _ h => home_of_onTaskOf hdb (Bool.and_eq_true_iff.mp h).2)
    fun _ hdb a => by
      rw [TaskAssigneeService.assigneeScope, TaskAssigneeService.assigneeScope, onTaskOf_view hdb]

theorem stays_removeAssignee (workspaceId taskId actorId assigneeUserId : Id) :
    (TaskAssigneeService.removeAssignee workspaceId taskId actorId assigneeUserId).Stays H.tenants
      workspaceId fun _ => True := by
  refine (stays_findTaskBasic workspaceId taskId).auto.bind fun task ht => ?_
  have hbody : (TaskAssigneeService.removeAssigneeBody workspaceId taskId actorId assigneeUserId task).Stays
      H.tenants workspaceId fun _ => True := by
    refine (stays_deleteMany (scoped_assigneeScope workspaceId taskId assigneeUserId)).bind fun n _ => ?_
    refine stays_throwIf.bind fun _ _ => ?_
    exact (stays_record (ht.taskId ▸ ht.home)).bind fun _ _ => trivial
  exact hbody.transaction.bind fun _ _ => stays_emitUpdated workspaceId taskId actorId

/-! ## `TaskLabelService` -/

theorem stays_addLabel (workspaceId taskId actorId : Id) (dto : TaskLabelService.AddTaskLabelDto) :
    (TaskLabelService.addLabel workspaceId taskId actorId dto).Stays H.tenants workspaceId
      fun _ => True := by
  have hchecks : (TaskLabelService.addLabelChecks workspaceId taskId dto).Stays H.tenants workspaceId
      fun x => H.Of workspaceId x.1 ∧ H.Of workspaceId x.2 := by
    refine (stays_findTaskBasic workspaceId taskId).bind fun task ht => ?_
    have hp : H.Scoped workspaceId fun _ (l : LabelRow) => l.id = dto.labelId && l.boardId = task.boardId :=
      .of_ref (fun l => ⟨.board, l.boardId⟩) (fun _ => List.mem_cons_self)
        (fun _ _ l h => by
          rw [of_decide_eq_true (Bool.and_eq_true_iff.mp h).2]
          exact ht.row.board_of_task)
        fun _ _ _ => rfl
    exact (stays_findFirst hp).bind fun _ hl => (stays_orThrow hl).bind fun l hl => ⟨ht.row, hl.row⟩
  refine hchecks.auto.bind fun found hfound => ?_
  have hcreate : (TaskLabelService.createRow found.1.id found.2.id).Stays H.tenants workspaceId
      fun _ => True := by
    refine Tx.Stays.fresh.bind fun i hi => ?_
    have hnew : H.Of workspaceId (⟨i, found.1.id, found.2.id⟩ : TaskLabelRow) := by
      refine of_new hi rfl (by decide) fun x hx _ => ?_
      simp only [Model.row, Row.refs, List.mem_cons, List.not_mem_nil, or_false] at hx
      rcases hx with rfl | rfl
      · exact hfound.1.1
      · exact hfound.2.1
    exact (stays_create (by decide) hnew).mono fun _ _ => trivial
  exact (stays_conflict hcreate.auto).bind fun _ _ => stays_emitUpdated workspaceId taskId actorId

theorem scoped_taskLabelScope (workspaceId taskId labelId : Id) :
    H.Scoped workspaceId (TaskLabelService.taskLabelScope workspaceId taskId labelId) :=
  .of_ref (fun l => ⟨.task, l.taskId⟩) (fun _ => List.mem_cons_self)
    (fun _ hdb _ h => home_of_onTaskOf hdb (Bool.and_eq_true_iff.mp h).2)
    fun _ hdb l => by
      rw [TaskLabelService.taskLabelScope, TaskLabelService.taskLabelScope, onTaskOf_view hdb]

theorem stays_removeLabel (workspaceId taskId actorId labelId : Id) :
    (TaskLabelService.removeLabel workspaceId taskId actorId labelId).Stays H.tenants workspaceId
      fun _ => True :=
  (stays_findTaskBasic workspaceId taskId).auto.bind fun _ _ =>
    (stays_deleteMany (scoped_taskLabelScope workspaceId taskId labelId)).auto.bind fun _ _ =>
      stays_throwIf.auto.bind fun _ _ => stays_emitUpdated workspaceId taskId actorId

end Homes
end Kurul
