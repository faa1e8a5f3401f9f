import Kurul.Db.Tenants
import Kurul.Notification.NotificationService
import Kurul.Position.RebalanceSql
import Kurul.Task.TaskRead
import Kurul.Workspace.WorkspaceMember

/-!
# Kurul.Tenancy.Scopes

What the services share stays with the workspace: the scopes of their `where` clauses, the includes of
a task, ordered lists, audit entries and notifications.
-/

namespace Kurul
namespace Homes

open Sql

variable {H : Homes} {workspaceId : Id} {db : Db}

/-! ## Scopes -/

theorem scoped_taskScope (workspaceId taskId : Id) : H.Scoped workspaceId (taskScope workspaceId taskId) :=
  .of_ref (fun t => ⟨.board, t.boardId⟩) (fun _ => List.mem_cons_self)
    (fun _ hdb _ h => home_of_onBoardOf hdb (Bool.and_eq_true_iff.mp h).2)
    fun _ hdb t => by rw [taskScope, taskScope, onBoardOf_view hdb]

theorem scoped_columnScope (workspaceId columnId : Id) :
    H.Scoped workspaceId (columnScope workspaceId columnId) :=
  .of_ref (fun c => ⟨.board, c.boardId⟩) (fun _ => List.mem_cons_self)
    (fun _ hdb _ h => home_of_onBoardOf hdb (Bool.and_eq_true_iff.mp h).2)
    fun _ hdb c => by rw [columnScope, columnScope, onBoardOf_view hdb]

theorem scoped_boardScope (workspaceId boardId : Id) :
    H.Scoped workspaceId (boardScope workspaceId boardId) :=
  .of_ref (fun b => ⟨.workspace, b.workspaceId⟩) (fun _ => List.mem_cons_self)
    (fun _ _ b h => by
      rw [H.workspace, of_decide_eq_true (Bool.and_eq_true_iff.mp h).2])
    fun _ _ _ => rfl

/-- Rows asked for by an id of the workspace. -/
theorem scoped_byId {R : Type} [Model R] {p : R → Bool} {i : Id}
    (hi : H.home ⟨Model.table R, i⟩ = some workspaceId) (hp : ∀ r, p r = true → Model.id r = i) :
    H.Scoped workspaceId fun _ => p :=
  fun _ _ r _ => ⟨fun h => by rw [hp r h]; exact hi, rfl⟩

theorem scoped_memberWhere (workspaceId userId : Id) :
    H.Scoped workspaceId fun _ => WorkspaceMemberService.memberWhere workspaceId userId :=
  .of_ref (fun m => ⟨.workspace, m.workspaceId⟩) (fun _ => List.mem_cons_self)
    (fun _ _ m h => by rw [H.workspace, of_decide_eq_true (Bool.and_eq_true_iff.mp h).1])
    fun _ _ _ => rfl

section Found

variable {t : TaskRow} {c : ColumnRow} {b : BoardRow}

theorem Of.board_of_task (h : H.Of workspaceId t) : H.home ⟨.board, t.boardId⟩ = some workspaceId :=
  h.ref (k := ⟨.board, t.boardId⟩) List.mem_cons_self (by simp)

theorem Of.column_of_task (h : H.Of workspaceId t) : H.home ⟨.column, t.columnId⟩ = some workspaceId :=
  h.ref (k := ⟨.column, t.columnId⟩) (List.mem_cons_of_mem _ List.mem_cons_self) (by simp)

theorem Of.board_of_column (h : H.Of workspaceId c) : H.home ⟨.board, c.boardId⟩ = some workspaceId :=
  h.ref (k := ⟨.board, c.boardId⟩) List.mem_cons_self (by simp)

/-- The task that was asked for. -/
theorem Found.taskId {taskId : Id} (h : H.Found workspaceId (taskScope workspaceId taskId) t) :
    t.id = taskId := by
  obtain ⟨db, _, _, hp⟩ := h.asked
  exact of_decide_eq_true (Bool.and_eq_true_iff.mp hp).1

theorem Found.board {boardId : Id} (h : H.Found workspaceId (boardScope workspaceId boardId) b) :
    H.home ⟨.board, boardId⟩ = some workspaceId := by
  obtain ⟨db, _, _, hp⟩ := h.asked
  have hid : b.id = boardId := of_decide_eq_true (Bool.and_eq_true_iff.mp hp).1
  exact hid ▸ h.home

end Found

theorem stays_assertBoard (workspaceId boardId : Id) :
    (assertBoard workspaceId boardId).Stays H.tenants workspaceId
      (H.Found workspaceId (boardScope workspaceId boardId)) :=
  (stays_findFirst (scoped_boardScope workspaceId boardId)).bind fun _ hb => stays_orThrow hb

/-- Checks of the request's own data. -/
theorem stays_check {α : Type} (x : Except ApiError α) :
    (ofExcept x).Stays H.tenants workspaceId fun _ => True :=
  stays_ofExcept fun _ _ => trivial

/-! ## Audit entries -/

section Record

variable {taskId userId : Id} {type : ActivityType} {payload : List (JsString × Json)}

theorem stays_record_of {task : Option Id}
    (htask : ∀ t, task = some t → H.home ⟨.task, t⟩ = some workspaceId) :
    (ActivityService.record ⟨workspaceId, task, userId, type, payload⟩).Stays H.tenants workspaceId
      fun a => H.Of workspaceId a := by
  refine Tx.Stays.fresh.bind fun i hi => Tx.Stays.now.bind fun t _ => ?_
  have hof : H.Of workspaceId (⟨i, workspaceId, task, userId, type, .obj payload, t⟩ : ActivityRow) := by
    refine of_new hi rfl (by decide) fun x hx hne => ?_
    simp only [Model.row, Row.refs, List.mem_cons, List.mem_map, Option.mem_toList] at hx
    rcases hx with rfl | rfl | ⟨t, ht, rfl⟩
    · exact H.workspace workspaceId
    · exact absurd rfl hne
    · exact htask t ht
  exact (stays_create (by decide) hof).mono fun a ha => ha ▸ hof

/-- An entry about a task of the workspace, -/
theorem stays_record (htask : H.home ⟨.task, taskId⟩ = some workspaceId) :
    (ActivityService.record ⟨workspaceId, some taskId, userId, type, payload⟩).Stays H.tenants
      workspaceId fun a => H.Of workspaceId a :=
  stays_record_of fun _ ht => Option.some.inj ht ▸ htask

/-- and one about no task. -/
theorem stays_recordOther :
    (ActivityService.record ⟨workspaceId, none, userId, type, payload⟩).Stays H.tenants workspaceId
      fun a => H.Of workspaceId a :=
  stays_record_of nofun

end Record

/-! ## Includes -/

section Includes

variable (hdb : H.tenants.Lawful db) {taskId : Id} (ht : H.home ⟨.task, taskId⟩ = some workspaceId)

include hdb ht

theorem taskAssignees_view : taskAssignees (H.view workspaceId db) taskId = taskAssignees db taskId := by
  have hrows := filter_ref_view (R := TaskAssigneeRow) (q := fun a => a.taskId = taskId)
    (a := .cascade) hdb ht fun a ha => by simp [Model.row, Row.refs, of_decide_eq_true ha]
  rw [taskAssignees, taskAssignees, hrows]
  simp only [byId_view_user]

theorem taskLabels_view : taskLabels (H.view workspaceId db) taskId = taskLabels db taskId := by
  have hrows := filter_ref_view (R := TaskLabelRow) (q := fun l => l.taskId = taskId)
    (a := .cascade) hdb ht fun l hl => by simp [Model.row, Row.refs, of_decide_eq_true hl]
  rw [taskLabels, taskLabels, hrows]
  refine List.filterMap_congr fun l hl => byId_view ?_
  obtain ⟨hmem, heq⟩ := List.mem_filter.mp ((sortBy_perm _ _).mem_iff.mp hl)
  have hof : H.Of workspaceId l := of_mem hdb hmem (home_of_ref hdb hmem (a := .cascade)
    (by simp [Model.row, Row.refs, of_decide_eq_true heq]) ht)
  exact hof.ref (k := ⟨.label, l.labelId⟩) (a := .cascade) (by simp [Model.row, Row.refs]) (by simp)

theorem checklistsOf_view : (rows ChecklistRow (H.view workspaceId db)).filter (fun c => c.taskId = taskId) =
    (rows ChecklistRow db).filter fun c => c.taskId = taskId :=
  filter_ref_view (a := .cascade) hdb ht fun c hc => by simp [Model.row, Row.refs, of_decide_eq_true hc]

omit ht in
theorem itemsOf_view {checklistId : Id} (hc : H.home ⟨.checklist, checklistId⟩ = some workspaceId) :
    (rows ChecklistItemRow (H.view workspaceId db)).filter (fun i => i.checklistId = checklistId) =
    (rows ChecklistItemRow db).filter fun i => i.checklistId = checklistId :=
  filter_ref_view (a := .cascade) hdb hc fun i hi => by simp [Model.row, Row.refs, of_decide_eq_true hi]

theorem home_checklist {c : ChecklistRow}
    (hc : c ∈ (rows ChecklistRow db).filter fun c => c.taskId = taskId) :
    H.home ⟨.checklist, c.id⟩ = some workspaceId := by
  obtain ⟨hmem, heq⟩ := List.mem_filter.mp hc
  exact home_of_ref hdb hmem (a := .cascade) (by simp [Model.row, Row.refs, of_decide_eq_true heq]) ht

theorem taskChecklists_view :
    taskChecklists (H.view workspaceId db) taskId = taskChecklists db taskId := by
  rw [taskChecklists, taskChecklists, checklistsOf_view hdb ht]
  refine List.map_congr_left fun c hc => ?_
  rw [itemsOf_view hdb (home_checklist hdb ht ((sortBy_perm _ _).mem_iff.mp hc))]

omit ht in
theorem taskDetailInclude_view {t : TaskRow} (ht : H.home ⟨.task, t.id⟩ = some workspaceId) :
    taskDetailInclude (H.view workspaceId db) t = taskDetailInclude db t := by
  rw [taskDetailInclude, taskDetailInclude, taskAssignees_view hdb ht, taskLabels_view hdb ht,
    taskChecklists_view hdb ht]

omit ht in
theorem taskListInclude_view {t : TaskRow} (ht : H.home ⟨.task, t.id⟩ = some workspaceId) :
    taskListInclude (H.view workspaceId db) t = taskListInclude db t := by
  rw [taskListInclude, taskListInclude, taskAssignees_view hdb ht, taskLabels_view hdb ht,
    checklistsOf_view hdb ht]
  congr 1
  refine List.map_congr_left fun c hc => ?_
  rw [itemsOf_view hdb (home_checklist hdb ht hc)]

theorem attachmentsOf_view : attachmentsOf (H.view workspaceId db) taskId = attachmentsOf db taskId :=
  congrArg List.length (filter_ref_view (R := AttachmentRow) (a := .cascade) hdb ht
    fun a ha => by simp [Model.row, Row.refs, of_decide_eq_true ha])

end Includes

/-! ## Reads of a task -/

open TaskReadService

theorem stays_countAttachments {taskId : Id} (ht : H.home ⟨.task, taskId⟩ = some workspaceId) :
    (countAttachments taskId).Stays H.tenants workspaceId fun _ => True :=
  stays_read fun _ hdb => attachmentsOf_view hdb ht

/-- A task with its relations. -/
theorem stays_readDetail (workspaceId taskId : Id) :
    (query fun db => ((rows TaskRow db).find? (taskScope workspaceId taskId db)).map
      (taskDetailInclude db)).Stays H.tenants workspaceId
      fun o => ∀ d, o = some d → H.Found workspaceId (taskScope workspaceId taskId) d.task := by
  refine stays_query fun db hdb => ?_
  have hp := scoped_taskScope (H := H) workspaceId taskId
  rw [hp.find? hdb]
  cases ht : (rows TaskRow db).find? (taskScope workspaceId taskId db) with
  | none => exact ⟨rfl, nofun⟩
  | some t =>
    have hfound := hp.found hdb (List.mem_of_find?_eq_some ht) (List.find?_some ht)
    refine ⟨congrArg some (taskDetailInclude_view hdb hfound.home), fun d hd => ?_⟩
    rw [← Option.some.inj hd]
    exact hfound

theorem stays_findTask (workspaceId taskId : Id) :
    (findTask workspaceId taskId).Stays H.tenants workspaceId
      fun x => H.Found workspaceId (taskScope workspaceId taskId) x.1.task :=
  (stays_readDetail workspaceId taskId).bind fun _ ho => (stays_orThrow ho).bind fun _ hd =>
    (stays_countAttachments (hd.taskId ▸ hd.home)).bind fun _ _ => hd

theorem stays_findTaskBasic (workspaceId taskId : Id) :
    (findTaskBasic workspaceId taskId).Stays H.tenants workspaceId
      (H.Found workspaceId (taskScope workspaceId taskId)) :=
  (stays_findFirst (scoped_taskScope workspaceId taskId)).bind fun _ ho => stays_orThrow ho

/-- The board of a task of the workspace hears of it. -/
theorem hears_toBoard {boardId actorId : Id} {event : BoardEvent}
    (h : H.home ⟨.board, boardId⟩ = some workspaceId) :
    H.tenants.hears workspaceId (.toBoard boardId workspaceId actorId event) := ⟨rfl, h⟩

theorem stays_emitUpdated (workspaceId taskId actorId : Id) :
    (TaskEventsService.emitUpdated workspaceId taskId actorId).Stays H.tenants workspaceId
      fun _ => True :=
  (stays_findTask workspaceId taskId).auto.bind fun _ hd =>
    (Call.Stays.publish (hears_toBoard hd.row.board_of_task)).bind fun _ _ => trivial

theorem stays_conflict {α : Type} {write : Call kurul α} {message : JsString} {Q : α → Prop}
    (h : write.Stays H.tenants workspaceId Q) :
    (conflictOnUniqueViolation write message).Stays H.tenants workspaceId Q := by
  refine h.tryCatch fun e => ?_
  split <;> trivial

/-! ## Positions -/

/-- Rows in lists each under one row of another table. -/
class Listed (R : Type) [Model R] [Placed R] where
  owner : Table
  ref : ∀ r : R, ((⟨owner, Placed.list r⟩ : Key), OnDelete.cascade) ∈ (Model.row r).refs
  refs_set : ∀ p (r : R), (Model.row ((Placed.setPosition p).apply r)).refs = (Model.row r).refs
  not_workspace : Model.table R ≠ .workspace

instance : Listed TaskRow where
  owner := .column
  ref _ := List.mem_cons_of_mem _ List.mem_cons_self
  refs_set _ _ := rfl
  not_workspace := by decide

instance : Listed ColumnRow where
  owner := .board
  ref _ := List.mem_cons_self
  refs_set _ _ := rfl
  not_workspace := by decide

section Positions

variable {R : Type} [Model R] [Placed R] [Listed R] {listId : Id}
  (hlist : H.home ⟨Listed.owner R, listId⟩ = some workspaceId)

include hlist

omit hlist in
/-- A row keeps its references when it is moved within its list. -/
theorem homed_setPosition {r : R} (h : H.Of workspaceId r) (p : Position) :
    H.Homed (Model.row ((Placed.setPosition p).apply r)) := by
  intro x hx hne
  rw [Listed.refs_set] at hx
  rw [Patch.key_apply]
  exact h.2 x hx hne

theorem listed_view (hdb : H.tenants.Lawful db) :
    ((rows R (H.view workspaceId db)).filter fun r => Placed.list r = listId) =
      (rows R db).filter fun r => Placed.list r = listId :=
  filter_ref_view hdb hlist fun r hr => of_decide_eq_true hr ▸ Listed.ref r

theorem siblings_view (hdb : H.tenants.Lawful db) :
    siblings R (H.view workspaceId db) listId = siblings R db listId := by
  rw [siblings, siblings, ordered, ordered, listed_view hlist hdb]

theorem stays_findSiblings : (findSiblings R listId).Stays H.tenants workspaceId fun _ => True :=
  stays_read fun _ hdb => siblings_view hlist hdb

theorem matched_view (hdb : H.tenants.Lawful db) (updates : List PositionUpdate) :
    matched R listId updates (H.view workspaceId db) = matched R listId updates db := by
  have hfilter : ∀ l : List R, (l.filterMap fun r =>
      if Placed.list r = listId then updates.find? fun u => u.id = Model.id r else none) =
      (l.filter fun r => Placed.list r = listId).filterMap fun r =>
        updates.find? fun u => u.id = Model.id r := by
    intro l
    rw [List.filterMap_filter]
    refine List.filterMap_congr fun r _ => ?_
    by_cases h : Placed.list r = listId <;> simp [h]
  rw [matched, matched, hfilter, hfilter, listed_view hlist hdb]

theorem scoped_listed (i : Id) :
    H.Scoped workspaceId fun _ (r : R) => Model.id r = i && Placed.list r = listId :=
  .of_ref (fun r => ⟨Listed.owner R, Placed.list r⟩) Listed.ref
    (fun _ _ _ h => by rw [of_decide_eq_true (Bool.and_eq_true_iff.mp h).2]; exact hlist)
    fun _ _ _ => rfl

theorem stays_batchUpdatePositions (updates : List PositionUpdate) :
    (batchUpdatePositions R listId updates).Stays H.tenants workspaceId fun _ => True := by
  have hloop : ∀ us : List PositionUpdate,
      (writePositions R listId us).Stays H.tenants workspaceId fun _ => True := by
    intro us
    induction us with
    | nil => trivial
    | cons u us ih =>
      exact (stays_updateMany Listed.not_workspace (scoped_listed hlist u.id)
        fun r hr => homed_setPosition hr u.position).bind fun _ _ => ih
  unfold batchUpdatePositions
  split
  · trivial
  · exact (stays_read fun _ hdb => matched_view hlist hdb updates).bind fun found _ => hloop found

theorem stays_makeRoom (l : List Sibling) (slot : InsertionSlot Sibling) :
    (makeRoom R listId l slot).Stays H.tenants workspaceId fun _ => True := by
  simp only [makeRoom]
  split
  · exact (stays_batchUpdatePositions hlist _).bind fun _ _ => trivial
  · trivial

end Positions

/-! ## Notifications -/

theorem of_notification {n : NotificationRow} (hi : H.Draws workspaceId n.id)
    (hw : n.workspaceId = workspaceId)
    (htask : ∀ t, n.taskId = some t → H.home ⟨.task, t⟩ = some workspaceId)
    (hactivity : ∀ a, n.activityId = some a → H.home ⟨.activity, a⟩ = some workspaceId) :
    H.Of workspaceId n := by
  refine of_new hi rfl (by decide) fun x hx hne => ?_
  simp only [Model.row, Row.refs, List.mem_cons, List.mem_append, List.mem_map, Option.mem_toList] at hx
  rcases hx with (rfl | rfl | ⟨t, ht, rfl⟩) | ⟨a, ha, rfl⟩
  · rw [H.workspace, hw]
  · exact absurd rfl hne
  · exact htask t ht
  · exact hactivity a ha

theorem stays_createNotification {type : NotificationType} {input : CreateNotificationInput}
    (hw : input.workspaceId = workspaceId)
    (htask : ∀ t, input.taskId = some t → H.home ⟨.task, t⟩ = some workspaceId)
    (hactivity : ∀ a, input.activityId = some a → H.home ⟨.activity, a⟩ = some workspaceId) :
    (NotificationService.create type input).Stays H.tenants workspaceId fun _ => True := by
  unfold NotificationService.create
  split
  · trivial
  · refine Tx.Stays.fresh.bind fun i hi => Tx.Stays.now.bind fun now _ => ?_
    have hnew : H.Of workspaceId ({
        id := i
        workspaceId := input.workspaceId
        userId := input.userId
        type
        taskId := input.taskId
        activityId := input.activityId
        payload := .obj input.payload
        readAt := none
        createdAt := now } : NotificationRow) := of_notification hi hw htask hactivity
    exact (stays_create (by decide) hnew).bind fun _ _ => trivial

theorem stays_emitEach (workspaceId : Id) (userIds : List Id) :
    (NotificationService.emitEach workspaceId userIds).Stays H.tenants workspaceId fun _ => True := by
  induction userIds with
  | nil => trivial
  | cons userId rest ih =>
    exact (Call.Stays.publish (show H.tenants.hears workspaceId (.toUser workspaceId userId) from rfl)).bind
      fun _ _ => ih

theorem stays_signalIf (changed : Bool) (workspaceId userId : Id) :
    (NotificationService.signalIf changed workspaceId userId).Stays H.tenants workspaceId
      fun _ => True := by
  cases changed with
  | false => trivial
  | true => exact stays_emitEach workspaceId _

end Homes
end Kurul
