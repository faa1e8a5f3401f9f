import Kurul.ActivityFeed
import Kurul.Attachment.AttachmentService
import Kurul.Dashboard.DashboardService
import Kurul.Tenancy.Checklists

/-!
# Kurul.Tenancy.Threads

Requests for comments, activity, notifications, attachments and the dashboard stay with the workspace.
-/

namespace Kurul
namespace Homes

open Sql

variable {H : Homes} {workspaceId : Id} {db : Db}

/-! ## `CommentService` -/

/-- Each row with the user behind it. -/
theorem withAuthor_view {R : Type} (userOf : R → Id) (l : List R) :
    (l.filterMap fun r => (byId UserRow (H.view workspaceId db) (userOf r)).map fun user => (r, user)) =
      l.filterMap fun r => (byId UserRow db (userOf r)).map fun user => (r, user) :=
  List.filterMap_congr fun r _ => by rw [byId_view_user]

theorem stays_listComments (workspaceId taskId : Id) (query : CommentService.CommentCursorQuery) :
    (CommentService.list workspaceId taskId query).Stays H.tenants workspaceId fun _ => True := by
  refine (stays_findTaskBasic workspaceId taskId).bind fun task ht => ?_
  have htask : H.home ⟨.task, taskId⟩ = some workspaceId := ht.taskId ▸ ht.home
  refine (stays_read fun db hdb => ?_).bind fun _ _ => trivial
  rw [withAuthor_view CommentRow.userId, filter_ref_view (k := ⟨.task, taskId⟩) (a := .cascade) hdb htask
    fun c hc => by simp [Model.row, Row.refs, of_decide_eq_true hc]]

theorem scoped_members (workspaceId : Id) (userIds : List Id) :
    H.Scoped workspaceId fun _ (m : WorkspaceMemberRow) =>
      m.workspaceId = workspaceId && decide (m.userId ∈ userIds) :=
  .of_ref (fun m => ⟨.workspace, m.workspaceId⟩) (fun _ => List.mem_cons_self)
    (fun _ _ m h => by rw [H.workspace, of_decide_eq_true (Bool.and_eq_true_iff.mp h).1])
    fun _ _ _ => rfl

theorem stays_mentionedMembers (workspaceId : Id) (mentionIds : List Id) :
    (CommentService.mentionedMembers workspaceId mentionIds).Stays H.tenants workspaceId
      fun _ => True := by
  unfold CommentService.mentionedMembers
  split
  · trivial
  · exact (stays_findMany (scoped_members workspaceId mentionIds)).bind fun _ _ => trivial

theorem stays_createMentionBatch {input : MentionBatchInput} (hw : input.workspaceId = workspaceId)
    (htask : H.home ⟨.task, input.taskId⟩ = some workspaceId)
    (hactivity : ∀ a, input.activityId = some a → H.home ⟨.activity, a⟩ = some workspaceId) :
    (NotificationService.createMentionBatch input).Stays H.tenants workspaceId fun _ => True := by
  simp only [NotificationService.createMentionBatch]
  split
  · trivial
  · refine Tx.Stays.now.bind fun now _ => ?_
    refine (stays_withIds (P := fun n => H.Of workspaceId n) _ fun i hi userId _ =>
      of_notification (n := NotificationService.mentionRow input now i userId) hi hw
        (fun t ht => Option.some.inj ht ▸ htask) hactivity).bind fun data hdata => ?_
    exact stays_createMany (by decide) hdata

theorem stays_createCommentBody {taskId userId : Id} {task : TaskRow} {mentionIds : List Id}
    {dto : CreateCommentDto} (htask : H.home ⟨.task, taskId⟩ = some workspaceId) :
    (CommentService.createBody workspaceId taskId userId task mentionIds dto).Stays H.tenants
      workspaceId fun _ => True := by
  refine Tx.Stays.fresh.bind fun i hi => Tx.Stays.now.bind fun now _ => ?_
  have hnew : H.Of workspaceId (⟨i, taskId, userId, dto.body, now⟩ : CommentRow) :=
    of_new_under hi rfl (by decide) htask fun x hx => by
      simp only [Model.row, Row.refs, List.mem_cons, List.not_mem_nil, or_false] at hx
      exact hx.imp (fun h => by rw [h]) fun h => by rw [h]
  refine (stays_create (by decide) hnew).bind fun created _ => ?_
  refine (stays_read fun _ _ => byId_view_user _).bind fun author _ => ?_
  refine (stays_orThrow fun _ _ => trivial).bind fun user (_ : True) => ?_
  refine (stays_mentionedMembers workspaceId mentionIds).bind fun memberIds _ => ?_
  refine (stays_record htask).bind fun activity hactivity => ?_
  have hnotify : ∀ input : MentionBatchInput, input.workspaceId = workspaceId → input.taskId = taskId →
      input.activityId = some activity.id →
      (CommentService.notifyMentioned input).Stays H.tenants workspaceId fun _ => True := by
    intro input hw ht ha
    unfold CommentService.notifyMentioned
    split
    · trivial
    · exact (stays_createMentionBatch hw (ht ▸ htask) fun a h =>
        Option.some.inj (ha.symm.trans h) ▸ hactivity.1).bind fun _ _ => trivial
  exact (hnotify _ rfl rfl rfl).bind fun _ _ => trivial

theorem stays_createComment (workspaceId taskId userId : Id) (dto : CreateCommentDto) :
    (CommentService.create workspaceId taskId userId dto).Stays H.tenants workspaceId
      fun _ => True := by
  refine (stays_findTaskBasic workspaceId taskId).auto.bind fun task ht => ?_
  have htask : H.home ⟨.task, taskId⟩ = some workspaceId := ht.taskId ▸ ht.home
  refine (stays_createCommentBody htask).transaction.bind fun created _ => ?_
  refine (stays_emitEach workspaceId _).bind fun _ _ => ?_
  exact (Call.Stays.publish (hears_toBoard ht.row.board_of_task)).bind fun _ _ => trivial

theorem scoped_commentScope (workspaceId commentId : Id) :
    H.Scoped workspaceId (CommentService.commentScope workspaceId commentId) :=
  .of_ref (fun c => ⟨.task, c.taskId⟩) (fun _ => List.mem_cons_self)
    (fun _ hdb _ h => home_of_onTaskOf hdb (Bool.and_eq_true_iff.mp h).2)
    fun _ hdb c => by rw [CommentService.commentScope, CommentService.commentScope, onTaskOf_view hdb]

theorem stays_removeComment (workspaceId commentId actorId : Id) (actorRole : MemberRole) :
    (CommentService.remove workspaceId commentId actorId actorRole).Stays H.tenants workspaceId
      fun _ => True := by
  have hp := scoped_commentScope (H := H) workspaceId commentId
  refine Tx.Stays.transaction ?_
  refine (stays_findFirst hp).bind fun _ ho => (stays_orThrow ho).bind fun _ _ => ?_
  exact stays_throwIf.bind fun _ _ => (stays_deleteMany hp).bind fun _ _ =>
    stays_throwIf.mono fun _ _ => trivial

/-! ## `ActivityService` -/

theorem stays_listActivities (workspaceId : Id) (taskId : Option Id)
    (query : ActivityCursorQuery) :
    (ActivityService.list workspaceId taskId query).Stays H.tenants workspaceId fun _ => True := by
  refine (stays_read fun db hdb => ?_).bind fun _ _ => trivial
  rw [withAuthor_view ActivityRow.userId, filter_ref_view (k := ⟨.workspace, workspaceId⟩)
    (a := .cascade) hdb (H.workspace workspaceId) fun a ha => by
      rw [← of_decide_eq_true (Bool.and_eq_true_iff.mp ha).1]
      exact List.mem_cons_self]

theorem stays_listForTask (workspaceId taskId : Id) (query : ActivityCursorQuery) :
    (ActivityService.listForTask workspaceId taskId query).Stays H.tenants workspaceId
      fun _ => True :=
  (stays_findFirst (scoped_taskScope workspaceId taskId)).bind fun _ ho =>
    (stays_orThrow ho).bind fun _ _ => stays_listActivities workspaceId (some taskId) query

/-! ## `NotificationService` -/

/-- A `where` clause that asks for the workspace's notifications. -/
theorem scoped_notifications {p : NotificationRow → Bool}
    (hp : ∀ n, p n = true → n.workspaceId = workspaceId) : H.Scoped workspaceId fun _ => p :=
  .of_ref (fun n => ⟨.workspace, n.workspaceId⟩) (fun _ => List.mem_cons_self)
    (fun _ _ n h => by rw [H.workspace, hp n h]) fun _ _ _ => rfl

section Notifications

open NotificationService

theorem scoped_unread (workspaceId userId : Id) :
    H.Scoped workspaceId fun _ => unreadWhere workspaceId userId :=
  scoped_notifications fun _ h =>
    of_decide_eq_true (Bool.and_eq_true_iff.mp (Bool.and_eq_true_iff.mp h).1).1

theorem scoped_own (workspaceId userId notificationId : Id) :
    H.Scoped workspaceId fun _ => ownWhere workspaceId userId notificationId :=
  scoped_notifications fun _ h =>
    of_decide_eq_true (Bool.and_eq_true_iff.mp (Bool.and_eq_true_iff.mp h).1).2

theorem stays_listNotifications (workspaceId userId : Id) (query : NotificationCursorQuery) :
    (NotificationService.list workspaceId userId query).Stays H.tenants workspaceId fun _ => True := by
  refine stays_read fun db hdb => ?_
  have hlist : H.Scoped workspaceId fun _ => listWhere workspaceId userId query :=
    scoped_notifications fun n h => by
      simp only [listWhere, Bool.and_eq_true, decide_eq_true_eq] at h
      exact h.1.1.1
  have hfilter := hlist.filter hdb
  rw [listPage, listPage, hfilter]

theorem stays_unreadCount (workspaceId userId : Id) :
    (unreadCount workspaceId userId).Stays H.tenants workspaceId fun _ => True :=
  stays_count (scoped_unread workspaceId userId)

theorem stays_markRead (workspaceId userId notificationId : Id) :
    (markRead workspaceId userId notificationId).Stays H.tenants workspaceId fun _ => True := by
  have hp := scoped_own (H := H) workspaceId userId notificationId
  have hbody : (markReadBody workspaceId userId notificationId).Stays H.tenants workspaceId
      fun _ => True := by
    refine (stays_findFirst hp).bind fun _ ho => (stays_orThrow ho).bind fun existing _ => ?_
    split
    · trivial
    · refine Tx.Stays.now.bind fun now _ => ?_
      exact (stays_update (by decide) hp fun _ hn => hn.2).bind fun _ _ => trivial
  exact hbody.transaction.bind fun done _ =>
    (stays_signalIf done.2 workspaceId userId).bind fun _ _ => trivial

theorem stays_markAllRead (workspaceId userId : Id) :
    (markAllRead workspaceId userId).Stays H.tenants workspaceId fun _ => True := by
  have hwrite : (do
      let now ← Tx.now
      updateMany (fun _ => unreadWhere workspaceId userId) (readNow now)).Stays H.tenants workspaceId
        fun _ => True :=
    Tx.Stays.now.bind fun now _ =>
      stays_updateMany (by decide) (scoped_unread workspaceId userId) fun _ hn => hn.2
  exact hwrite.auto.bind fun count _ => (stays_signalIf _ workspaceId userId).bind fun _ _ => trivial

end Notifications

/-! ## `AttachmentService` -/

section Attachments

open AttachmentService

theorem stays_findAttachedTask (workspaceId taskId : Id) :
    (AttachmentService.findTask workspaceId taskId).Stays H.tenants workspaceId
      (H.Found workspaceId (taskScope workspaceId taskId)) :=
  (stays_findFirst (scoped_taskScope workspaceId taskId)).bind fun _ ho => stays_orThrow ho

theorem scoped_attachmentScope (workspaceId attachmentId : Id) :
    H.Scoped workspaceId (attachmentScope workspaceId attachmentId) :=
  .of_ref (fun a => ⟨.task, a.taskId⟩) (fun _ => List.mem_cons_self)
    (fun _ hdb _ h => home_of_onTaskOf hdb (Bool.and_eq_true_iff.mp h).2)
    fun _ hdb a => by rw [attachmentScope, attachmentScope, onTaskOf_view hdb]

theorem Of.task_of_attachment {a : AttachmentRow} (h : H.Of workspaceId a) :
    H.home ⟨.task, a.taskId⟩ = some workspaceId :=
  h.ref (k := ⟨.task, a.taskId⟩) List.mem_cons_self (by simp)

/-- An attachment, with the board of its task. -/
theorem stays_requireAttachment (workspaceId attachmentId : Id) :
    (requireAttachment workspaceId attachmentId).Stays H.tenants workspaceId
      fun x => H.home ⟨.task, x.1.taskId⟩ = some workspaceId ∧ H.home ⟨.board, x.2⟩ = some workspaceId := by
  have hp := scoped_attachmentScope (H := H) workspaceId attachmentId
  refine (stays_query fun db hdb => ?_).bind fun o ho => stays_orThrow ho
  rw [hp.find? hdb]
  cases ha : (rows AttachmentRow db).find? (attachmentScope workspaceId attachmentId db) with
  | none => exact ⟨rfl, nofun⟩
  | some a =>
    have hfound := hp.found hdb (List.mem_of_find?_eq_some ha) (List.find?_some ha)
    have htask := hfound.row.task_of_attachment
    refine ⟨congrArg (Option.map _) (byId_view (R := TaskRow) htask), fun x hx => ?_⟩
    obtain ⟨t, ht, rfl⟩ := Option.map_eq_some_iff.mp hx
    obtain ⟨hmem, hid⟩ := byId_eq_some.mp ht
    exact ⟨htask, (of_mem hdb hmem (hid ▸ htask)).board_of_task⟩

theorem stays_listAttachments (workspaceId taskId : Id) :
    (AttachmentService.list workspaceId taskId).Stays H.tenants workspaceId fun _ => True := by
  have hp : H.Scoped workspaceId fun db (a : AttachmentRow) =>
      a.taskId = taskId && onTaskOf db workspaceId a.taskId :=
    .of_ref (fun a => ⟨.task, a.taskId⟩) (fun _ => List.mem_cons_self)
      (fun _ hdb _ h => home_of_onTaskOf hdb (Bool.and_eq_true_iff.mp h).2)
      fun _ hdb a => by rw [onTaskOf_view hdb]
  refine (stays_findAttachedTask workspaceId taskId).bind fun _ _ => ?_
  exact (stays_read fun db hdb => by rw [hp.filter hdb]).bind fun _ _ => trivial

theorem stays_findOneAttachment (workspaceId attachmentId : Id) :
    (findOne workspaceId attachmentId).Stays H.tenants workspaceId fun _ => True :=
  (stays_requireAttachment workspaceId attachmentId).bind fun _ _ => trivial

/-- A new attachment of a task of the workspace, and its entry. -/
theorem stays_attach {taskId actorId : Id} {row : AttachmentRow} (hi : H.Draws workspaceId row.id)
    (ht : row.taskId = taskId) (htask : H.home ⟨.task, taskId⟩ = some workspaceId) :
    (do
      let row ← create row
      let _ ← ActivityService.record (entry workspaceId taskId actorId .attachmentCreated row)
      return row : Tx kurul AttachmentRow).Stays H.tenants workspaceId fun _ => True := by
  have hnew : H.Of workspaceId row := of_new_under hi rfl (by decide) htask fun x hx => by
    simp only [Model.row, Row.refs, List.mem_cons, List.not_mem_nil, or_false] at hx
    exact hx.imp (fun h => by rw [h, ht]) fun h => by rw [h]
  exact (stays_create (by decide) hnew).bind fun _ _ => (stays_record htask).bind fun _ _ => trivial

theorem stays_createLink (rt : Runtime) (workspaceId taskId actorId : Id) (dto : CreateAttachmentDto) :
    (createLink rt workspaceId taskId actorId dto).Stays H.tenants workspaceId fun _ => True := by
  refine (stays_findAttachedTask workspaceId taskId).auto.bind fun task ht => ?_
  refine (stays_check _).auto.bind fun url _ => ?_
  have hbody : (createLinkBody workspaceId task.id actorId dto url).Stays H.tenants workspaceId
      fun _ => True :=
    Tx.Stays.fresh.bind fun i hi => Tx.Stays.now.bind fun now _ => stays_attach hi rfl ht.home
  refine hbody.transaction.bind fun _ _ => ?_
  exact (Call.Stays.publish (hears_toBoard ht.row.board_of_task)).bind fun _ _ => trivial

theorem stays_createFile (accepted : Except ApiError JsString) (written : Except ApiError Unit)
    (workspaceId taskId actorId : Id) (file : UploadedFile) :
    (createFile accepted written workspaceId taskId actorId file).Stays H.tenants workspaceId
      fun _ => True := by
  refine (stays_findAttachedTask workspaceId taskId).auto.bind fun task ht => ?_
  refine (stays_check _).auto.bind fun mimeType _ => Tx.Stays.fresh.auto.bind fun i hi => ?_
  refine (stays_check _).auto.bind fun _ _ => ?_
  have hbody : (createFileBody workspaceId task.id actorId file mimeType i).Stays H.tenants workspaceId
      fun _ => True := Tx.Stays.now.bind fun now _ => stays_attach hi rfl ht.home
  refine hbody.transaction.bind fun _ _ => ?_
  exact (Call.Stays.publish (hears_toBoard ht.row.board_of_task)).bind fun _ _ => trivial

theorem stays_removeAttachment (workspaceId attachmentId actorId : Id) :
    (AttachmentService.remove workspaceId attachmentId actorId).Stays H.tenants workspaceId
      fun _ => True := by
  refine (stays_requireAttachment workspaceId attachmentId).auto.bind fun found hfound => ?_
  have hbody : (AttachmentService.removeBody workspaceId attachmentId actorId found.1).Stays H.tenants
      workspaceId fun _ => True := by
    refine (stays_deleteMany (scoped_attachmentScope workspaceId attachmentId)).bind fun _ _ => ?_
    exact stays_throwIf.bind fun _ _ => (stays_record hfound.1).bind fun _ _ => trivial
  exact hbody.transaction.bind fun _ _ => Call.Stays.publish (hears_toBoard hfound.2)

end Attachments

/-! ## `DashboardService` -/

section Dashboard

open DashboardService

theorem taskWhere_view (hdb : H.tenants.Lawful db) (boardId : Option Id) :
    taskWhere workspaceId boardId (H.view workspaceId db) = taskWhere workspaceId boardId db :=
  funext fun t => by rw [taskWhere, taskWhere, onBoardOf_view hdb]

theorem scoped_taskWhere (workspaceId : Id) (boardId : Option Id) :
    H.Scoped workspaceId (taskWhere workspaceId boardId) :=
  .of_ref (fun t => ⟨.board, t.boardId⟩) (fun _ => List.mem_cons_self)
    (fun _ hdb _ h => home_of_onBoardOf hdb (Bool.and_eq_true_iff.mp h).1)
    fun _ hdb t => by rw [taskWhere_view hdb]

/-- A clause that narrows one that is scoped. -/
theorem Scoped.and {R : Type} [Model R] {p q : Db → R → Bool} (hp : H.Scoped workspaceId p)
    (hq : ∀ db, H.tenants.Lawful db → ∀ r ∈ rows R db,
      H.home ⟨Model.table R, Model.id r⟩ = some workspaceId → q (H.view workspaceId db) r = q db r) :
    H.Scoped workspaceId fun db r => p db r && q db r := by
  intro db hdb r hr
  refine ⟨fun h => (hp db hdb r hr).1 (Bool.and_eq_true_iff.mp h).1, ?_⟩
  show (p (H.view workspaceId db) r && q (H.view workspaceId db) r) = (p db r && q db r)
  rw [(hp db hdb r hr).2]
  by_cases h : p db r = true
  · rw [hq db hdb r hr ((hp db hdb r hr).1 h)]
  · simp [h]

theorem scoped_completedColumns (workspaceId : Id) (boardId : Option Id) :
    H.Scoped workspaceId (completedColumns workspaceId boardId) :=
  .of_ref (fun c => ⟨.board, c.boardId⟩) (fun _ => List.mem_cons_self)
    (fun _ hdb _ h => home_of_onBoardOf hdb
      (Bool.and_eq_true_iff.mp (Bool.and_eq_true_iff.mp h).1).1)
    fun _ hdb c => by rw [completedColumns, completedColumns, onBoardOf_view hdb]

theorem scoped_overdueWhere (workspaceId : Id) (boardId : Option Id) (now : Instant) (ids : List Id) :
    H.Scoped workspaceId (overdueWhere workspaceId boardId now ids) :=
  ((scoped_taskWhere workspaceId boardId).and (q := fun _ t => t.dueDate.any fun due => decide (due < now))
    fun _ _ _ _ _ => rfl).and (q := fun _ t => ids.isEmpty || !ids.elem t.columnId)
      fun _ _ _ _ _ => rfl

theorem scoped_unassignedWhere (workspaceId : Id) (boardId : Option Id) :
    H.Scoped workspaceId (unassignedWhere workspaceId boardId) :=
  (scoped_taskWhere workspaceId boardId).and fun db hdb t _ ht => by
    rw [any_ref_view (R := TaskAssigneeRow) (k := ⟨.task, t.id⟩) (a := .cascade) hdb ht fun ta hta => by
      simp [Model.row, Row.refs, of_decide_eq_true hta]]

theorem stays_priorityGroups (workspaceId : Id) (boardId : Option Id) :
    (priorityGroups workspaceId boardId).Stays H.tenants workspaceId fun _ => True :=
  stays_read fun db hdb => by
    simp only [show (rows TaskRow (H.view workspaceId db)).filter _ = _ from
      (scoped_taskWhere workspaceId boardId).filter hdb]

/-- The assignments to tasks a summary is about. -/
theorem scoped_assigned (workspaceId : Id) (boardId : Option Id) :
    H.Scoped workspaceId fun db (ta : TaskAssigneeRow) =>
      (byId TaskRow db ta.taskId).any (taskWhere workspaceId boardId db) := by
  have hhome : ∀ db, H.tenants.Lawful db → ∀ ta : TaskAssigneeRow,
      (byId TaskRow db ta.taskId).any (taskWhere workspaceId boardId db) = true →
      H.home ⟨.task, ta.taskId⟩ = some workspaceId := by
    intro db hdb ta h
    obtain ⟨t, ht, hp⟩ := (Option.any_eq_true _ _).mp h
    obtain ⟨hmem, hid⟩ := byId_eq_some.mp ht
    exact hid ▸ (scoped_taskWhere workspaceId boardId db hdb t hmem).1 hp
  refine .of_ref (fun ta => ⟨.task, ta.taskId⟩) (fun _ => List.mem_cons_self) hhome fun db hdb ta => ?_
  by_cases h : H.home ⟨.task, ta.taskId⟩ = some workspaceId
  · rw [byId_view (R := TaskRow) h, taskWhere_view hdb]
  · rw [Bool.eq_false_iff.mpr fun hb => h (hhome db hdb ta hb),
      Bool.eq_false_iff.mpr fun hb => h (hhome _ hdb.view ta hb)]

theorem stays_rankedAssigneeBuckets (collate : JsString → JsString) (workspaceId : Id)
    (boardId : Option Id) :
    (rankedAssigneeBuckets collate workspaceId boardId).Stays H.tenants workspaceId fun _ => True := by
  refine stays_read fun db hdb => ?_
  have hranked : rankedAssignees collate workspaceId boardId (H.view workspaceId db) =
      rankedAssignees collate workspaceId boardId db := by
    rw [rankedAssignees, rankedAssignees, (scoped_assigned workspaceId boardId).filter hdb]
    simp only [byId_view_user]
  simp only [hranked]

theorem stays_countsByColumn {boardId : Option Id}
    (hboard : ∀ b, boardId = some b → H.home ⟨.board, b⟩ = some workspaceId) :
    (countsByColumn workspaceId boardId).Stays H.tenants workspaceId fun _ => True := by
  cases boardId with
  | none => trivial
  | some b =>
    have hp : H.Scoped workspaceId fun db (c : ColumnRow) =>
        c.boardId = b && onBoardOf db workspaceId c.boardId :=
      .of_ref (fun c => ⟨.board, c.boardId⟩) (fun _ => List.mem_cons_self)
        (fun _ hdb _ h => home_of_onBoardOf hdb (Bool.and_eq_true_iff.mp h).2)
        fun _ hdb c => by rw [onBoardOf_view hdb]
    refine (stays_read fun db hdb => by rw [hp.filter hdb]).bind fun columns _ => ?_
    exact (stays_groupCount _ (scoped_taskWhere workspaceId (some b))).bind fun _ _ => trivial

theorem stays_countActivitiesByDay (workspaceId : Id) (type : ActivityType) (since : Instant)
    (boardId : Option Id) (extraFilter : ActivityRow → Bool) :
    (countActivitiesByDay workspaceId type since boardId extraFilter).Stays H.tenants workspaceId
      fun _ => True := by
  refine stays_read fun db hdb => congrArg groupByDay ?_
  have hbase : H.Scoped workspaceId fun _ (a : ActivityRow) =>
      a.workspaceId = workspaceId && a.type = type && since ≤ a.createdAt :=
    .of_ref (fun a => ⟨.workspace, a.workspaceId⟩) (fun _ => List.mem_cons_self)
      (fun _ _ a h => by
        rw [H.workspace, of_decide_eq_true (Bool.and_eq_true_iff.mp (Bool.and_eq_true_iff.mp h).1).1])
      fun _ _ _ => rfl
  have hfilter : ∀ db, H.tenants.Lawful db → ∀ a ∈ rows ActivityRow db,
      H.home ⟨.activity, a.id⟩ = some workspaceId →
      boardFilter boardId (H.view workspaceId db) a = boardFilter boardId db a := by
    intro db hdb a ha hhome
    rw [boardFilter, boardFilter]
    cases htask : a.taskId with
    | none => rfl
    | some taskId =>
      have hof : H.Of workspaceId a := of_mem hdb ha hhome
      have hview : byId TaskRow (H.view workspaceId db) taskId = byId TaskRow db taskId :=
        byId_view (hof.ref (k := ⟨.task, taskId⟩) (a := .setNull)
          (by simp [Model.row, Row.refs, htask]) (by simp))
      simp only [Option.bind_some, hview]
  exact ((hbase.and hfilter).and (q := fun _ => extraFilter) fun _ _ _ _ _ => rfl).filter hdb

theorem stays_summary (collate : JsString → JsString) (workspaceId : Id) (boardId : Option Id) :
    (summary collate workspaceId boardId).Stays H.tenants workspaceId fun _ => True := by
  have hnarrowed : (assertNarrowed workspaceId boardId).Stays H.tenants workspaceId
      fun _ => ∀ b, boardId = some b → H.home ⟨.board, b⟩ = some workspaceId := by
    cases boardId with
    | none => exact nofun
    | some b => exact (stays_assertBoard workspaceId b).bind fun _ h => fun b' hb => Option.some.inj hb ▸ h.board
  refine hnarrowed.auto.bind fun _ hboard => Tx.Stays.now.auto.bind fun now _ => ?_
  refine (stays_findMany (scoped_completedColumns workspaceId boardId)).auto.bind fun completed _ => ?_
  refine (stays_count (scoped_taskWhere workspaceId boardId)).auto.bind fun _ _ => ?_
  refine (stays_count (scoped_overdueWhere workspaceId boardId now _)).auto.bind fun _ _ => ?_
  refine (stays_priorityGroups workspaceId boardId).auto.bind fun _ _ => ?_
  refine (stays_rankedAssigneeBuckets collate workspaceId boardId).auto.bind fun _ _ => ?_
  refine (stays_count (scoped_unassignedWhere workspaceId boardId)).auto.bind fun _ _ => ?_
  refine (stays_countsByColumn hboard).auto.bind fun _ _ => ?_
  refine (stays_countActivitiesByDay workspaceId .taskCreated _ boardId _).auto.bind fun _ _ => ?_
  exact (stays_countActivitiesByDay workspaceId .taskMoved _ boardId _).auto.bind fun _ _ => trivial

end Dashboard

end Homes
end Kurul
