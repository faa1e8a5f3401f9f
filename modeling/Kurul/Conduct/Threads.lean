import Kurul.Activation.UsagePing
import Kurul.Attachment.AttachmentService
import Kurul.Comment.CommentService
import Kurul.Conduct.Tasks
import Kurul.Import.Writable

/-!
# Kurul.Conduct.Threads

Comments, attachments, notifications, imports and usage pings: each request keeps to the rules.
-/

namespace Kurul

open Sql

variable {who : Id → Id → Prop} {workspaceId actorId : Id}

theorem signed_comment {c : CommentRow} (h : who workspaceId c.userId) : (Model.row c).Signed who :=
  ⟨workspaceId, h⟩

theorem signed_attachment {a : AttachmentRow} (h : who workspaceId a.uploadedById) :
    (Model.row a).Signed who :=
  ⟨workspaceId, h⟩

section Acting

variable (hwho : who workspaceId actorId)

include hwho

/-! ## `CommentService` -/

omit hwho in
theorem within_notifyMentioned {input : MentionBatchInput} (h : who input.workspaceId input.actorId) :
    (CommentService.notifyMentioned input).Within (conduct who).footprint := by
  have hbatch : (NotificationService.createMentionBatch input).Within (conduct who).footprint := by
    simp only [NotificationService.createMentionBatch]
    split
    · trivial
    · refine fun now => within_withIds (P := fun n => (Model.row n).Signed who) (fun userId hu i => ?_)
        fun data hdata => within_createMany hdata
      -- the recipients are those mentioned, without the author
      have hne : userId ≠ input.actorId := of_decide_eq_true (List.mem_filter.mp hu).2
      exact ⟨input.actorId, h, fun heq => hne heq.symm⟩
  unfold CommentService.notifyMentioned
  split
  · trivial
  · exact hbatch.bind fun _ => trivial

theorem limited_emitUnreadChanged (userIds : List Id) :
    (NotificationService.emitUnreadChanged workspaceId userIds).Limited (conducted who) fun _ => True := by
  have heach : ∀ ids : List Id, (NotificationService.emitEach workspaceId ids).Limited (conducted who)
      fun _ => True := by
    intro ids
    induction ids with
    | nil => trivial
    | cons userId rest ih =>
      have htell : Tells who (.toUser workspaceId userId) := ⟨actorId, hwho⟩
      exact (Call.limited_publish htell).bind fun _ _ => ih
  exact heach _

theorem limited_createComment (taskId : Id) (dto : CreateCommentDto) :
    (CommentService.create workspaceId taskId actorId dto).Limited (conducted who) fun _ => True := by
  have hmembers : ∀ ids, (CommentService.mentionedMembers workspaceId ids).Within
      (conduct who).footprint := by
    intro ids
    unfold CommentService.mentionedMembers
    split
    · trivial
    · exact (within_query _).bind fun _ => trivial
  have hbody : ∀ task ids, (CommentService.createBody workspaceId taskId actorId task ids dto).Within
      (conduct who).footprint := fun task ids _ _ =>
    (within_create (signed_comment hwho)).bind fun _ => (within_query _).bind fun _ =>
      (within_orThrow _ _).bind fun _ => (hmembers ids).bind fun _ => (within_record hwho).bind fun _ =>
        (within_notifyMentioned hwho).bind fun _ => trivial
  exact (within_findTaskBasic workspaceId taskId).auto.bind fun _ _ => (hbody _ _).transaction.bind fun _ _ =>
    (limited_emitUnreadChanged hwho _).bind fun _ _ => (Call.limited_publish hwho).bind fun _ _ => trivial

omit hwho in
theorem limited_removeComment (commentId : Id) (role : MemberRole) :
    (CommentService.remove workspaceId commentId actorId role).Limited (conducted who) fun _ => True := by
  refine Tx.Within.transaction ?_
  exact (within_query _).bind fun _ => (within_orThrow _ _).bind fun _ => (within_throwIf _ _).bind fun _ =>
    (within_remove (R := CommentRow) rfl).bind fun _ => within_throwIf _ _

/-! ## `AttachmentService` -/

omit hwho in
theorem within_findAttachmentTask {F : Footprint kurul} (taskId : Id) :
    (AttachmentService.findTask workspaceId taskId).Within F :=
  (within_query _).bind fun _ => within_orThrow _ _

theorem limited_announce (boardId taskId : Id) :
    (AttachmentService.announce workspaceId boardId taskId actorId).Limited (conducted who) fun _ => True :=
  Call.limited_publish hwho

theorem within_entry (taskId : Id) (type : ActivityType) (row : AttachmentRow) :
    (ActivityService.record (AttachmentService.entry workspaceId taskId actorId type row)).Within
      (conduct who).footprint :=
  within_record hwho

theorem limited_createLink (rt : Runtime) (taskId : Id) (dto : AttachmentService.CreateAttachmentDto) :
    (AttachmentService.createLink rt workspaceId taskId actorId dto).Limited (conducted who)
      fun _ => True := by
  have hbody : ∀ taskId url, (AttachmentService.createLinkBody workspaceId taskId actorId dto url).Within
      (conduct who).footprint := fun taskId url _ _ =>
    (within_create (signed_attachment hwho)).bind fun _ =>
      (within_entry hwho taskId .attachmentCreated _).bind fun _ => trivial
  exact (within_findAttachmentTask taskId).auto.bind fun _ _ => (within_check _).auto.bind fun _ _ =>
    (hbody _ _).transaction.bind fun _ _ => (limited_announce hwho _ _).bind fun _ _ => trivial

theorem limited_createFile (accepted : Except ApiError JsString) (written : Except ApiError Unit) (taskId : Id)
    (file : AttachmentService.UploadedFile) :
    (AttachmentService.createFile accepted written workspaceId taskId actorId file).Limited (conducted who)
      fun _ => True := by
  have hbody : ∀ taskId mimeType id, (AttachmentService.createFileBody workspaceId taskId actorId file mimeType
      id).Within (conduct who).footprint := fun taskId _ _ _ =>
    (within_create (signed_attachment hwho)).bind fun _ =>
      (within_entry hwho taskId .attachmentCreated _).bind fun _ => trivial
  have hfresh : (Tx.fresh : Tx kurul Id).Within (conduct who).footprint := fun _ => trivial
  exact (within_findAttachmentTask taskId).auto.bind fun _ _ => (within_check _).auto.bind fun _ _ =>
    hfresh.auto.bind fun _ _ => (within_check _).auto.bind fun _ _ => (hbody _ _ _).transaction.bind fun _ _ =>
      (limited_announce hwho _ _).bind fun _ _ => trivial

theorem limited_removeAttachment (attachmentId : Id) :
    (AttachmentService.remove workspaceId attachmentId actorId).Limited (conducted who) fun _ => True := by
  have hfound : (AttachmentService.requireAttachment workspaceId attachmentId).Within
      (conduct who).footprint := (within_query _).bind fun _ => within_orThrow _ _
  have hbody : ∀ row, (AttachmentService.removeBody workspaceId attachmentId actorId row).Within
      (conduct who).footprint := fun row =>
    (within_remove (R := AttachmentRow) rfl).bind fun _ => (within_throwIf _ _).bind fun _ =>
      (within_entry hwho _ .attachmentDeleted row).bind fun _ => trivial
  exact hfound.auto.bind fun _ _ => (hbody _).transaction.bind fun _ _ => limited_announce hwho _ _

/-! ## `NotificationService` -/

/-- A user's own notification is read. -/
theorem becomes_readNow {n : NotificationRow} (now : Instant) (hw : n.workspaceId = workspaceId)
    (hu : n.userId = actorId) :
    (Model.row n).Becomes who (Model.row ((NotificationService.readNow now).apply n)) :=
  ⟨rfl, .inl rfl, .inr ⟨rfl, n.workspaceId, n.userId, rfl, hw ▸ hu ▸ hwho⟩⟩

theorem limited_markRead (notificationId : Id) :
    (NotificationService.markRead workspaceId actorId notificationId).Limited (conducted who)
      fun _ => True := by
  have hbody : (NotificationService.markReadBody workspaceId actorId notificationId).Within
      (conduct who).footprint := by
    refine (within_query _).bind fun _ => (within_orThrow _ _).bind fun _ => ?_
    split
    · trivial
    · refine fun now => (within_change fun _ n hn => ?_).bind fun _ => trivial
      simp only [NotificationService.ownWhere, Bool.and_eq_true, decide_eq_true_eq] at hn
      exact becomes_readNow hwho now hn.1.2 hn.2
  exact hbody.transaction.bind fun done _ => (limited_signalIf hwho done.2 actorId).bind fun _ _ => trivial

theorem limited_markAllRead :
    (NotificationService.markAllRead workspaceId actorId).Limited (conducted who) fun _ => True := by
  have hwrite : (Tx.now >>= fun now =>
      updateMany (fun _ => NotificationService.unreadWhere workspaceId actorId)
        (NotificationService.readNow now)).Within (conduct who).footprint := by
    refine fun now => within_changeMany fun _ n hn => ?_
    simp only [NotificationService.unreadWhere, Bool.and_eq_true, decide_eq_true_eq] at hn
    exact becomes_readNow hwho now hn.1.1 hn.1.2
  exact hwrite.auto.bind fun count _ => (limited_signalIf hwho _ actorId).bind fun _ _ => trivial

/-! ## `TrelloImportService` -/

omit hwho in
theorem within_forEach {T : Type} {f : T → Tx kurul Unit} (items : List T) {F : Footprint kurul}
    (hf : ∀ item ∈ items, (f item).Within F) : (forEach f items).Within F := by
  induction items with
  | nil => trivial
  | cons item rest ih =>
    exact (hf item List.mem_cons_self).bind fun _ => ih fun i hi => hf i (List.mem_cons_of_mem _ hi)

omit hwho in
theorem mem_of_mem_chunk {T : Type} {rows chunk : List T} (h : chunk ∈ chunked rows importChunkSize) {t : T}
    (ht : t ∈ chunk) : t ∈ rows := by
  have hsize : 0 < importChunkSize := by decide
  rw [← chunked_flatten rows hsize]
  exact List.mem_flatten_of_mem h ht

omit hwho in
theorem within_createChunks {T R : Type} [Model R] (row : T → R) (rows : List T)
    (h : ∀ t ∈ rows, (Model.row (row t)).Signed who) :
    (createChunks row rows).Within (conduct who).footprint :=
  within_forEach _ fun chunk hchunk => (within_createMany fun r hr => by
    obtain ⟨t, ht, rfl⟩ := List.mem_map.mp hr
    exact h t (mem_of_mem_chunk hchunk ht)).bind fun _ => trivial

/-- Tasks and links of a plan are those of the user who imports it. -/
theorem within_writePlan {rt : Runtime} {read : TrelloExportReadResult} {plan : TrelloImportPlan}
    (p : Planned rt actorId read plan) (now : Instant) :
    (writePlan workspaceId now plan).Within (conduct who).footprint := by
  have htask : ∀ t ∈ plan.tasks, (Model.row (t.row now)).Signed who := by
    intro t ht
    rw [p.tasks_eq] at ht
    obtain ⟨part, _, rfl⟩ := List.mem_map.mp ht
    have hcreator : who workspaceId part.task.createdById := by rw [part.creator]; exact hwho
    exact ⟨workspaceId, hcreator⟩
  have hlink : ∀ a ∈ plan.attachments, (Model.row (a.row now)).Signed who := by
    intro a ha
    rw [p.attachments_eq] at ha
    obtain ⟨part, _, ha⟩ := List.mem_flatMap.mp ha
    have huploader : who workspaceId a.uploadedById := by rw [(part.links a ha).uploader]; exact hwho
    exact ⟨workspaceId, huploader⟩
  have hlabels : (createLabelChunks plan.labels).Within (conduct who).footprint :=
    within_forEach _ fun chunk _ => (within_throwIf _ _).bind fun _ => (within_createMany fun l _ =>
      signed_label l).bind fun _ => trivial
  refine (within_create (signed_board hwho)).bind fun _ => ?_
  refine (within_createChunks PlannedColumn.row plan.columns fun c _ => signed_column _).bind fun _ => ?_
  refine hlabels.bind fun _ => ?_
  refine (within_createChunks (PlannedTask.row now) plan.tasks htask).bind fun _ => ?_
  refine (within_createChunks (R := TaskLabelRow) id plan.taskLabels fun l _ => signed_taskLabel l).bind
    fun _ => ?_
  refine (within_createChunks (R := ChecklistRow) id plan.checklists fun c _ => signed_checklist c).bind
    fun _ => ?_
  refine (within_createChunks (R := ChecklistItemRow) id plan.checklistItems fun i _ =>
    signed_checklistItem i).bind fun _ => ?_
  exact within_createChunks (PlannedAttachment.row now) plan.attachments hlink

theorem limited_importBoard (rt : Runtime) {uuidv7 : Nat → Id} (hinj : Function.Injective uuidv7)
    (parsed : Option Json) :
    (importBoard rt uuidv7 workspaceId actorId parsed).Limited (conducted who) fun _ => True := by
  unfold importBoard
  cases parseTrelloExport parsed with
  | error e => trivial
  | ok read =>
    obtain ⟨p⟩ : Nonempty (Planned rt actorId read _) := planned hinj read
    have hbody : (importBody workspaceId actorId (planTrelloImport rt uuidv7 actorId read)).Within
        (conduct who).footprint := fun now =>
      (within_writePlan hwho p now).bind fun _ => (within_record hwho).bind fun _ => trivial
    exact hbody.transaction.bind fun _ _ => trivial

/-! ## `UsagePingService` -/

theorem limited_recordQuietly (kind : UsagePingKind) :
    (UsagePingService.recordQuietly actorId workspaceId kind).Limited (conducted who) fun _ => True := by
  have hrecord : (UsagePingService.record actorId workspaceId kind).Within (conduct who).footprint := by
    refine fun now i t => (within_createManySkipping fun r hr => ?_).bind fun _ => trivial
    rw [List.mem_singleton.mp hr]
    exact hwho
  exact hrecord.auto.tryCatch fun _ => trivial

end Acting
end Kurul
