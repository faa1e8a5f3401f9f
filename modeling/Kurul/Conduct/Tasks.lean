import Kurul.Conduct.Boards
import Kurul.Task.Checklists
import Kurul.Task.TaskAssignee
import Kurul.Task.TaskLabel
import Kurul.Task.TaskService

/-!
# Kurul.Conduct.Tasks

Tasks, their assignees and labels, their checklists: each request keeps to the rules.
-/

namespace Kurul

open Sql

variable {who : Id → Id → Prop} {workspaceId actorId : Id}

theorem limited_conflict {α : Type} {L : Limits kurul} {write : Call kurul α} {message : JsString}
    (h : write.Limited L fun _ => True) :
    (conflictOnUniqueViolation write message).Limited L fun _ => True := by
  refine h.tryCatch fun e => ?_
  split <;> trivial

theorem limited_signalIf (hwho : who workspaceId actorId) (changed : Bool) (userId : Id) :
    (NotificationService.signalIf changed workspaceId userId).Limited (conducted who) fun _ => True := by
  cases changed with
  | false => trivial
  | true =>
    have htell : Tells who (.toUser workspaceId userId) := ⟨actorId, hwho⟩
    exact (Call.limited_publish htell).bind fun _ _ => trivial

section Checked

theorem signed_taskAssignee (a : TaskAssigneeRow) : (Model.row a).Signed who := trivial

theorem signed_taskLabel (l : TaskLabelRow) : (Model.row l).Signed who := trivial

theorem signed_checklist (c : ChecklistRow) : (Model.row c).Signed who := trivial

theorem signed_checklistItem (i : ChecklistItemRow) : (Model.row i).Signed who := trivial

theorem signed_task {t : TaskRow} (h : who workspaceId t.createdById) : (Model.row t).Signed who :=
  ⟨workspaceId, h⟩

instance : Movable ChecklistRow := ⟨fun _ _ => rfl, fun _ _ => rfl, fun _ _ => rfl⟩

instance : Movable ChecklistItemRow := ⟨fun _ _ => rfl, fun _ _ => rfl, fun _ _ => rfl⟩

end Checked

/-- Nobody is notified of what they did themselves. -/
theorem within_createNotification (type : NotificationType) {input : CreateNotificationInput}
    (h : who input.workspaceId input.actorId) :
    (NotificationService.create type input).Within (conduct who).footprint := by
  unfold NotificationService.create
  split
  · trivial
  · rename_i hne
    have hsigned : ∀ n : NotificationRow, n.workspaceId = input.workspaceId → n.userId = input.userId →
        (Model.row n).Signed who := by
      intro n hw hu
      refine ⟨input.actorId, hw ▸ h, ?_⟩
      rw [hu]
      exact fun heq => hne heq.symm
    exact fun _ _ => (within_create (hsigned _ rfl rfl)).bind fun _ => trivial

section Acting

variable (hwho : who workspaceId actorId)

include hwho

/-! ## `TaskService` -/

theorem limited_createTask (rt : Runtime) (boardId : Id) (dto : CreateTaskDto) :
    (TaskService.create rt workspaceId boardId actorId dto).Limited (conducted who) fun _ => True := by
  have hcolumn : (TaskService.findColumnOnBoard workspaceId boardId dto.columnId).Within
      (conduct who).footprint := (TaskService.readOnly_findColumnOnBoard _ _ _).within
  have hbody : ∀ column attributes, (TaskService.createBody workspaceId boardId actorId column attributes
      dto.afterTaskId).Within (conduct who).footprint := fun column attributes =>
    (within_lockRow _).bind fun _ => (within_query _).bind fun _ => (within_check _).bind fun _ =>
      (within_makeRoom TaskRow _ _ _).bind fun _ _ _ => (within_create (signed_task hwho)).bind fun _ =>
        (within_record hwho).bind fun _ => trivial
  exact (within_assertBoard workspaceId boardId).auto.bind fun _ _ => hcolumn.auto.bind fun _ _ =>
    (within_check _).auto.bind fun _ _ => (hbody _ _).transaction.bind fun _ _ =>
      (Call.limited_publish hwho).bind fun _ _ => trivial

theorem limited_updateTask (rt : Runtime) (taskId : Id) (dto : UpdateTaskDto) :
    (TaskService.update rt workspaceId taskId actorId dto).Limited (conducted who) fun _ => True := by
  have hbody : ∀ plan, (TaskService.updateBody workspaceId taskId actorId plan).Within
      (conduct who).footprint := fun plan =>
    (within_query _).bind fun _ => (within_orThrow _ _).bind fun _ now =>
      (within_change fun _ _ _ => ⟨rfl, .inl rfl, .inl rfl⟩).bind fun _ => (within_query _).bind fun _ =>
        (within_record hwho).bind fun _ => (within_query _).bind fun _ => trivial
  refine (within_findTask workspaceId taskId).auto.bind fun _ _ => (within_check _).auto.bind fun plan _ => ?_
  split
  · trivial
  · exact (hbody plan).transaction.bind fun _ _ => (Call.limited_publish hwho).bind fun _ _ => trivial

theorem limited_removeTask (taskId : Id) :
    (TaskService.remove workspaceId taskId actorId).Limited (conducted who) fun _ => True := by
  have hbody : (TaskService.removeBody workspaceId taskId actorId).Within (conduct who).footprint :=
    (within_query _).bind fun _ => (within_orThrow _ _).bind fun _ => (within_record hwho).bind fun _ =>
      (within_remove (R := TaskRow) rfl).bind fun _ => (within_throwIf _ _).bind fun _ => trivial
  exact hbody.transaction.bind fun _ _ => Call.limited_publish hwho

omit hwho in
theorem within_placeTask (taskId columnId : Id) (task : TaskDetailRow) (remaining : List Sibling)
    (slot : InsertionSlot Sibling) (n : Nat) :
    (TaskService.place workspaceId taskId task columnId remaining slot n).Within (conduct who).footprint := by
  have hmove : ∀ p, (TaskService.writeMove workspaceId taskId columnId p).Within (conduct who).footprint :=
    fun p now => within_change fun _ _ _ => ⟨rfl, .inl rfl, .inl rfl⟩
  simp only [TaskService.place]
  split
  · exact (hmove _).bind fun _ => (within_batchUpdatePositions TaskRow _ _).bind fun _ _ => trivial
  · exact (hmove _).bind fun _ => (within_query _).bind fun _ => trivial

theorem limited_moveTask (taskId : Id) (dto : MoveTaskDto) :
    (TaskService.move workspaceId taskId actorId dto).Limited (conducted who) fun _ => True := by
  have hfrom : ∀ task column, (TaskService.fromColumn task column).Within (conduct who).footprint := by
    intro task column
    simp only [TaskService.fromColumn]
    split
    · trivial
    · exact within_query _
  have hbody : (TaskService.moveBody workspaceId taskId actorId dto).Within (conduct who).footprint :=
    (within_query _).bind fun _ => (within_orThrow _ _).bind fun _ => (within_throwIf _ _).bind fun _ =>
      (within_query _).bind fun _ => (within_orThrow _ _).bind fun _ => (within_throwIf _ _).bind fun _ =>
        (hfrom _ _).bind fun _ => (within_lockRow _).bind fun _ => (within_query _).bind fun _ =>
          (within_check _).bind fun _ => (within_query _).bind fun _ =>
            (within_placeTask taskId _ _ _ _ _).bind fun _ => (within_record hwho).bind fun _ => trivial
  exact hbody.transaction.bind fun _ _ => (Call.limited_publish hwho).bind fun _ _ => trivial

theorem limited_emitUpdated (taskId : Id) :
    (TaskEventsService.emitUpdated workspaceId taskId actorId).Limited (conducted who) fun _ => True :=
  (within_findTask workspaceId taskId).auto.bind fun _ _ => (Call.limited_publish hwho).bind fun _ _ => trivial

/-! ## `TaskAssigneeService` -/

theorem limited_addAssignee (taskId : Id) (dto : TaskAssigneeService.AddAssigneeDto) :
    (TaskAssigneeService.addAssignee workspaceId taskId actorId dto).Limited (conducted who)
      fun _ => True := by
  have hchecks : (TaskAssigneeService.addAssigneeChecks workspaceId taskId dto).Within
      (conduct who).footprint :=
    (within_findTaskBasic workspaceId taskId).bind fun _ => (within_query _).bind fun _ =>
      (within_orThrow _ _).bind fun _ => trivial
  have hbody : ∀ task, (TaskAssigneeService.addAssigneeBody workspaceId actorId task dto).Within
      (conduct who).footprint := fun task _ =>
    (within_create (signed_taskAssignee _)).bind fun _ => (within_record hwho).bind fun _ =>
      (within_createNotification .assignment hwho).bind fun _ => trivial
  exact hchecks.auto.bind fun _ _ => (limited_conflict (hbody _).transaction).bind fun notified _ =>
    (limited_signalIf hwho notified dto.userId).bind fun _ _ => limited_emitUpdated hwho taskId

theorem limited_removeAssignee (taskId assigneeUserId : Id) :
    (TaskAssigneeService.removeAssignee workspaceId taskId actorId assigneeUserId).Limited (conducted who)
      fun _ => True := by
  have hbody : ∀ task, (TaskAssigneeService.removeAssigneeBody workspaceId taskId actorId assigneeUserId
      task).Within (conduct who).footprint := fun task =>
    (within_remove (R := TaskAssigneeRow) rfl).bind fun _ => (within_throwIf _ _).bind fun _ =>
      (within_record hwho).bind fun _ => trivial
  exact (within_findTaskBasic workspaceId taskId).auto.bind fun _ _ => (hbody _).transaction.bind fun _ _ =>
    limited_emitUpdated hwho taskId

/-! ## `TaskLabelService` -/

theorem limited_addLabel (taskId : Id) (dto : TaskLabelService.AddTaskLabelDto) :
    (TaskLabelService.addLabel workspaceId taskId actorId dto).Limited (conducted who) fun _ => True := by
  have hchecks : (TaskLabelService.addLabelChecks workspaceId taskId dto).Within (conduct who).footprint :=
    (within_findTaskBasic workspaceId taskId).bind fun _ => (within_query _).bind fun _ =>
      (within_orThrow _ _).bind fun _ => trivial
  have hrow : ∀ taskId labelId, (TaskLabelService.createRow taskId labelId).Within (conduct who).footprint :=
    fun _ _ _ => within_create (signed_taskLabel _)
  exact hchecks.auto.bind fun _ _ => (limited_conflict (hrow _ _).auto).bind fun _ _ =>
    limited_emitUpdated hwho taskId

theorem limited_removeLabel (taskId labelId : Id) :
    (TaskLabelService.removeLabel workspaceId taskId actorId labelId).Limited (conducted who)
      fun _ => True := by
  have hremove : (deleteMany (TaskLabelService.taskLabelScope workspaceId taskId labelId)).Within
      (conduct who).footprint := within_remove rfl
  exact (within_findTaskBasic workspaceId taskId).auto.bind fun _ _ => hremove.auto.bind fun _ _ =>
    (within_throwIf _ _).auto.bind fun _ _ => limited_emitUpdated hwho taskId

/-! ## `ChecklistService` -/

omit hwho in
theorem limited_writeSlot (R : Type) [Model R] [Placed R] [Movable R] (siblings : List Sibling) (id : Id)
    (afterId : Option Id) (notFound : JsString) :
    (writeSlot R siblings id afterId notFound).Limited (conducted who) fun _ => True := by
  have hupdate : ∀ p, (update (fun _ (r : R) => Model.id r = id) (Placed.setPosition p)).Within
      (conduct who).footprint := fun p => within_change fun _ r _ => becomes_setPosition p r
  exact (within_orThrow _ _).auto.bind fun _ _ => (hupdate _).auto.bind fun _ _ => trivial

theorem limited_createChecklist (taskId : Id) (dto : CreateChecklistDto) :
    (ChecklistService.create workspaceId taskId actorId dto).Limited (conducted who) fun _ => True := by
  have hbody : ∀ taskId, (ChecklistService.createBody taskId dto).Within (conduct who).footprint :=
    fun _ => (within_lockRow _).bind fun _ => (within_query _).bind fun _ _ =>
      (within_create (signed_checklist _)).bind fun _ => trivial
  exact (within_findTaskBasic workspaceId taskId).auto.bind fun _ _ => (hbody _).transaction.bind fun _ _ =>
    limited_emitUpdated hwho taskId

theorem limited_updateChecklist (taskId checklistId : Id) (dto : UpdateChecklistDto) :
    (ChecklistService.update workspaceId taskId actorId checklistId dto).Limited (conducted who)
      fun _ => True := by
  have hupdate : (updateMany (ChecklistService.checklistScope workspaceId taskId checklistId)
      (ChecklistService.UpdateChecklistDto.patch dto)).Within (conduct who).footprint :=
    within_changeMany fun _ _ _ => ⟨rfl, .inl rfl, .inl rfl⟩
  exact (within_findTaskBasic workspaceId taskId).auto.bind fun _ _ => hupdate.auto.bind fun _ _ =>
    (within_throwIf _ _).auto.bind fun _ _ => limited_emitUpdated hwho taskId

theorem limited_removeChecklist (taskId checklistId : Id) :
    (ChecklistService.remove workspaceId taskId actorId checklistId).Limited (conducted who)
      fun _ => True := by
  have hremove : (deleteMany (ChecklistService.checklistScope workspaceId taskId checklistId)).Within
      (conduct who).footprint := within_remove rfl
  exact (within_findTaskBasic workspaceId taskId).auto.bind fun _ _ => hremove.auto.bind fun _ _ =>
    (within_throwIf _ _).auto.bind fun _ _ => limited_emitUpdated hwho taskId

theorem limited_moveChecklist (taskId checklistId : Id) (dto : MoveChecklistDto) :
    (ChecklistService.move workspaceId taskId actorId checklistId dto).Limited (conducted who)
      fun _ => True :=
  (within_findTaskBasic workspaceId taskId).auto.bind fun _ _ => (within_query _).auto.bind fun _ _ =>
    (within_throwIf _ _).auto.bind fun _ _ => (limited_writeSlot ChecklistRow _ _ _ _).bind fun _ _ =>
      limited_emitUpdated hwho taskId

/-! ## `ChecklistItemService` -/

theorem limited_createItem (taskId checklistId : Id) (dto : CreateChecklistItemDto) :
    (ChecklistItemService.create workspaceId taskId actorId checklistId dto).Limited (conducted who)
      fun _ => True := by
  have hbody : (ChecklistItemService.createBody checklistId dto).Within (conduct who).footprint :=
    (within_lockRow _).bind fun _ => (within_query _).bind fun _ _ =>
      (within_create (signed_checklistItem _)).bind fun _ => trivial
  exact (within_findTaskBasic workspaceId taskId).auto.bind fun _ _ => (within_query _).auto.bind fun _ _ =>
    (within_orThrow _ _).auto.bind fun _ _ => hbody.transaction.bind fun _ _ =>
      limited_emitUpdated hwho taskId

theorem limited_updateItem (taskId itemId : Id) (dto : UpdateChecklistItemDto) :
    (ChecklistItemService.update workspaceId taskId actorId itemId dto).Limited (conducted who)
      fun _ => True := by
  have hupdate : (updateMany (ChecklistItemService.itemScope workspaceId taskId itemId)
      (ChecklistItemService.UpdateChecklistItemDto.patch dto)).Within (conduct who).footprint :=
    within_changeMany fun _ _ _ => ⟨rfl, .inl rfl, .inl rfl⟩
  refine (within_findTaskBasic workspaceId taskId).auto.bind fun _ _ => ?_
  split
  · exact (within_query _).auto.bind fun _ _ => (within_orThrow _ _).auto.bind fun _ _ =>
      (within_findTask workspaceId taskId).auto.bind fun _ _ => trivial
  · exact hupdate.auto.bind fun _ _ => (within_throwIf _ _).auto.bind fun _ _ =>
      limited_emitUpdated hwho taskId

theorem limited_removeItem (taskId itemId : Id) :
    (ChecklistItemService.remove workspaceId taskId actorId itemId).Limited (conducted who)
      fun _ => True := by
  have hremove : (deleteMany (ChecklistItemService.itemScope workspaceId taskId itemId)).Within
      (conduct who).footprint := within_remove rfl
  exact (within_findTaskBasic workspaceId taskId).auto.bind fun _ _ => hremove.auto.bind fun _ _ =>
    (within_throwIf _ _).auto.bind fun _ _ => limited_emitUpdated hwho taskId

theorem limited_moveItem (taskId itemId : Id) (dto : MoveChecklistItemDto) :
    (ChecklistItemService.move workspaceId taskId actorId itemId dto).Limited (conducted who)
      fun _ => True :=
  (within_findTaskBasic workspaceId taskId).auto.bind fun _ _ => (within_query _).auto.bind fun _ _ =>
    (within_orThrow _ _).auto.bind fun _ _ => (within_query _).auto.bind fun _ _ =>
      (limited_writeSlot ChecklistItemRow _ _ _ _).bind fun _ _ => limited_emitUpdated hwho taskId

end Acting
end Kurul
