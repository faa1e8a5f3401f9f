import Kurul.Task.Checklists
import Kurul.Tenancy.Scopes

/-!
# Kurul.Tenancy.Checklists

Requests for checklists and their items stay with the workspace.
-/

namespace Kurul
namespace Homes

open Sql TaskReadService

variable {H : Homes} {workspaceId : Id} {db : Db}

instance : Listed ChecklistRow where
  owner := .task
  ref _ := List.mem_cons_self
  refs_set _ _ := rfl
  not_workspace := by decide

instance : Listed ChecklistItemRow where
  owner := .checklist
  ref _ := List.mem_cons_self
  refs_set _ _ := rfl
  not_workspace := by decide

/-- A row that names one row of the workspace and nothing else but users. -/
theorem of_new_under {R : Type} [Model R] {r : R} {up : Key} (hi : H.Draws workspaceId (Model.id r))
    (hpersonal : (Model.table R).personal = false) (hworkspace : Model.table R ≠ .workspace)
    (hup : H.home up = some workspaceId)
    (hrefs : ∀ x ∈ (Model.row r).refs, x.1 = up ∨ x.1.table = .user) : H.Of workspaceId r :=
  of_new hi hpersonal hworkspace fun x hx hne => (hrefs x hx).elim (fun h => h ▸ hup) (absurd · hne)

/-! ## Lists -/

section Lists

variable {R : Type} [Model R] [Placed R] [Listed R] {listId : Id}
  (hlist : H.home ⟨Listed.owner R, listId⟩ = some workspaceId)

include hlist

theorem byPosition_view (hdb : H.tenants.Lawful db) :
    byPosition R (H.view workspaceId db) listId = byPosition R db listId := by
  rw [byPosition, byPosition, listed_view hlist hdb]

theorem stays_endPosition : (query fun db => endPosition R db listId).Stays H.tenants workspaceId
    fun _ => True :=
  stays_read fun _ hdb => by rw [endPosition, endPosition, byPosition_view hlist hdb]

/-- The rows of a list of the workspace are its own. -/
theorem stays_siblingsByPosition :
    (query fun db => siblingsByPosition R db listId).Stays H.tenants workspaceId
      fun l => ∀ s ∈ l, H.home ⟨Model.table R, s.id⟩ = some workspaceId := by
  refine stays_query fun db hdb => ?_
  rw [siblingsByPosition, siblingsByPosition, byPosition_view hlist hdb]
  refine ⟨rfl, fun s hs => ?_⟩
  obtain ⟨r, hr, rfl⟩ := List.mem_map.mp hs
  obtain ⟨hmem, hl⟩ := List.mem_filter.mp ((sortBy_perm _ _).mem_iff.mp hr)
  exact home_of_ref hdb hmem (Listed.ref r) (by rw [of_decide_eq_true hl]; exact hlist)

omit hlist in
theorem stays_writeSlot {siblings : List Sibling} {id : Id} {afterId : Option Id} {notFound : JsString}
    (hid : H.home ⟨Model.table R, id⟩ = some workspaceId) :
    (writeSlot R siblings id afterId notFound).Stays H.tenants workspaceId fun _ => True := by
  refine (stays_orThrow fun _ _ => trivial).auto.bind fun slot (_ : True) => ?_
  have hupdate := stays_update Listed.not_workspace
    (scoped_byId (R := R) hid fun r hr => of_decide_eq_true hr)
    fun r hr => homed_setPosition hr (slotPosition slot)
  exact hupdate.auto.bind fun _ _ => trivial

end Lists

/-! ## `ChecklistService` -/

theorem stays_createChecklist (workspaceId taskId actorId : Id) (dto : CreateChecklistDto) :
    (ChecklistService.create workspaceId taskId actorId dto).Stays H.tenants workspaceId
      fun _ => True := by
  refine (stays_findTaskBasic workspaceId taskId).auto.bind fun task ht => ?_
  have htask : H.home ⟨.task, task.id⟩ = some workspaceId := ht.home
  have hbody : (ChecklistService.createBody task.id dto).Stays H.tenants workspaceId fun _ => True := by
    refine (stays_lockRow htask).bind fun _ _ => ?_
    refine (stays_endPosition (R := ChecklistRow) htask).bind fun position _ => ?_
    refine Tx.Stays.fresh.bind fun i hi => ?_
    have hnew : H.Of workspaceId (⟨i, task.id, dto.title, position⟩ : ChecklistRow) :=
      of_new_under hi rfl (by decide) htask fun x hx => by simp_all [Model.row, Row.refs]
    exact (stays_create (by decide) hnew).bind fun _ _ => trivial
  exact hbody.transaction.bind fun _ _ => stays_emitUpdated workspaceId taskId actorId

theorem scoped_checklistScope (workspaceId taskId checklistId : Id) :
    H.Scoped workspaceId (ChecklistService.checklistScope workspaceId taskId checklistId) :=
  .of_ref (fun c => ⟨.task, c.taskId⟩) (fun _ => List.mem_cons_self)
    (fun _ hdb _ h => home_of_onTaskOf hdb (Bool.and_eq_true_iff.mp h).2)
    fun _ hdb c => by
      rw [ChecklistService.checklistScope, ChecklistService.checklistScope, onTaskOf_view hdb]

theorem stays_updateChecklist (workspaceId taskId actorId checklistId : Id) (dto : UpdateChecklistDto) :
    (ChecklistService.update workspaceId taskId actorId checklistId dto).Stays H.tenants workspaceId
      fun _ => True :=
  (stays_findTaskBasic workspaceId taskId).auto.bind fun _ _ =>
    (stays_updateMany (by decide) (scoped_checklistScope workspaceId taskId checklistId)
      fun _ hc => hc.2).auto.bind fun _ _ =>
        stays_throwIf.auto.bind fun _ _ => stays_emitUpdated workspaceId taskId actorId

theorem stays_removeChecklist (workspaceId taskId actorId checklistId : Id) :
    (ChecklistService.remove workspaceId taskId actorId checklistId).Stays H.tenants workspaceId
      fun _ => True :=
  (stays_findTaskBasic workspaceId taskId).auto.bind fun _ _ =>
    (stays_deleteMany (scoped_checklistScope workspaceId taskId checklistId)).auto.bind fun _ _ =>
      stays_throwIf.auto.bind fun _ _ => stays_emitUpdated workspaceId taskId actorId

theorem stays_moveChecklist (workspaceId taskId actorId checklistId : Id) (dto : MoveChecklistDto) :
    (ChecklistService.move workspaceId taskId actorId checklistId dto).Stays H.tenants workspaceId
      fun _ => True := by
  refine (stays_findTaskBasic workspaceId taskId).auto.bind fun task ht => ?_
  have htask : H.home ⟨.task, taskId⟩ = some workspaceId := ht.taskId ▸ ht.home
  refine (stays_siblingsByPosition (R := ChecklistRow) htask).auto.bind fun siblings hsiblings => ?_
  refine stays_throwIf.auto.bind fun _ hany => ?_
  -- the row that is written is one of those just read
  rw [Bool.not_eq_eq_eq_not, Bool.not_false] at hany
  obtain ⟨s, hs, hid⟩ := List.any_eq_true.mp hany
  have hsid : s.id = checklistId := of_decide_eq_true hid
  have hhome : H.home ⟨.checklist, checklistId⟩ = some workspaceId := hsid ▸ hsiblings s hs
  exact (stays_writeSlot hhome).bind fun _ _ => stays_emitUpdated workspaceId taskId actorId

/-! ## `ChecklistItemService` -/

theorem stays_createItem (workspaceId taskId actorId checklistId : Id) (dto : CreateChecklistItemDto) :
    (ChecklistItemService.create workspaceId taskId actorId checklistId dto).Stays H.tenants workspaceId
      fun _ => True := by
  refine (stays_findTaskBasic workspaceId taskId).auto.bind fun _ _ => ?_
  refine (stays_findFirst (scoped_checklistScope workspaceId taskId checklistId)).auto.bind fun _ ho => ?_
  refine (stays_orThrow ho).auto.bind fun checklist hc => ?_
  have hchecklist : H.home ⟨.checklist, checklistId⟩ = some workspaceId := by
    obtain ⟨db, _, _, hasked⟩ := hc.asked
    have hid : checklist.id = checklistId :=
      of_decide_eq_true (Bool.and_eq_true_iff.mp (Bool.and_eq_true_iff.mp hasked).1).1
    exact hid ▸ hc.home
  have hbody : (ChecklistItemService.createBody checklistId dto).Stays H.tenants workspaceId
      fun _ => True := by
    refine (stays_lockRow hchecklist).bind fun _ _ => ?_
    refine (stays_endPosition (R := ChecklistItemRow) hchecklist).bind fun position _ => ?_
    refine Tx.Stays.fresh.bind fun i hi => ?_
    have hnew : H.Of workspaceId (⟨i, checklistId, dto.content, false, position⟩ : ChecklistItemRow) :=
      of_new_under hi rfl (by decide) hchecklist fun x hx => by simp_all [Model.row, Row.refs]
    exact (stays_create (by decide) hnew).bind fun _ _ => trivial
  exact hbody.transaction.bind fun _ _ => stays_emitUpdated workspaceId taskId actorId

section ItemScope

open ChecklistItemService (itemScope)

theorem home_of_itemScope (hdb : H.tenants.Lawful db) {taskId itemId : Id} {item : ChecklistItemRow}
    (h : itemScope workspaceId taskId itemId db item = true) :
    H.home ⟨.checklist, item.checklistId⟩ = some workspaceId := by
  obtain ⟨c, hc, hp⟩ := (Option.any_eq_true _ _).mp (Bool.and_eq_true_iff.mp h).2
  obtain ⟨hmem, hid⟩ := byId_eq_some.mp hc
  rw [← hid]
  exact home_of_ref hdb hmem (k := ⟨.task, c.taskId⟩) (a := .cascade) List.mem_cons_self
    (home_of_onTaskOf hdb (Bool.and_eq_true_iff.mp hp).2)

theorem scoped_itemScope (workspaceId taskId itemId : Id) :
    H.Scoped workspaceId (itemScope workspaceId taskId itemId) := by
  refine .of_ref (fun i => ⟨.checklist, i.checklistId⟩) (fun _ => List.mem_cons_self)
    (fun _ hdb _ h => home_of_itemScope hdb h) fun db hdb item => ?_
  by_cases h : H.home ⟨.checklist, item.checklistId⟩ = some workspaceId
  · simp only [itemScope, byId_view (R := ChecklistRow) h, onTaskOf_view hdb]
  · rw [Bool.eq_false_iff.mpr fun hb => h (home_of_itemScope hdb hb),
      Bool.eq_false_iff.mpr fun hb => h (home_of_itemScope hdb.view hb)]

theorem Found.itemId {taskId itemId : Id} {item : ChecklistItemRow}
    (h : H.Found workspaceId (itemScope workspaceId taskId itemId) item) :
    H.home ⟨.checklistItem, itemId⟩ = some workspaceId := by
  obtain ⟨db, _, _, hp⟩ := h.asked
  have hid : item.id = itemId := of_decide_eq_true (Bool.and_eq_true_iff.mp hp).1
  exact hid ▸ h.home

end ItemScope

theorem stays_updateItem (workspaceId taskId actorId itemId : Id) (dto : UpdateChecklistItemDto) :
    (ChecklistItemService.update workspaceId taskId actorId itemId dto).Stays H.tenants workspaceId
      fun _ => True := by
  have hp := scoped_itemScope (H := H) workspaceId taskId itemId
  refine (stays_findTaskBasic workspaceId taskId).auto.bind fun _ _ => ?_
  split
  · refine (stays_findFirst hp).auto.bind fun _ ho => (stays_orThrow ho).auto.bind fun _ _ => ?_
    exact (stays_findTask workspaceId taskId).auto.bind fun _ _ => trivial
  · refine (stays_updateMany (by decide) hp fun _ hi => hi.2).auto.bind fun _ _ => ?_
    exact stays_throwIf.auto.bind fun _ _ => stays_emitUpdated workspaceId taskId actorId

theorem stays_removeItem (workspaceId taskId actorId itemId : Id) :
    (ChecklistItemService.remove workspaceId taskId actorId itemId).Stays H.tenants workspaceId
      fun _ => True :=
  (stays_findTaskBasic workspaceId taskId).auto.bind fun _ _ =>
    (stays_deleteMany (scoped_itemScope workspaceId taskId itemId)).auto.bind fun _ _ =>
      stays_throwIf.auto.bind fun _ _ => stays_emitUpdated workspaceId taskId actorId

theorem stays_moveItem (workspaceId taskId actorId itemId : Id) (dto : MoveChecklistItemDto) :
    (ChecklistItemService.move workspaceId taskId actorId itemId dto).Stays H.tenants workspaceId
      fun _ => True := by
  refine (stays_findTaskBasic workspaceId taskId).auto.bind fun _ _ => ?_
  refine (stays_findFirst (scoped_itemScope workspaceId taskId itemId)).auto.bind fun _ ho => ?_
  refine (stays_orThrow ho).auto.bind fun owner howner => ?_
  have hlist : H.home ⟨.checklist, owner.checklistId⟩ = some workspaceId :=
    howner.row.ref (k := ⟨.checklist, owner.checklistId⟩) List.mem_cons_self (by simp)
  refine (stays_siblingsByPosition (R := ChecklistItemRow) hlist).auto.bind fun siblings _ => ?_
  refine (stays_writeSlot (R := ChecklistItemRow) howner.itemId).bind fun _ _ => ?_
  exact stays_emitUpdated workspaceId taskId actorId

end Homes
end Kurul
