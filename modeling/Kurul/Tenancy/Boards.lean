import Kurul.Board.BoardService
import Kurul.Board.ColumnService
import Kurul.Board.LabelService
import Kurul.Tenancy.Checklists

/-!
# Kurul.Tenancy.Boards

Requests for boards, columns and labels stay with the workspace.
-/

namespace Kurul
namespace Homes

open Sql

variable {H : Homes} {workspaceId : Id} {db : Db}

/-! ## What users read in -/

/-- Every user is seen, so a preference is read as it is. -/
theorem stays_resolve (rt : Runtime) (userId : Id) (acceptLanguage : Option JsString) :
    (LocaleService.resolve rt (some userId) acceptLanguage).Stays H.tenants workspaceId
      fun _ => True := by
  have hread : (LocaleService.read rt userId).Stays H.tenants workspaceId fun _ => True := by
    refine (stays_read fun db _ => ?_).bind fun _ _ => trivial
    rw [rows_view_user]
  exact (hread.auto.tryCatch (f := fun _ => .ret none) fun _ => trivial).bind fun _ _ => trivial

/-! ## `BoardService` -/

theorem stays_listBoards (workspaceId : Id) :
    (BoardService.list workspaceId).Stays H.tenants workspaceId fun _ => True := by
  refine (stays_read fun db hdb => ?_).bind fun _ _ => trivial
  rw [filter_ref_view (k := ⟨.workspace, workspaceId⟩) (a := .cascade) hdb (H.workspace workspaceId)
    fun b hb => by simp [Model.row, Row.refs, of_decide_eq_true hb]]

theorem stays_getBoard (workspaceId boardId : Id) :
    (BoardService.get workspaceId boardId).Stays H.tenants workspaceId fun _ => True :=
  (stays_assertBoard workspaceId boardId).bind fun _ _ => trivial

theorem of_column {c : ColumnRow} (hi : H.Draws workspaceId c.id)
    (hboard : H.home ⟨.board, c.boardId⟩ = some workspaceId) : H.Of workspaceId c :=
  of_new_under hi rfl (by decide) hboard fun x hx => by simp_all [Model.row, Row.refs]

theorem stays_createSeeded {boardId : Id} (hboard : H.home ⟨.board, boardId⟩ = some workspaceId)
    (columns : List DefaultColumn) :
    (BoardService.createSeeded boardId columns).Stays H.tenants workspaceId fun _ => True := by
  induction columns with
  | nil => trivial
  | cons column rest ih =>
    refine Tx.Stays.fresh.bind fun i hi => ?_
    have hnew : H.Of workspaceId (⟨i, boardId, column.name, column.position, none,
      column.category⟩ : ColumnRow) := of_column hi hboard
    exact (stays_create (by decide) hnew).bind fun _ _ => ih

theorem stays_createBoard (rt : Runtime) (workspaceId actorId : Id) (dto : CreateBoardDto)
    (acceptLanguage : Option JsString) :
    (BoardService.create rt workspaceId actorId dto acceptLanguage).Stays H.tenants workspaceId
      fun _ => True := by
  have hbody : ∀ seeded, (BoardService.createBody workspaceId actorId dto seeded).Stays H.tenants
      workspaceId fun _ => True := by
    intro seeded
    refine Tx.Stays.fresh.bind fun i hi => Tx.Stays.now.bind fun now _ => ?_
    have hnew : H.Of workspaceId (⟨i, workspaceId, dto.name, dto.description, now⟩ : BoardRow) :=
      of_new_under hi rfl (by decide) (H.workspace workspaceId) fun x hx => by
        simp_all [Model.row, Row.refs]
    refine (stays_create (by decide) hnew).bind fun created hcreated => ?_
    subst hcreated
    exact (stays_createSeeded hnew.1 seeded).bind fun _ _ => stays_recordOther.bind fun _ _ => trivial
  exact (stays_resolve rt actorId acceptLanguage).bind fun locale _ =>
    (hbody _).transaction.bind fun _ _ => trivial

theorem stays_updateBoard (workspaceId boardId actorId : Id) (dto : UpdateBoardDto) :
    (BoardService.update workspaceId boardId actorId dto).Stays H.tenants workspaceId
      fun _ => True := by
  have hp := scoped_boardScope (H := H) workspaceId boardId
  have hbody : (BoardService.updateBody workspaceId boardId actorId dto).Stays H.tenants workspaceId
      fun _ => True := by
    refine (stays_findFirst hp).bind fun _ ho => (stays_orThrow ho).bind fun _ _ => ?_
    refine (stays_update (by decide) hp fun _ hb => hb.2).bind fun _ _ => ?_
    exact stays_recordOther.bind fun _ _ => trivial
  exact hbody.transaction.bind fun _ _ => trivial

theorem stays_removeBoard (workspaceId boardId actorId : Id) :
    (BoardService.remove workspaceId boardId actorId).Stays H.tenants workspaceId fun _ => True := by
  have hp := scoped_boardScope (H := H) workspaceId boardId
  refine Tx.Stays.transaction ?_
  refine (stays_findFirst hp).bind fun _ ho => (stays_orThrow ho).bind fun _ hboard => ?_
  have htasks : H.Scoped workspaceId fun _ (t : TaskRow) => t.boardId = boardId :=
    .of_ref (fun t => ⟨.board, t.boardId⟩) (fun _ => List.mem_cons_self)
      (fun _ _ t ht => by rw [of_decide_eq_true ht]; exact hboard.board) fun _ _ _ => rfl
  refine (stays_count htasks).bind fun _ _ => stays_recordOther.bind fun _ _ => ?_
  exact (stays_deleteMany hp).bind fun _ _ => stays_throwIf.mono fun _ _ => trivial

/-! ## `ColumnService` -/

theorem tasksIn_view (hdb : H.tenants.Lawful db) {columnId : Id}
    (hc : H.home ⟨.column, columnId⟩ = some workspaceId) :
    ColumnService.tasksIn (H.view workspaceId db) columnId = ColumnService.tasksIn db columnId :=
  congrArg List.length (filter_ref_view (R := TaskRow) (a := .cascade) hdb hc fun t ht => by
    simp [Model.row, Row.refs, of_decide_eq_true ht])

theorem stays_withCount {c : ColumnRow} (hc : H.Of workspaceId c) :
    (ColumnService.withCount c).Stays H.tenants workspaceId
      fun d => H.home ⟨.board, d.boardId⟩ = some workspaceId :=
  stays_query fun _ hdb => ⟨congrArg (ColumnService.toDto c) (tasksIn_view hdb hc.1), hc.board_of_column⟩

/-- The columns of a board of the workspace, with something read of each. -/
theorem ordered_view {β : Type} {boardId : Id} (hboard : H.home ⟨.board, boardId⟩ = some workspaceId)
    (hdb : H.tenants.Lawful db) (f : Db → ColumnRow → β)
    (hf : ∀ c, H.home ⟨.column, c.id⟩ = some workspaceId → f (H.view workspaceId db) c = f db c) :
    (ordered ColumnRow (H.view workspaceId db) boardId).map (f (H.view workspaceId db)) =
      (ordered ColumnRow db boardId).map (f db) := by
  rw [ordered, ordered, listed_view hboard hdb]
  refine List.map_congr_left fun c hc => hf c ?_
  obtain ⟨hmem, hl⟩ := List.mem_filter.mp ((sortBy_perm _ _).mem_iff.mp hc)
  exact home_of_ref hdb hmem (Listed.ref c) (by rw [of_decide_eq_true hl]; exact hboard)

theorem stays_listColumns (workspaceId boardId : Id) :
    (ColumnService.list workspaceId boardId).Stays H.tenants workspaceId fun _ => True :=
  (stays_assertBoard workspaceId boardId).bind fun _ hboard => stays_read fun db hdb =>
    ordered_view hboard.board hdb (fun db c => ColumnService.toDto c (ColumnService.tasksIn db c.id))
      fun c hc => by rw [tasksIn_view hdb hc]

theorem stays_createColumn (workspaceId boardId actorId : Id) (dto : CreateColumnDto) :
    (ColumnService.create workspaceId boardId actorId dto).Stays H.tenants workspaceId
      fun _ => True := by
  refine (stays_assertBoard workspaceId boardId).auto.bind fun _ hfound => ?_
  have hboard := hfound.board
  have hbody : (ColumnService.createBody boardId dto).Stays H.tenants workspaceId
      fun d => H.home ⟨.board, d.boardId⟩ = some workspaceId := by
    refine (stays_lockRow hboard).bind fun _ _ => ?_
    refine (stays_findSiblings (R := ColumnRow) hboard).bind fun columns _ => ?_
    refine (stays_check _).bind fun slot _ => ?_
    refine (stays_makeRoom (R := ColumnRow) hboard columns slot).bind fun position _ => ?_
    refine Tx.Stays.fresh.bind fun i hi => ?_
    have hnew : H.Of workspaceId (⟨i, boardId, dto.name, position, dto.color,
      dto.category.getD .unstarted⟩ : ColumnRow) := of_column hi hboard
    refine (stays_create (by decide) hnew).bind fun created hcreated => ?_
    exact stays_withCount (hcreated ▸ hnew)
  refine hbody.transaction.bind fun created hcreated => stays_recordOther.auto.bind fun _ _ => ?_
  exact (Call.Stays.publish (hears_toBoard hcreated)).bind fun _ _ => trivial

theorem stays_recordSeeded (workspaceId boardId actorId : Id) (columns : List ColumnRow) :
    (ColumnService.recordSeeded workspaceId boardId actorId columns).Stays H.tenants workspaceId
      fun _ => True := by
  induction columns with
  | nil => trivial
  | cons column rest ih => exact stays_recordOther.bind fun _ _ => ih

theorem stays_emitColumns {boardId : Id} (hboard : H.home ⟨.board, boardId⟩ = some workspaceId)
    (actorId : Id) (columnIds : List Id) :
    (ColumnService.emitEach workspaceId actorId boardId columnIds).Stays H.tenants workspaceId
      fun _ => True := by
  induction columnIds with
  | nil => trivial
  | cons columnId rest ih => exact (Call.Stays.publish (hears_toBoard hboard)).bind fun _ _ => ih

theorem stays_createDefaults (rt : Runtime) (workspaceId boardId actorId : Id)
    (acceptLanguage : Option JsString) :
    (ColumnService.createDefaults rt workspaceId boardId actorId acceptLanguage).Stays H.tenants
      workspaceId fun _ => True := by
  refine (stays_assertBoard workspaceId boardId).auto.bind fun _ hfound => ?_
  have hboard := hfound.board
  refine (stays_resolve rt actorId acceptLanguage).bind fun locale _ => ?_
  have hbody : (ColumnService.createDefaultsBody workspaceId boardId actorId locale).Stays H.tenants
      workspaceId fun _ => True := by
    refine (stays_lockRow hboard).bind fun _ _ => ?_
    have hcolumns : H.Scoped workspaceId fun _ (c : ColumnRow) => c.boardId = boardId :=
      .of_ref (fun c => ⟨.board, c.boardId⟩) (fun _ => List.mem_cons_self)
        (fun _ _ c hc => by rw [of_decide_eq_true hc]; exact hboard) fun _ _ _ => rfl
    refine (stays_count hcolumns).bind fun _ _ => stays_throwIf.bind fun _ _ => ?_
    refine (stays_withIds (P := fun c => H.Of workspaceId c) (defaultColumnsFor locale)
      fun i hi column _ => of_column (c := ColumnService.seedRow boardId i column) hi hboard).bind
        fun data hdata => ?_
    refine (stays_createMany (by decide) hdata).bind fun _ _ => ?_
    refine (stays_read fun db hdb => ordered_view hboard hdb
      (fun db c => (c, ColumnService.tasksIn db c.id)) fun c hc => by rw [tasksIn_view hdb hc]).bind
        fun rows _ => ?_
    exact (stays_recordSeeded workspaceId boardId actorId _).bind fun _ _ => trivial
  refine hbody.transaction.bind fun created _ => ?_
  exact (stays_emitColumns hboard actorId _).bind fun _ _ => trivial

theorem stays_updateColumn (workspaceId columnId actorId : Id) (dto : UpdateColumnDto) :
    (ColumnService.update workspaceId columnId actorId dto).Stays H.tenants workspaceId
      fun _ => True := by
  have hp := scoped_columnScope (H := H) workspaceId columnId
  have hbody : (ColumnService.updateBody workspaceId columnId actorId dto).Stays H.tenants workspaceId
      fun d => H.home ⟨.board, d.boardId⟩ = some workspaceId := by
    refine (stays_findFirst hp).bind fun _ ho => (stays_orThrow ho).bind fun _ _ => ?_
    refine (stays_update (by decide) hp fun _ hc => hc.2).bind fun updated hupdated => ?_
    obtain ⟨c, hc, rfl⟩ := hupdated
    refine (stays_withCount (of_patch hc.row hc.row.2)).bind fun result hresult => ?_
    exact stays_recordOther.bind fun _ _ => hresult
  exact hbody.transaction.bind fun _ hd => (Call.Stays.publish (hears_toBoard hd)).bind fun _ _ => trivial

theorem stays_removeColumn (workspaceId columnId actorId : Id) :
    (ColumnService.remove workspaceId columnId actorId).Stays H.tenants workspaceId fun _ => True := by
  have hp := scoped_columnScope (H := H) workspaceId columnId
  have hbody : (ColumnService.removeBody workspaceId columnId actorId).Stays H.tenants workspaceId
      (H.Found workspaceId (columnScope workspaceId columnId)) := by
    refine (stays_findFirst hp).bind fun _ ho => (stays_orThrow ho).bind fun c hc => ?_
    have hid : c.id = columnId := by
      obtain ⟨db, _, _, hasked⟩ := hc.asked
      exact of_decide_eq_true (Bool.and_eq_true_iff.mp hasked).1
    refine (stays_read fun db hdb => tasksIn_view hdb (hid ▸ hc.home)).bind fun _ _ => ?_
    refine stays_throwIf.bind fun _ _ => stays_recordOther.bind fun _ _ => ?_
    exact (stays_deleteMany hp).bind fun _ _ => stays_throwIf.bind fun _ _ => hc
  exact hbody.transaction.bind fun _ hc => Call.Stays.publish (hears_toBoard hc.row.board_of_column)

section Move

open ColumnService

theorem stays_writeColumnMove (workspaceId columnId : Id) (position : Position) :
    (writeMove workspaceId columnId position).Stays H.tenants workspaceId
      fun c => H.Of workspaceId c := by
  refine (stays_update Listed.not_workspace (scoped_columnScope workspaceId columnId)
    fun _ hc => homed_setPosition hc position).mono fun c hc => ?_
  obtain ⟨c', hc', rfl⟩ := hc
  exact of_patch hc'.row (homed_setPosition hc'.row position)

theorem stays_placeColumn {columnId : Id} {column : ColumnRow} {remaining : List Sibling}
    {slot : InsertionSlot Sibling} (hcolumn : H.Of workspaceId column) :
    (place workspaceId columnId column remaining slot).Stays H.tenants workspaceId
      fun d => H.home ⟨.board, d.boardId⟩ = some workspaceId := by
  simp only [place]
  split
  · refine (stays_writeColumnMove workspaceId columnId _).bind fun _ _ => ?_
    refine (stays_batchUpdatePositions (R := ColumnRow) hcolumn.board_of_column _).bind fun _ _ => ?_
    refine (stays_findFirst (scoped_columnScope workspaceId columnId)).bind fun _ ho => ?_
    exact (stays_orThrow ho).bind fun _ hc => stays_withCount hc.row
  · exact (stays_writeColumnMove workspaceId columnId _).bind fun _ hc => stays_withCount hc

theorem stays_moveColumn (workspaceId columnId actorId : Id) (dto : MoveColumnDto) :
    (ColumnService.move workspaceId columnId actorId dto).Stays H.tenants workspaceId
      fun _ => True := by
  have hbody : (moveBody workspaceId columnId dto).Stays H.tenants workspaceId
      fun d => H.home ⟨.board, d.boardId⟩ = some workspaceId := by
    refine (stays_findFirst (scoped_columnScope workspaceId columnId)).bind fun _ ho => ?_
    refine (stays_orThrow ho).bind fun column hc => stays_throwIf.bind fun _ _ => ?_
    have hboard := hc.row.board_of_column
    refine (stays_lockRow hboard).bind fun _ _ => ?_
    refine (stays_findSiblings (R := ColumnRow) hboard).bind fun columns _ => ?_
    exact (stays_check _).bind fun slot _ => stays_placeColumn hc.row
  exact hbody.transaction.bind fun _ hd => (Call.Stays.publish (hears_toBoard hd)).bind fun _ _ => trivial

end Move

/-! ## `LabelService` -/

theorem stays_listLabels (collate : JsString → JsString) (workspaceId boardId : Id) :
    (LabelService.list collate workspaceId boardId).Stays H.tenants workspaceId fun _ => True := by
  refine (stays_assertBoard workspaceId boardId).bind fun _ hboard => ?_
  refine (stays_read fun db hdb => ?_).bind fun _ _ => trivial
  rw [filter_ref_view (k := ⟨.board, boardId⟩) (a := .cascade) hdb hboard.board
    fun l hl => by simp [Model.row, Row.refs, of_decide_eq_true hl]]

theorem stays_createLabel (workspaceId boardId actorId : Id) (dto : CreateLabelDto) :
    (LabelService.create workspaceId boardId actorId dto).Stays H.tenants workspaceId
      fun _ => True := by
  refine (stays_assertBoard workspaceId boardId).auto.bind fun _ hboard => ?_
  have hcreate : (LabelService.createRow boardId dto).Stays H.tenants workspaceId fun _ => True := by
    refine Tx.Stays.fresh.bind fun i hi => ?_
    have hnew : H.Of workspaceId (⟨i, boardId, dto.name, dto.color⟩ : LabelRow) :=
      of_new_under hi rfl (by decide) hboard.board fun x hx => by simp_all [Model.row, Row.refs]
    exact (stays_create (by decide) hnew).mono fun _ _ => trivial
  exact hcreate.auto.bind fun _ _ => stays_recordOther.auto.bind fun _ _ => trivial

theorem scoped_labelScope (workspaceId labelId : Id) :
    H.Scoped workspaceId (LabelService.labelScope workspaceId labelId) :=
  .of_ref (fun l => ⟨.board, l.boardId⟩) (fun _ => List.mem_cons_self)
    (fun _ hdb _ h => home_of_onBoardOf hdb (Bool.and_eq_true_iff.mp h).2)
    fun _ hdb l => by rw [LabelService.labelScope, LabelService.labelScope, onBoardOf_view hdb]

theorem stays_updateLabel (workspaceId labelId actorId : Id) (dto : UpdateLabelDto) :
    (LabelService.update workspaceId labelId actorId dto).Stays H.tenants workspaceId
      fun _ => True := by
  have hp := scoped_labelScope (H := H) workspaceId labelId
  have hbody : (LabelService.updateBody workspaceId labelId actorId dto).Stays H.tenants workspaceId
      fun _ => True := by
    refine (stays_findFirst hp).bind fun _ ho => (stays_orThrow ho).bind fun _ _ => ?_
    refine (stays_update (by decide) hp fun _ hl => hl.2).bind fun _ _ => ?_
    exact stays_recordOther.bind fun _ _ => trivial
  exact hbody.transaction.bind fun _ _ => trivial

theorem stays_removeLabelRow (workspaceId labelId actorId : Id) :
    (LabelService.remove workspaceId labelId actorId).Stays H.tenants workspaceId fun _ => True := by
  have hp := scoped_labelScope (H := H) workspaceId labelId
  refine Tx.Stays.transaction ?_
  refine (stays_findFirst hp).bind fun _ ho => (stays_orThrow ho).bind fun _ _ => ?_
  refine stays_recordOther.bind fun _ _ => (stays_deleteMany hp).bind fun _ _ => ?_
  exact stays_throwIf.mono fun _ _ => trivial

end Homes
end Kurul
