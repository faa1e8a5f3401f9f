import Kurul.Board.BoardService
import Kurul.Board.ColumnService
import Kurul.Board.LabelService
import Kurul.Db.Conduct
import Kurul.Task.TaskRead

/-!
# Kurul.Conduct.Boards

Boards, columns and labels: each request keeps to the rules, under the name of the user who makes it.
-/

namespace Kurul

open Sql

/-- What is told to a board is told of somebody at work there; what is told to a user, of that workspace. -/
def Tells (who : Id → Id → Prop) : Event → Prop
  | .toBoard _ workspaceId actorId _ => who workspaceId actorId
  | .toUser workspaceId _ => ∃ actorId, who workspaceId actorId
  | .evicted _ _ => False

/-- The rules for those at work: nothing is counted on. -/
def conducted (who : Id → Id → Prop) : Limits kurul where
  sees _ := True
  evolution := conduct who
  tells := Tells who

/-! ## Shared parts -/

section Shared

variable {α : Type} {F : Footprint kurul} {L : Limits kurul}

theorem within_check (x : Except ApiError α) : (ofExcept x).Within F := (readOnly_ofExcept x).within

theorem within_assertBoard (workspaceId boardId : Id) : (assertBoard workspaceId boardId).Within F :=
  (readOnly_assertBoard workspaceId boardId).within

theorem within_findTaskBasic (workspaceId taskId : Id) :
    (TaskReadService.findTaskBasic workspaceId taskId).Within F :=
  (TaskReadService.readOnly_findTaskBasic workspaceId taskId).within

theorem within_findTask (workspaceId taskId : Id) : (TaskReadService.findTask workspaceId taskId).Within F :=
  (TaskReadService.readOnly_findTask workspaceId taskId).within

theorem within_lockRow (k : Key) : (lockRow k).Within F :=
  (writes_lockRow (p := fun _ => False) k).within fun _ _ h => h.elim

theorem limited_resolve (rt : Runtime) (userId : Id) (acceptLanguage : Option JsString) :
    (LocaleService.resolve rt (some userId) acceptLanguage).Limited L fun _ => True := by
  have hread : (LocaleService.read rt userId).Within L.evolution.footprint :=
    (LocaleService.readOnly_read rt userId).within
  have hquiet : (LocaleService.readQuietly rt userId).Limited L fun _ => True :=
    hread.auto.tryCatch fun _ => trivial
  exact hquiet.bind fun _ _ => trivial

end Shared

section Conduct

variable {who : Id → Id → Prop}

theorem within_record {input : RecordActivityInput} (h : who input.workspaceId input.userId) :
    (ActivityService.record input).Within (conduct who).footprint :=
  fun _ _ => within_create (R := ActivityRow) h

theorem signed_column (c : ColumnRow) : (Model.row c).Signed who := trivial

theorem signed_label (l : LabelRow) : (Model.row l).Signed who := trivial

theorem signed_board {b : BoardRow} {userId : Id} (h : who b.workspaceId userId) : (Model.row b).Signed who :=
  ⟨userId, h⟩

/-- Rows are put elsewhere in their lists. -/
class Movable (R : Type) [Model R] [Placed R] : Prop where
  fixed : ∀ p (r : R), (Model.row ((Placed.setPosition p).apply r)).fixed = (Model.row r).fixed
  about : ∀ p (r : R), (Model.row ((Placed.setPosition p).apply r)).about = (Model.row r).about
  readAt : ∀ p (r : R), (Model.row ((Placed.setPosition p).apply r)).readAt = (Model.row r).readAt

instance : Movable TaskRow := ⟨fun _ _ => rfl, fun _ _ => rfl, fun _ _ => rfl⟩

instance : Movable ColumnRow := ⟨fun _ _ => rfl, fun _ _ => rfl, fun _ _ => rfl⟩

section Lists

variable {R : Type} [Model R] [Placed R] [Movable R]

theorem becomes_setPosition (p : Position) (r : R) :
    (Model.row r).Becomes who (Model.row ((Placed.setPosition p).apply r)) :=
  ⟨Movable.fixed p r, .inl (Movable.about p r), .inl (Movable.readAt p r)⟩

variable (R)

theorem within_batchUpdatePositions (listId : Id) (updates : List PositionUpdate) :
    (batchUpdatePositions R listId updates).Within (conduct who).footprint := by
  have hloop : ∀ us : List PositionUpdate, (writePositions R listId us).Within (conduct who).footprint := by
    intro us
    induction us with
    | nil => trivial
    | cons u us ih =>
      exact (within_changeMany fun _ r _ => becomes_setPosition u.position r).bind fun _ => ih
  simp only [batchUpdatePositions]
  split
  · trivial
  · exact (within_query _).bind hloop

theorem within_makeRoom (listId : Id) (siblings : List Sibling) (slot : InsertionSlot Sibling) :
    (makeRoom R listId siblings slot).Within (conduct who).footprint := by
  simp only [makeRoom]
  split
  · exact (within_batchUpdatePositions R listId _).bind fun _ => trivial
  · trivial

end Lists

variable {workspaceId actorId : Id} (hwho : who workspaceId actorId)

include hwho

/-! ## `BoardService` -/

theorem limited_createBoard (rt : Runtime) (dto : CreateBoardDto) (acceptLanguage : Option JsString) :
    (BoardService.create rt workspaceId actorId dto acceptLanguage).Limited (conducted who) fun _ => True := by
  have hseeded : ∀ boardId columns,
      (BoardService.createSeeded boardId columns).Within (conduct who).footprint := by
    intro boardId columns
    induction columns with
    | nil => trivial
    | cons column rest ih => exact fun _ => (within_create (signed_column _)).bind fun _ => ih
  have hbody : ∀ seeded, (BoardService.createBody workspaceId actorId dto seeded).Within
      (conduct who).footprint := fun seeded _ _ =>
    (within_create (signed_board hwho)).bind fun created => (hseeded created.id seeded).bind fun _ =>
      (within_record hwho).bind fun _ => trivial
  exact (limited_resolve rt actorId acceptLanguage).bind fun _ _ =>
    (hbody _).transaction.bind fun _ _ => trivial

theorem limited_updateBoard (boardId : Id) (dto : UpdateBoardDto) :
    (BoardService.update workspaceId boardId actorId dto).Limited (conducted who) fun _ => True := by
  have hbody : (BoardService.updateBody workspaceId boardId actorId dto).Within (conduct who).footprint :=
    (within_query _).bind fun _ => (within_orThrow _ _).bind fun _ =>
      (within_change fun _ _ _ => ⟨rfl, .inl rfl, .inl rfl⟩).bind fun _ =>
        (within_record hwho).bind fun _ => trivial
  exact hbody.transaction.bind fun _ _ => trivial

theorem limited_removeBoard (boardId : Id) :
    (BoardService.remove workspaceId boardId actorId).Limited (conducted who) fun _ => True := by
  refine Tx.Within.transaction ?_
  exact (within_query _).bind fun _ => (within_orThrow _ _).bind fun _ => (within_query _).bind fun _ =>
    (within_record hwho).bind fun _ => (within_remove (R := BoardRow) rfl).bind fun _ => within_throwIf _ _

/-! ## `ColumnService` -/

theorem limited_emitChanged (boardId columnId : Id) :
    (ColumnService.emitChanged workspaceId actorId boardId columnId).Limited (conducted who) fun _ => True :=
  Call.limited_publish hwho

theorem limited_createColumn (boardId : Id) (dto : CreateColumnDto) :
    (ColumnService.create workspaceId boardId actorId dto).Limited (conducted who) fun _ => True := by
  have hbody : (ColumnService.createBody boardId dto).Within (conduct who).footprint :=
    (within_lockRow _).bind fun _ => (within_query _).bind fun _ => (within_check _).bind fun _ =>
      (within_makeRoom ColumnRow _ _ _).bind fun _ _ => (within_create (signed_column _)).bind fun _ =>
        within_query _
  exact (within_assertBoard workspaceId boardId).auto.bind fun _ _ => hbody.transaction.bind fun _ _ =>
    (within_record hwho).auto.bind fun _ _ => (limited_emitChanged hwho _ _).bind fun _ _ => trivial

theorem limited_createDefaults (rt : Runtime) (boardId : Id) (acceptLanguage : Option JsString) :
    (ColumnService.createDefaults rt workspaceId boardId actorId acceptLanguage).Limited (conducted who)
      fun _ => True := by
  have hrecord : ∀ columns,
      (ColumnService.recordSeeded workspaceId boardId actorId columns).Within (conduct who).footprint := by
    intro columns
    induction columns with
    | nil => trivial
    | cons column rest ih =>
      have hinput : who (ColumnService.seededInput workspaceId boardId actorId column).workspaceId
          (ColumnService.seededInput workspaceId boardId actorId column).userId := hwho
      exact (within_record hinput).bind fun _ => ih
  have hbody : ∀ locale, (ColumnService.createDefaultsBody workspaceId boardId actorId locale).Within
      (conduct who).footprint := fun locale =>
    (within_lockRow _).bind fun _ => (within_query _).bind fun _ => (within_throwIf _ _).bind fun _ =>
      within_withIds (P := fun _ => True) (fun _ _ _ => trivial) fun _ _ =>
        (within_createMany fun c _ => signed_column c).bind fun _ => (within_query _).bind fun _ =>
          (hrecord _).bind fun _ => trivial
  have hemit : ∀ ids, (ColumnService.emitEach workspaceId actorId boardId ids).Limited (conducted who)
      fun _ => True := by
    intro ids
    induction ids with
    | nil => trivial
    | cons id rest ih => exact (limited_emitChanged hwho _ _).bind fun _ _ => ih
  exact (within_assertBoard workspaceId boardId).auto.bind fun _ _ =>
    (limited_resolve rt actorId acceptLanguage).bind fun _ _ => (hbody _).transaction.bind fun _ _ =>
      (hemit _).bind fun _ _ => trivial

theorem limited_updateColumn (columnId : Id) (dto : UpdateColumnDto) :
    (ColumnService.update workspaceId columnId actorId dto).Limited (conducted who) fun _ => True := by
  have hbody : (ColumnService.updateBody workspaceId columnId actorId dto).Within (conduct who).footprint :=
    (within_query _).bind fun _ => (within_orThrow _ _).bind fun _ =>
      (within_change fun _ _ _ => ⟨rfl, .inl rfl, .inl rfl⟩).bind fun _ => (within_query _).bind fun _ =>
        (within_record hwho).bind fun _ => trivial
  exact hbody.transaction.bind fun _ _ => (limited_emitChanged hwho _ _).bind fun _ _ => trivial

theorem limited_removeColumn (columnId : Id) :
    (ColumnService.remove workspaceId columnId actorId).Limited (conducted who) fun _ => True := by
  have hbody : (ColumnService.removeBody workspaceId columnId actorId).Within (conduct who).footprint :=
    (within_query _).bind fun _ => (within_orThrow _ _).bind fun _ => (within_query _).bind fun _ =>
      (within_throwIf _ _).bind fun _ => (within_record hwho).bind fun _ =>
        (within_remove (R := ColumnRow) rfl).bind fun _ => (within_throwIf _ _).bind fun _ => trivial
  exact hbody.transaction.bind fun _ _ => limited_emitChanged hwho _ _

omit hwho in
theorem within_placeColumn (columnId : Id) (column : ColumnRow) (remaining : List Sibling)
    (slot : InsertionSlot Sibling) :
    (ColumnService.place workspaceId columnId column remaining slot).Within (conduct who).footprint := by
  have hmove : ∀ p, (ColumnService.writeMove workspaceId columnId p).Within (conduct who).footprint :=
    fun p => within_change fun _ r _ => becomes_setPosition p r
  simp only [ColumnService.place]
  split
  · exact (hmove _).bind fun _ => (within_batchUpdatePositions ColumnRow _ _).bind fun _ =>
      (within_query _).bind fun _ => (within_orThrow _ _).bind fun _ => within_query _
  · exact (hmove _).bind fun _ => within_query _

theorem limited_moveColumn (columnId : Id) (dto : MoveColumnDto) :
    (ColumnService.move workspaceId columnId actorId dto).Limited (conducted who) fun _ => True := by
  have hbody : (ColumnService.moveBody workspaceId columnId dto).Within (conduct who).footprint :=
    (within_query _).bind fun _ => (within_orThrow _ _).bind fun _ => (within_throwIf _ _).bind fun _ =>
      (within_lockRow _).bind fun _ => (within_query _).bind fun _ => (within_check _).bind fun _ =>
        within_placeColumn columnId _ _ _
  exact hbody.transaction.bind fun _ _ => (limited_emitChanged hwho _ _).bind fun _ _ => trivial

/-! ## `LabelService` -/

theorem limited_createLabel (boardId : Id) (dto : CreateLabelDto) :
    (LabelService.create workspaceId boardId actorId dto).Limited (conducted who) fun _ => True := by
  have hrow : (LabelService.createRow boardId dto).Within (conduct who).footprint :=
    fun _ => within_create (signed_label _)
  exact (within_assertBoard workspaceId boardId).auto.bind fun _ _ => hrow.auto.bind fun _ _ =>
    (within_record hwho).auto.bind fun _ _ => trivial

theorem limited_updateLabel (labelId : Id) (dto : UpdateLabelDto) :
    (LabelService.update workspaceId labelId actorId dto).Limited (conducted who) fun _ => True := by
  have hbody : (LabelService.updateBody workspaceId labelId actorId dto).Within (conduct who).footprint :=
    (within_query _).bind fun _ => (within_orThrow _ _).bind fun _ =>
      (within_change fun _ _ _ => ⟨rfl, .inl rfl, .inl rfl⟩).bind fun _ =>
        (within_record hwho).bind fun _ => trivial
  exact hbody.transaction.bind fun _ _ => trivial

theorem limited_removeLabelRow (labelId : Id) :
    (LabelService.remove workspaceId labelId actorId).Limited (conducted who) fun _ => True := by
  refine Tx.Within.transaction ?_
  exact (within_query _).bind fun _ => (within_orThrow _ _).bind fun _ => (within_record hwho).bind fun _ =>
    (within_remove (R := LabelRow) rfl).bind fun _ => within_throwIf _ _

end Conduct
end Kurul
