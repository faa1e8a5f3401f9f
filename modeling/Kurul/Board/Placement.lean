import Kurul.Board.ColumnService
import Kurul.Task.Placement

/-!
# Kurul.Board.Placement

Columns on a board are placed as tasks in a column are, and the law both paths obey.

* `placement_exact` — an accepted create or move, of a task or of a column, inserts its row at the
  index it resolved, next to the neighbours it named, and moves nothing else.
-/

namespace Kurul

open Sql

variable {env : Env kurul} {w w' : World kurul}

namespace ColumnService

theorem run_withCount_ok {row : ColumnRow} {dto : ColumnDto}
    (h : (withCount row).run env w = (.ok dto, w')) : dto.id = row.id ∧ w'.db = w.db := by
  obtain ⟨rfl, rfl⟩ := run_query_ok h
  exact ⟨rfl, rfl⟩

theorem createBody_placed {boardId : Id} {dto : CreateColumnDto} {result : ColumnDto}
    (h : (createBody boardId dto).run env w = (.ok result, w')) :
    ∃ slot, resolveCreateNeighbors (siblings ColumnRow w.db boardId) dto.afterColumnId
        (js "Column not found") = .ok slot ∧
      (∀ c ∈ rows ColumnRow w.db, c.id ≠ result.id) ∧
      SlotOf ((others ColumnRow w.db boardId result.id).map toSibling) dto.afterColumnId none
        slot ∧
      PlacedAt ColumnRow w.db w'.db boardId result.id slot.insertionIndex := by
  obtain ⟨_, w₁, h₁, h⟩ := Tx.run_bind_ok h
  obtain ⟨l, w₂, h₂, h⟩ := Tx.run_bind_ok h
  obtain ⟨slot, w₃, h₃, h⟩ := Tx.run_bind_ok h
  obtain ⟨p, w₄, h₄, h⟩ := Tx.run_bind_ok h
  obtain ⟨i, w₅, h₅, h⟩ := Tx.run_bind_ok h
  obtain ⟨c, w₆, h₆, h⟩ := Tx.run_bind_ok h
  obtain ⟨hid, hdb'⟩ := run_withCount_ok h
  have hdb₁ := run_lockRow_ok h₁
  obtain ⟨hl, hdb₂⟩ := run_findSiblings_ok h₂
  obtain ⟨hslot, hdb₃⟩ := run_ofExcept_ok h₃
  obtain ⟨hnew, hc, hdb₆⟩ := run_create_ok h₆
  rw [← hc] at hnew hdb₆
  have hw₃ : w₃.db = w.db := by rw [hdb₃, hdb₂, hdb₁]
  have hw₅ : w₅.db = w₄.db := run_fresh_ok h₅
  rw [hl, hdb₁] at hslot h₄
  rw [← hw₃] at hslot h₄ ⊢
  rw [hw₅] at hnew
  have hlist : Placed.list c = boardId := by rw [hc]; rfl
  have hpos : Placed.position c = p := by rw [hc]; rfl
  refine ⟨slot, hslot, placedAt_create hid.symm hlist hslot h₄ hpos hnew ?_⟩
  rw [hdb', hdb₆, hw₅]

theorem create_ok {workspaceId boardId actorId : Id} {dto : CreateColumnDto} {result : ColumnDto}
    (h : (create workspaceId boardId actorId dto).run env w = (.ok result, w')) :
    ∃ slot, resolveCreateNeighbors (siblings ColumnRow w.db boardId) dto.afterColumnId
        (js "Column not found") = .ok slot ∧
      (∀ c ∈ rows ColumnRow w.db, c.id ≠ result.id) ∧
      SlotOf ((others ColumnRow w.db boardId result.id).map toSibling) dto.afterColumnId none
        slot ∧
      PlacedAt ColumnRow w.db w'.db boardId result.id slot.insertionIndex := by
  obtain ⟨_, w₁, h₁, h⟩ := Call.run_bind_ok h
  obtain ⟨created, w₂, h₂, h⟩ := Call.run_bind_ok h
  obtain ⟨a, w₃, h₃, h⟩ := Call.run_bind_ok h
  rw [Call.run_auto] at h₁ h₃
  obtain ⟨w₄, h₄, hw₂⟩ := Call.run_transaction_ok h₂
  obtain ⟨rfl, hw'⟩ := run_publish_ret_ok h
  obtain ⟨slot, hslot, hfresh, hof, hplaced⟩ := createBody_placed h₄
  rw [run_assertBoard_ok h₁] at hslot hfresh hof hplaced
  refine ⟨slot, hslot, hfresh, hof, hplaced.of_rows ?_⟩
  rw [hw', rows_record (by decide) h₃, hw₂]

/-- The row a move writes: the column as it is, in its new position. -/
theorem run_writeMove_ok {workspaceId columnId : Id} {p : Position} {c : ColumnRow}
    (h : (writeMove workspaceId columnId p).run env w = (.ok c, w')) :
    c.id = columnId ∧ c.position = p ∧ w'.db = w.db.put (.column c) ∧
      ∃ c₀ ∈ rows ColumnRow w.db, c₀.id = columnId ∧ c.boardId = c₀.boardId := by
  obtain ⟨r, hr, rfl, rfl⟩ := run_update_ok h
  have hp := List.find?_some hr
  simp only [columnScope, Bool.and_eq_true, decide_eq_true_eq] at hp
  exact ⟨hp.1, rfl, rfl, r, List.mem_of_find?_eq_some hr, hp.1, rfl⟩

/-- The two branches of a move, as they leave the columns. -/
theorem run_place_ok {workspaceId columnId : Id} {column : ColumnRow} {remaining : List Sibling}
    {slot : InsertionSlot Sibling} {dto : ColumnDto} (hmem : column ∈ rows ColumnRow w.db)
    (hid : column.id = columnId)
    (h : (place workspaceId columnId column remaining slot).run env w = (.ok dto, w')) :
    dto.id = columnId ∧ ∃ x : ColumnRow, x.id = columnId ∧ x.boardId = column.boardId ∧
      Moved x w.db w'.db column.boardId columnId remaining slot := by
  have hboard : ∀ x : ColumnRow, (∃ c₀ ∈ rows ColumnRow w.db, c₀.id = columnId ∧
      x.boardId = c₀.boardId) → x.boardId = column.boardId := by
    rintro x ⟨c₀, hc₀, hc₀id, hb⟩
    rw [hb, eq_of_id hc₀ hmem (hc₀id.trans hid.symm)]
  simp only [place] at h
  split at h
  · rename_i hn
    obtain ⟨x, w₁, h₁, h⟩ := Tx.run_bind_ok h
    obtain ⟨_, w₂, h₂, h⟩ := Tx.run_bind_ok h
    obtain ⟨found, w₃, h₃, h⟩ := Tx.run_bind_ok h
    obtain ⟨refreshed, w₄, h₄, h⟩ := Tx.run_bind_ok h
    obtain ⟨hx, hp, hw₁, hold⟩ := run_writeMove_ok h₁
    obtain ⟨hfound, hw₃⟩ := run_query_ok h₃
    obtain ⟨hrefreshed, hw₄⟩ := run_orThrow_ok h₄
    obtain ⟨hdto, hw'⟩ := run_withCount_ok h
    have hrid : refreshed.id = columnId := by
      rw [hfound] at hrefreshed
      have hp := List.find?_some hrefreshed
      simp only [columnScope, Bool.and_eq_true, decide_eq_true_eq] at hp
      exact hp.1
    refine ⟨hdto.trans hrid, x, hx, hboard x hold,
      .inr ⟨hn, column.position, _, rfl, by rw [← hid]; exact hp, fun r' => ?_⟩⟩
    rw [hw', hw₄, hw₃, run_batchUpdatePositions_ok h₂, hw₁, hid]
    rfl
  · rename_i hn
    obtain ⟨x, w₁, h₁, h⟩ := Tx.run_bind_ok h
    obtain ⟨hx, hp, hw₁, hold⟩ := run_writeMove_ok h₁
    obtain ⟨hdto, hw'⟩ := run_withCount_ok h
    refine ⟨hdto.trans hx, x, hx, hboard x hold, .inl ⟨by simpa using hn, hp, ?_⟩⟩
    rw [hw', hw₁]
    rfl

theorem moveBody_placed {workspaceId columnId : Id} {dto : MoveColumnDto} {result : ColumnDto}
    (h : (moveBody workspaceId columnId dto).run env w = (.ok result, w')) :
    result.id = columnId ∧ ∃ column ∈ rows ColumnRow w.db, column.id = columnId ∧
      ∃ slot, resolveMoveNeighbors
          ((siblings ColumnRow w.db column.boardId).filter fun s => s.id ≠ columnId)
          dto.beforeColumnId dto.afterColumnId = .ok slot ∧
        SlotOf ((others ColumnRow w.db column.boardId columnId).map toSibling) dto.beforeColumnId
          dto.afterColumnId slot ∧
        PlacedAt ColumnRow w.db w'.db column.boardId columnId slot.insertionIndex := by
  obtain ⟨found, w₁, h₁, h⟩ := Tx.run_bind_ok h
  obtain ⟨column, w₂, h₂, h⟩ := Tx.run_bind_ok h
  obtain ⟨_, w₃, h₃, h⟩ := Tx.run_bind_ok h
  obtain ⟨_, w₄, h₄, h⟩ := Tx.run_bind_ok h
  obtain ⟨l, w₅, h₅, h⟩ := Tx.run_bind_ok h
  obtain ⟨slot, w₆, h₆, h⟩ := Tx.run_bind_ok h
  obtain ⟨hfound, hw₁⟩ := run_query_ok h₁
  obtain ⟨hcolumn, hw₂⟩ := run_orThrow_ok h₂
  obtain ⟨_, hw₃⟩ := run_throwIf_ok h₃
  have hw₄ := run_lockRow_ok h₄
  obtain ⟨hl, hw₅⟩ := run_findSiblings_ok h₅
  obtain ⟨hslot, hw₆⟩ := run_ofExcept_ok h₆
  have hdb₄ : w₄.db = w.db := by simp only [hw₄, hw₃, hw₂, hw₁]
  have hdb₆ : w₆.db = w.db := by rw [hw₆, hw₅, hdb₄]
  rw [hfound] at hcolumn
  have hmem : column ∈ rows ColumnRow w.db := List.mem_of_find?_eq_some hcolumn
  have hid : column.id = columnId := by
    have hp := List.find?_some hcolumn
    simp only [columnScope, Bool.and_eq_true, decide_eq_true_eq] at hp
    exact hp.1
  rw [hl, hdb₄] at hslot h
  rw [← hdb₆] at hslot h hmem ⊢
  obtain ⟨hrid, x, hx, hboard, hmoved⟩ := run_place_ok hmem hid h
  exact ⟨hrid, column, hmem, hid, slot, hslot, placedAt_move hx hboard hslot hmoved⟩

theorem move_ok {workspaceId columnId actorId : Id} {dto : MoveColumnDto} {result : ColumnDto}
    (h : (move workspaceId columnId actorId dto).run env w = (.ok result, w')) :
    result.id = columnId ∧ ∃ column ∈ rows ColumnRow w.db, column.id = columnId ∧
      ∃ slot, resolveMoveNeighbors
          ((siblings ColumnRow w.db column.boardId).filter fun s => s.id ≠ columnId)
          dto.beforeColumnId dto.afterColumnId = .ok slot ∧
        SlotOf ((others ColumnRow w.db column.boardId columnId).map toSibling) dto.beforeColumnId
          dto.afterColumnId slot ∧
        PlacedAt ColumnRow w.db w'.db column.boardId columnId slot.insertionIndex := by
  obtain ⟨r, w₁, h₁, h⟩ := Call.run_bind_ok h
  obtain ⟨w₂, h₂, rfl⟩ := Call.run_transaction_ok h₁
  obtain ⟨rfl, rfl⟩ := run_publish_ret_ok h
  have hplaced := moveBody_placed h₂
  exact hplaced

end ColumnService

/-- Placement is exact on both paths and in both branches. -/
theorem placement_exact :
    (∀ (rt : Runtime) (workspaceId boardId userId : Id) (dto : CreateTaskDto) (env : Env kurul)
        (w w' : World kurul) (result : TaskDto),
      (TaskService.create rt workspaceId boardId userId dto).run env w = (.ok result, w') →
      ∃ slot, resolveCreateNeighbors (siblings TaskRow w.db dto.columnId) dto.afterTaskId
          (js "Task not found") = .ok slot ∧
        (∀ t ∈ rows TaskRow w.db, t.id ≠ result.id) ∧
        Inserted TaskRow w.db w'.db dto.columnId result.id slot dto.afterTaskId none) ∧
    (∀ (workspaceId taskId userId : Id) (dto : MoveTaskDto) (env : Env kurul)
        (w w' : World kurul) (result : TaskDto),
      (TaskService.move workspaceId taskId userId dto).run env w = (.ok result, w') →
      ∃ slot, resolveMoveNeighbors
          ((siblings TaskRow w.db dto.columnId).filter fun s => s.id ≠ taskId)
          dto.beforeTaskId dto.afterTaskId = .ok slot ∧
        Inserted TaskRow w.db w'.db dto.columnId taskId slot dto.beforeTaskId dto.afterTaskId) ∧
    (∀ (workspaceId boardId actorId : Id) (dto : CreateColumnDto) (env : Env kurul)
        (w w' : World kurul) (result : ColumnDto),
      (ColumnService.create workspaceId boardId actorId dto).run env w = (.ok result, w') →
      ∃ slot, resolveCreateNeighbors (siblings ColumnRow w.db boardId) dto.afterColumnId
          (js "Column not found") = .ok slot ∧
        (∀ c ∈ rows ColumnRow w.db, c.id ≠ result.id) ∧
        Inserted ColumnRow w.db w'.db boardId result.id slot dto.afterColumnId none) ∧
    (∀ (workspaceId columnId actorId : Id) (dto : MoveColumnDto) (env : Env kurul)
        (w w' : World kurul) (result : ColumnDto),
      (ColumnService.move workspaceId columnId actorId dto).run env w = (.ok result, w') →
      ∃ column ∈ rows ColumnRow w.db, column.id = columnId ∧ ∃ slot, resolveMoveNeighbors
          ((siblings ColumnRow w.db column.boardId).filter fun s => s.id ≠ columnId)
          dto.beforeColumnId dto.afterColumnId = .ok slot ∧
        Inserted ColumnRow w.db w'.db column.boardId columnId slot dto.beforeColumnId
          dto.afterColumnId) := by
  refine ⟨?_, ?_, ?_, ?_⟩
  · intro rt workspaceId boardId userId dto env w w' result h
    obtain ⟨slot, hslot, hfresh, hof, hplaced⟩ := TaskService.create_ok h
    exact ⟨slot, hslot, hfresh, hof.inserted hplaced⟩
  · intro workspaceId taskId userId dto env w w' result h
    obtain ⟨_, slot, hslot, hof, hplaced⟩ := TaskService.move_ok h
    exact ⟨slot, hslot, hof.inserted hplaced⟩
  · intro workspaceId boardId actorId dto env w w' result h
    obtain ⟨slot, hslot, hfresh, hof, hplaced⟩ := ColumnService.create_ok h
    exact ⟨slot, hslot, hfresh, hof.inserted hplaced⟩
  · intro workspaceId columnId actorId dto env w w' result h
    obtain ⟨_, column, hmem, hid, slot, hslot, hof, hplaced⟩ := ColumnService.move_ok h
    exact ⟨column, hmem, hid, slot, hslot, hof.inserted hplaced⟩

/-- A board with a pair of tied tasks in its first column. -/
def tiedBoard : Db where
  rows := [
    .user ⟨js "u", js "u@x", js "U", true, none, none, none⟩,
    .workspace ⟨js "w", js "W", js "w"⟩,
    .board ⟨js "b", js "w", js "B", none, 0⟩,
    .column ⟨js "c", js "b", js "C", 1000, none, .unstarted⟩,
    .column ⟨js "d", js "b", js "D", 2000, none, .started⟩,
    .task ⟨js "s", js "b", js "c", js "S", none, .medium, 5, none, none, js "u", 0, 0⟩,
    .task ⟨js "t", js "b", js "c", js "T", none, .medium, 5, none, none, js "u", 0, 0⟩,
    .task ⟨js "v", js "b", js "d", js "V", none, .medium, 5, none, none, js "u", 0, 0⟩]
  nodup := by decide +kernel

/-- Between the tied tasks, in both services: the four calls are accepted and place their rows. -/
theorem placement_exact_tied :
    (∃ slot result w', Inserted TaskRow tiedBoard (w' : World kurul).db (js "c")
      (result : TaskDto).id slot (some (js "s")) none) ∧
    (∃ slot w', Inserted TaskRow tiedBoard (w' : World kurul).db (js "c") (js "v") slot
      (some (js "s")) (some (js "t"))) ∧
    (∃ slot result w', Inserted ColumnRow tiedBoard (w' : World kurul).db (js "b")
      (result : ColumnDto).id slot (some (js "c")) none) ∧
    (∃ boardId slot w', Inserted ColumnRow tiedBoard (w' : World kurul).db boardId (js "d") slot
      none (some (js "c"))) := by
  obtain ⟨r₁, w₁, h₁⟩ := Call.run_isOk calm (World.start tiedBoard)
    (p := TaskService.create .bare (js "w") (js "b") (js "u")
      ⟨js "N", js "c", .absent, none, .absent, .absent, some (js "s")⟩) (by decide +kernel)
  obtain ⟨r₂, w₂, h₂⟩ := Call.run_isOk calm (World.start tiedBoard)
    (p := TaskService.move (js "w") (js "v") (js "u") ⟨js "c", some (js "s"), some (js "t")⟩)
    (by decide +kernel)
  obtain ⟨r₃, w₃, h₃⟩ := Call.run_isOk calm (World.start tiedBoard)
    (p := ColumnService.create (js "w") (js "b") (js "u") ⟨js "N", some (js "c"), none, none⟩)
    (by decide +kernel)
  obtain ⟨r₄, w₄, h₄⟩ := Call.run_isOk calm (World.start tiedBoard)
    (p := ColumnService.move (js "w") (js "d") (js "u") ⟨none, some (js "c")⟩) (by decide +kernel)
  obtain ⟨slot₁, _, _, hins₁⟩ := placement_exact.1 _ _ _ _ _ _ _ _ _ h₁
  obtain ⟨slot₂, _, hins₂⟩ := placement_exact.2.1 _ _ _ _ _ _ _ _ h₂
  obtain ⟨slot₃, _, _, hins₃⟩ := placement_exact.2.2.1 _ _ _ _ _ _ _ _ h₃
  obtain ⟨c, _, _, slot₄, _, hins₄⟩ := placement_exact.2.2.2 _ _ _ _ _ _ _ _ h₄
  exact ⟨⟨slot₁, r₁, w₁, hins₁⟩, ⟨slot₂, w₂, hins₂⟩, ⟨slot₃, r₃, w₃, hins₃⟩,
    ⟨c.boardId, slot₄, w₄, hins₄⟩⟩

end Kurul
