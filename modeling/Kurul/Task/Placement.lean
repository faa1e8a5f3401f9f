import Kurul.Position.Placement
import Kurul.Task.TaskService

/-!
# Kurul.Task.Placement

Where `TaskService.create` and `TaskService.move` put a task, running alone: at the index the
request asks for, in the midpoint branch and in the rebalance branch alike.
-/

namespace Kurul

open Sql

variable {env : Env kurul} {w w' : World kurul}

namespace TaskService

theorem run_findColumnOnBoard_ok {workspaceId boardId columnId : Id} {c : ColumnRow}
    (h : (findColumnOnBoard workspaceId boardId columnId).run env w = (.ok c, w')) :
    c.id = columnId ∧ w'.db = w.db := by
  obtain ⟨x, w₁, h₁, h⟩ := Tx.run_bind_ok h
  obtain ⟨hx, rfl⟩ := run_query_ok h₁
  obtain ⟨rfl, rfl⟩ := run_orThrow_ok h
  have hp := List.find?_some hx.symm
  simp only [Bool.and_eq_true, decide_eq_true_eq] at hp
  exact ⟨hp.1.1, rfl⟩

theorem createBody_placed {workspaceId boardId userId : Id} {column : ColumnRow}
    {attributes : TaskAttributes} {afterTaskId : Option Id} {dto : TaskDto}
    (h : (createBody workspaceId boardId userId column attributes afterTaskId).run env w =
      (.ok dto, w')) :
    ∃ slot, resolveCreateNeighbors (siblings TaskRow w.db column.id) afterTaskId
        (js "Task not found") = .ok slot ∧
      (∀ t ∈ rows TaskRow w.db, t.id ≠ dto.id) ∧
      SlotOf ((others TaskRow w.db column.id dto.id).map toSibling) afterTaskId none slot ∧
      PlacedAt TaskRow w.db w'.db column.id dto.id slot.insertionIndex := by
  obtain ⟨_, w₁, h₁, h⟩ := Tx.run_bind_ok h
  have hdb₁ := run_lockRow_ok h₁
  obtain ⟨l, w₂, h₂, h⟩ := Tx.run_bind_ok h
  obtain ⟨rfl, hdb₂⟩ := run_findSiblings_ok h₂
  obtain ⟨slot, w₃, h₃, h⟩ := Tx.run_bind_ok h
  obtain ⟨hslot, hdb₃⟩ := run_ofExcept_ok h₃
  obtain ⟨p, w₄, h₄, h⟩ := Tx.run_bind_ok h
  obtain ⟨i, w₅, h₅, h⟩ := Tx.run_bind_ok h
  obtain ⟨now, w₆, h₆, h⟩ := Tx.run_bind_ok h
  obtain ⟨t, w₇, h₇, h⟩ := Tx.run_bind_ok h
  obtain ⟨hnew, ht, hdb₇⟩ := run_create_ok h₇
  rw [← ht] at hnew hdb₇
  obtain ⟨a, w₈, h₈, h⟩ := Tx.run_bind_ok h
  simp only [Tx.pure_eq, Tx.run_ret, Prod.mk.injEq, Except.ok.injEq] at h
  obtain ⟨rfl, rfl⟩ := h
  have hw₃ : w₃.db = w.db := by rw [hdb₃, hdb₂, hdb₁]
  have hw₆ : w₆.db = w₄.db := by rw [run_now_ok h₆, run_fresh_ok h₅]
  rw [hdb₁] at hslot h₄
  rw [← hw₃] at hslot h₄ ⊢
  rw [hw₆] at hnew
  have hlist : Placed.list t = column.id := by rw [ht]; rfl
  have hpos : Placed.position t = p := by rw [ht]; rfl
  refine ⟨slot, hslot, placedAt_create rfl hlist hslot h₄ hpos hnew ?_⟩
  rw [rows_record (by decide) h₈, hdb₇, hw₆]

/-- An accepted create, alone: the task is new, and stands in its column at the index its request
asks for. -/
theorem create_ok {rt : Runtime} {workspaceId boardId userId : Id} {dto : CreateTaskDto}
    {result : TaskDto}
    (h : (create rt workspaceId boardId userId dto).run env w = (.ok result, w')) :
    ∃ slot, resolveCreateNeighbors (siblings TaskRow w.db dto.columnId) dto.afterTaskId
        (js "Task not found") = .ok slot ∧
      (∀ t ∈ rows TaskRow w.db, t.id ≠ result.id) ∧
      SlotOf ((others TaskRow w.db dto.columnId result.id).map toSibling) dto.afterTaskId none
        slot ∧
      PlacedAt TaskRow w.db w'.db dto.columnId result.id slot.insertionIndex := by
  obtain ⟨_, w₁, h₁, h⟩ := Call.run_bind_ok h
  rw [Call.run_auto] at h₁
  obtain ⟨c, w₂, h₂, h⟩ := Call.run_bind_ok h
  rw [Call.run_auto] at h₂
  obtain ⟨a, w₃, h₃, h⟩ := Call.run_bind_ok h
  rw [Call.run_auto] at h₃
  obtain ⟨r, w₄, h₄, h⟩ := Call.run_bind_ok h
  obtain ⟨hc, hdb₂⟩ := run_findColumnOnBoard_ok h₂
  obtain ⟨_, rfl⟩ := run_ofExcept_ok h₃
  obtain ⟨w₅, h₅, rfl⟩ := Call.run_transaction_ok h₄
  obtain ⟨rfl, rfl⟩ := run_publish_ret_ok h
  have hplaced := createBody_placed h₅
  rw [hdb₂, run_assertBoard_ok h₁, hc] at hplaced
  exact hplaced

/-! ## Move -/

theorem run_fromColumn_ok {task : TaskRow} {target : ColumnRow} {c : Option ColumnRow}
    (h : (fromColumn task target).run env w = (.ok c, w')) : w'.db = w.db := by
  simp only [fromColumn] at h
  split at h
  · simp only [Tx.run_ret, Prod.mk.injEq] at h
    rw [← h.2]
  · obtain ⟨_, rfl⟩ := run_query_ok h
    rfl

/-- The row a move writes: the stored task, in its new column and position. -/
def MovedTo (db : Db) (taskId columnId : Id) (p : Position) (x : TaskRow) : Prop :=
  ∃ t ∈ rows TaskRow db, t.id = taskId ∧
    ∃ now, x = { t with columnId, position := p, updatedAt := now }

theorem MovedTo.id_eq {db : Db} {taskId columnId : Id} {p : Position} {x : TaskRow}
    (h : MovedTo db taskId columnId p x) : x.id = taskId := by
  obtain ⟨t, _, hid, now, rfl⟩ := h
  exact hid

theorem MovedTo.columnId_eq {db : Db} {taskId columnId : Id} {p : Position} {x : TaskRow}
    (h : MovedTo db taskId columnId p x) : x.columnId = columnId := by
  obtain ⟨t, _, _, now, rfl⟩ := h
  rfl

theorem run_writeMove_ok {workspaceId taskId columnId : Id} {p : Position} {t : TaskRow}
    (h : (writeMove workspaceId taskId columnId p).run env w = (.ok t, w')) :
    MovedTo w.db taskId columnId p t ∧ w'.db = w.db.put (.task t) := by
  obtain ⟨now, w₁, h₁, h⟩ := Tx.run_bind_ok h
  obtain ⟨r, hr, rfl, rfl⟩ := run_update_ok h
  obtain ⟨hmem, hid⟩ := byId_eq_some.mp (of_taskScope hr)
  have hdb := run_now_ok h₁
  rw [hdb] at hmem ⊢
  exact ⟨⟨r, hmem, hid, now, rfl⟩, rfl⟩

/-- What a move answers about the task. -/
structure AnswersMove (x : TaskRow) (dto : TaskDto) : Prop where
  id : dto.id = x.id
  boardId : dto.boardId = x.boardId
  columnId : dto.columnId = x.columnId
  position : dto.position = x.position

/-- The two branches of a move, as they leave the tasks. -/
theorem run_place_ok {workspaceId taskId columnId : Id} {task : TaskDetailRow}
    {remaining : List Sibling} {slot : InsertionSlot Sibling} {n : Nat} {dto : TaskDto}
    (hmem : task.task ∈ rows TaskRow w.db) (hid : task.task.id = taskId)
    (h : (place workspaceId taskId task columnId remaining slot n).run env w = (.ok dto, w')) :
    ∃ x : TaskRow, MovedTo w.db taskId columnId x.position x ∧ AnswersMove x dto ∧
      Moved x w.db w'.db columnId taskId remaining slot := by
  simp only [place] at h
  split at h
  · rename_i hn
    obtain ⟨x, w₁, h₁, h⟩ := Tx.run_bind_ok h
    obtain ⟨_, w₂, h₂, h⟩ := Tx.run_bind_ok h
    obtain ⟨now, w₃, h₃, h⟩ := Tx.run_bind_ok h
    simp only [Tx.pure_eq, Tx.run_ret, Prod.mk.injEq, Except.ok.injEq] at h
    obtain ⟨rfl, rfl⟩ := h
    obtain ⟨hx, hw₁⟩ := run_writeMove_ok h₁
    obtain ⟨t, ht, htid, now', rfl⟩ := id hx
    obtain rfl : t = task.task := eq_of_id ht hmem (htid.trans hid.symm)
    refine ⟨_, hx, ⟨rfl, rfl, rfl, rfl⟩,
      .inr ⟨hn, task.task.position, _, rfl, by rw [← hid]; rfl, fun r' => ?_⟩⟩
    rw [run_now_ok h₃, run_batchUpdatePositions_ok h₂, hw₁, hid]
    rfl
  · rename_i hn
    obtain ⟨x, w₁, h₁, h⟩ := Tx.run_bind_ok h
    obtain ⟨u, w₂, h₂, h⟩ := Tx.run_bind_ok h
    obtain ⟨rfl, hw₂⟩ := run_query_ok h₂
    simp only [Tx.pure_eq, Tx.run_ret, Prod.mk.injEq, Except.ok.injEq] at h
    obtain ⟨rfl, rfl⟩ := h
    obtain ⟨hx, hw₁⟩ := run_writeMove_ok h₁
    obtain ⟨t, ht, htid, now', rfl⟩ := id hx
    refine ⟨_, hx, ⟨rfl, rfl, rfl, rfl⟩, .inl ⟨by simpa using hn, rfl, ?_⟩⟩
    rw [hw₂, hw₁]
    rfl

/-- A move's transaction, alone: the slot it found, the row it left and its answer. -/
theorem moveBody_ok {workspaceId taskId userId : Id} {dto : MoveTaskDto} {result : TaskDto}
    (h : (moveBody workspaceId taskId userId dto).run env w = (.ok result, w')) :
    ∃ slot x, resolveMoveNeighbors
        ((siblings TaskRow w.db dto.columnId).filter fun s => s.id ≠ taskId)
        dto.beforeTaskId dto.afterTaskId = .ok slot ∧
      MovedTo w.db taskId dto.columnId x.position x ∧ AnswersMove x result ∧
      (∃ target ∈ rows ColumnRow w.db, target.id = dto.columnId ∧ target.boardId = x.boardId) ∧
      Moved x w.db w'.db dto.columnId taskId
        ((siblings TaskRow w.db dto.columnId).filter fun s => s.id ≠ taskId) slot := by
  obtain ⟨found, w₁, h₁, h⟩ := Tx.run_bind_ok h
  obtain ⟨task, w₂, h₂, h⟩ := Tx.run_bind_ok h
  obtain ⟨_, w₃, h₃, h⟩ := Tx.run_bind_ok h
  obtain ⟨foundColumn, w₄, h₄, h⟩ := Tx.run_bind_ok h
  obtain ⟨target, w₅, h₅, h⟩ := Tx.run_bind_ok h
  obtain ⟨_, w₆, h₆, h⟩ := Tx.run_bind_ok h
  obtain ⟨_, w₇, h₇, h⟩ := Tx.run_bind_ok h
  obtain ⟨_, w₈, h₈, h⟩ := Tx.run_bind_ok h
  obtain ⟨l, w₉, h₉, h⟩ := Tx.run_bind_ok h
  obtain ⟨slot, w₁₀, h₁₀, h⟩ := Tx.run_bind_ok h
  obtain ⟨n, w₁₁, h₁₁, h⟩ := Tx.run_bind_ok h
  obtain ⟨r, w₁₂, h₁₂, h⟩ := Tx.run_bind_ok h
  obtain ⟨a, w₁₃, h₁₃, h⟩ := Tx.run_bind_ok h
  simp only [Tx.pure_eq, Tx.run_ret, Prod.mk.injEq, Except.ok.injEq] at h
  obtain ⟨rfl, rfl⟩ := h
  obtain ⟨hfound, hw₁⟩ := run_query_ok h₁
  obtain ⟨htask, hw₂⟩ := run_orThrow_ok h₂
  obtain ⟨_, hw₃⟩ := run_throwIf_ok h₃
  obtain ⟨hcolumn, hw₄⟩ := run_query_ok h₄
  obtain ⟨htarget, hw₅⟩ := run_orThrow_ok h₅
  obtain ⟨hboard, hw₆⟩ := run_throwIf_ok h₆
  have hw₇ := run_fromColumn_ok h₇
  have hw₈ := run_lockRow_ok h₈
  obtain ⟨rfl, hw₉⟩ := run_findSiblings_ok h₉
  obtain ⟨hslot, hw₁₀⟩ := run_ofExcept_ok h₁₀
  obtain ⟨_, hw₁₁⟩ := run_query_ok h₁₁
  have hdb₈ : w₈.db = w.db := by simp only [hw₈, hw₇, hw₆, hw₅, hw₄, hw₃, hw₂, hw₁]
  have hdb₁₁ : w₁₁.db = w.db := by simp only [hw₁₁, hw₁₀, hw₉, hdb₈]
  obtain ⟨hmem, hid⟩ : task.task ∈ rows TaskRow w.db ∧ task.task.id = taskId := by
    rw [hfound] at htask
    obtain ⟨t, ht, rfl⟩ := Option.map_eq_some_iff.mp htask
    exact byId_eq_some.mp (of_taskScope ht)
  have hdb₃ : w₃.db = w.db := by simp only [hw₃, hw₂, hw₁]
  obtain ⟨htmem, hcid⟩ : target ∈ rows ColumnRow w.db ∧ target.id = dto.columnId := by
    rw [hcolumn, hdb₃] at htarget
    exact byId_eq_some.mp (of_columnScope htarget)
  rw [hdb₈, hcid] at hslot h₁₂
  rw [← hdb₁₁] at hslot h₁₂ hmem htmem ⊢
  obtain ⟨x, hx, hans, hmoved⟩ := run_place_ok hmem hid h₁₂
  have hxb : target.boardId = x.boardId := by
    obtain ⟨t, ht, htid, now, hxe⟩ := hx
    obtain rfl : t = task.task := eq_of_id ht hmem (htid.trans hid.symm)
    rw [hxe]
    simpa using hboard
  exact ⟨slot, x, hslot, hx, hans, ⟨target, htmem, hcid, hxb⟩, hmoved.of_rows (rows_record (by decide) h₁₃)⟩

/-- A move, alone: its transaction, and one event about it to its board. -/
theorem move_run_ok {workspaceId taskId userId : Id} {dto : MoveTaskDto} {result : TaskDto}
    (h : (move workspaceId taskId userId dto).run env w = (.ok result, w')) :
    ∃ w₁, (moveBody workspaceId taskId userId dto).run env w = (.ok result, w₁) ∧
      w'.db = w₁.db ∧ w'.events = w.events ++ [.toBoard result.boardId workspaceId userId
        (.taskMoved result.id result.columnId result.position)] := by
  obtain ⟨r, w₁, h₁, h⟩ := Call.run_bind_ok h
  obtain ⟨w₂, h₂, rfl⟩ := Call.run_transaction_ok h₁
  obtain ⟨rfl, rfl⟩ := run_publish_ret_ok h
  refine ⟨w₂, h₂, rfl, ?_⟩
  have hevents := Tx.run_events env (moveBody workspaceId taskId userId dto) w
  rw [h₂] at hevents
  rw [← hevents]

/-- An accepted move, alone: the task stands in the target column at the index its request asks
for. -/
theorem move_ok {workspaceId taskId userId : Id} {dto : MoveTaskDto} {result : TaskDto}
    (h : (move workspaceId taskId userId dto).run env w = (.ok result, w')) :
    result.id = taskId ∧ ∃ slot, resolveMoveNeighbors
        ((siblings TaskRow w.db dto.columnId).filter fun s => s.id ≠ taskId)
        dto.beforeTaskId dto.afterTaskId = .ok slot ∧
      SlotOf ((others TaskRow w.db dto.columnId taskId).map toSibling) dto.beforeTaskId
        dto.afterTaskId slot ∧
      PlacedAt TaskRow w.db w'.db dto.columnId taskId slot.insertionIndex := by
  obtain ⟨w₁, h₁, hdb, _⟩ := move_run_ok h
  obtain ⟨slot, x, hslot, hx, hans, _, hmoved⟩ := moveBody_ok h₁
  rw [hdb]
  exact ⟨hans.id.trans hx.id_eq, slot, hslot, placedAt_move hx.id_eq hx.columnId_eq hslot hmoved⟩

end TaskService
end Kurul
