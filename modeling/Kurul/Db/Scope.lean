import Kurul.Db.Prisma

/-!
# Kurul.Db.Scope

Relation paths in `where` clauses: how far a row is from the workspace it belongs to.
-/

namespace Kurul

/-- The row a reference names. -/
def byId (R : Type) [Model R] (db : Db) (i : Id) : Option R :=
  (rows R db).find? fun r => Model.id r = i

theorem byId_eq_some {R : Type} [Model R] {db : Db} {i : Id} {r : R} :
    byId R db i = some r ↔ r ∈ rows R db ∧ Model.id r = i := by
  constructor
  · intro h
    exact ⟨List.mem_of_find?_eq_some h, by simpa using List.find?_some h⟩
  · rintro ⟨hr, rfl⟩
    cases hs : byId R db (Model.id r) with
    | none =>
      have := List.find?_eq_none.mp hs r hr
      simp at this
    | some s =>
      have hmem := List.mem_of_find?_eq_some hs
      have hid : Model.id s = Model.id r := by simpa using List.find?_some hs
      rw [eq_of_id hmem hr hid]

/-- `board: { workspaceId }`, through a row's board id. -/
def onBoardOf (db : Db) (workspaceId boardId : Id) : Bool :=
  (byId BoardRow db boardId).any fun b => b.workspaceId = workspaceId

/-- `task: { board: { workspaceId } }`, through a row's task id. -/
def onTaskOf (db : Db) (workspaceId taskId : Id) : Bool :=
  (byId TaskRow db taskId).any fun t => onBoardOf db workspaceId t.boardId

/-- `where: { id, board: { workspaceId } }` on a task. -/
def taskScope (workspaceId taskId : Id) (db : Db) (t : TaskRow) : Bool :=
  t.id = taskId && onBoardOf db workspaceId t.boardId

/-- `where: { id, board: { workspaceId } }` on a column. -/
def columnScope (workspaceId columnId : Id) (db : Db) (c : ColumnRow) : Bool :=
  c.id = columnId && onBoardOf db workspaceId c.boardId

/-- `where: { id, workspaceId }` on a board. -/
def boardScope (workspaceId boardId : Id) (_ : Db) (b : BoardRow) : Bool :=
  b.id = boardId && b.workspaceId = workspaceId

section Found

variable {db : Db} {workspaceId : Id}

theorem of_columnScope {columnId : Id} {c : ColumnRow}
    (h : (rows ColumnRow db).find? (columnScope workspaceId columnId db) = some c) :
    byId ColumnRow db columnId = some c := by
  have hp := List.find?_some h
  simp only [columnScope, Bool.and_eq_true, decide_eq_true_eq] at hp
  exact byId_eq_some.mpr ⟨List.mem_of_find?_eq_some h, hp.1⟩

theorem of_boardScope {boardId : Id} {b : BoardRow}
    (h : (rows BoardRow db).find? (boardScope workspaceId boardId db) = some b) :
    byId BoardRow db boardId = some b := by
  have hp := List.find?_some h
  simp only [boardScope, Bool.and_eq_true, decide_eq_true_eq] at hp
  exact byId_eq_some.mpr ⟨List.mem_of_find?_eq_some h, hp.1⟩

theorem of_taskScope {taskId : Id} {t : TaskRow}
    (h : (rows TaskRow db).find? (taskScope workspaceId taskId db) = some t) :
    byId TaskRow db taskId = some t := by
  have hp := List.find?_some h
  simp only [taskScope, Bool.and_eq_true, decide_eq_true_eq] at hp
  exact byId_eq_some.mpr ⟨List.mem_of_find?_eq_some h, hp.1⟩

end Found

open Sql

def assertBoard (workspaceId boardId : Id) : Tx kurul BoardRow := do
  let board ← findFirst (boardScope workspaceId boardId)
  orThrow board (.notFound (js "Board not found"))

theorem readOnly_assertBoard (workspaceId boardId : Id) :
    (assertBoard workspaceId boardId).ReadOnly :=
  (readOnly_query _).bind fun _ => readOnly_orThrow _ _

theorem run_assertBoard_ok {env : Env kurul} {w w' : World kurul} {workspaceId boardId : Id} {b : BoardRow}
    (h : (assertBoard workspaceId boardId).run env w = (.ok b, w')) : w'.db = w.db := by
  obtain ⟨x, w₁, h₁, h⟩ := Tx.run_bind_ok h
  obtain ⟨_, rfl⟩ := run_query_ok h₁
  obtain ⟨_, rfl⟩ := run_orThrow_ok h
  rfl

end Kurul
