import Kurul.Audit.Entries
import Kurul.Sql.Ends
import Kurul.Task.Placement
import Kurul.Task.TaskRead

/-!
# Kurul.Dashboard.History

Tasks created, updated, moved and deleted, columns recategorised and deleted, boards deleted, one
request after another, and the board each entry of the log is about.

An entry names a task, and through it a board, until the task is deleted and the reference becomes
null. `History` keeps beside the database the board each entry was about when it was written.

* `Sound`             — what a live reference says about an entry's board is right.
* `Quiet`, `Logs`     — what a request leaves: no entry that is counted, or one about its task.
* `History.run_sound` — the invariant, along every history.
-/

namespace Kurul
namespace Dashboard

open Sql

/-! ## Histories -/

inductive Op where
  | createTask (workspaceId boardId userId : Id) (dto : CreateTaskDto)
  | updateTask (workspaceId taskId userId : Id) (dto : UpdateTaskDto)
  | moveTask (workspaceId taskId userId : Id) (dto : MoveTaskDto)
  | removeTask (workspaceId taskId userId : Id)
  | updateColumn (workspaceId columnId actorId : Id) (dto : UpdateColumnDto)
  | removeColumn (workspaceId columnId actorId : Id)
  | removeBoard (workspaceId boardId actorId : Id)

def Op.call (rt : Runtime) : Op → Call kurul Unit
  | .createTask workspaceId boardId userId dto => do
    let _ ← TaskService.create rt workspaceId boardId userId dto
  | .updateTask workspaceId taskId userId dto => do
    let _ ← TaskService.update rt workspaceId taskId userId dto
  | .moveTask workspaceId taskId userId dto => do
    let _ ← TaskService.move workspaceId taskId userId dto
  | .removeTask workspaceId taskId userId => TaskService.remove workspaceId taskId userId
  | .updateColumn workspaceId columnId actorId dto => do
    let _ ← ColumnService.update workspaceId columnId actorId dto
  | .removeColumn workspaceId columnId actorId => ColumnService.remove workspaceId columnId actorId
  | .removeBoard workspaceId boardId actorId => BoardService.remove workspaceId boardId actorId

/-- The board of the task an entry names. -/
def taskBoard (db : Db) (entryId : Id) : Option Id :=
  (((byId ActivityRow db entryId).bind ActivityRow.taskId).bind (byId TaskRow db)).map
    TaskRow.boardId

/-- Entries that are new get the board of their task; the others keep the one they have. -/
def attributed (boardOf : Id → Option Id) (before after : Db) (entryId : Id) : Option Id :=
  if (byId ActivityRow before entryId).isSome then boardOf entryId else taskBoard after entryId

structure History where
  world : World kurul
  /-- The board each entry of the log was about when it was written. -/
  boardOf : Id → Option Id

namespace History

def start (db : Db) : History := ⟨World.start db, fun _ => none⟩

/-- One request, alone. -/
def next (rt : Runtime) (env : Env kurul) (s : History) (op : Op) : History :=
  let after := ((op.call rt).run env s.world).2
  ⟨after, attributed s.boardOf s.world.db after.db⟩

def run (rt : Runtime) (env : Env kurul) (db : Db) (ops : List Op) : History :=
  ops.foldl (next rt env) (start db)

end History

/-- A database to start from: every task stands in a column of its own board, and the log tells of
no task that was created or moved. -/
structure Unlogged (db : Db) : Prop where
  columns : ∀ t ∈ rows TaskRow db, (Row.task t).composite db = true
  log : ∀ a ∈ rows ActivityRow db, a.type ≠ .taskCreated ∧ a.type ≠ .taskMoved

/-! ## The invariant -/

/-- An entry of the throughput series. -/
def Counted (type : ActivityType) : Prop := type = .taskCreated ∨ type = .taskMoved

structure Sound (boardOf : Id → Option Id) (db : Db) : Prop where
  columns : ∀ t ∈ rows TaskRow db, ∀ c ∈ rows ColumnRow db, c.id = t.columnId →
    c.boardId = t.boardId
  tasks : ∀ a ∈ rows ActivityRow db, Counted a.type → ∀ i, a.taskId = some i →
    ∃ t ∈ rows TaskRow db, t.id = i ∧ boardOf a.id = some t.boardId
  targets : ∀ a ∈ rows ActivityRow db, a.type = .taskMoved → ∀ c ∈ rows ColumnRow db,
    a.text "toColumnId" = some c.id → boardOf a.id = some c.boardId

variable {rt : Runtime} {env : Env kurul} {db db' db₁ : Db} {f g : Id → Option Id}

theorem Unlogged.sound (h : Unlogged db) (f : Id → Option Id) : Sound f db where
  columns t ht c hc hid := by
    have hcomp := h.columns t ht
    have hget : db.get? ⟨.column, t.columnId⟩ = some (.column c) := hid ▸ get?_row hc
    simpa [Row.composite, hget] using hcomp
  tasks a ha hcounted := by
    rcases hcounted with htype | htype
    · exact absurd htype (h.log a ha).1
    · exact absurd htype (h.log a ha).2
  targets a ha htype := absurd htype (h.log a ha).2

/-- The invariant is about counted entries alone. -/
theorem Sound.congr (h : Sound f db)
    (hfg : ∀ a ∈ rows ActivityRow db, Counted a.type → g a.id = f a.id) : Sound g db where
  columns := h.columns
  tasks a ha hcounted i hi := by
    rw [hfg a ha hcounted]
    exact h.tasks a ha hcounted i hi
  targets a ha htype := by
    rw [hfg a ha (.inr htype)]
    exact h.targets a ha htype

/-- Writes that leave the log alone, and every task and column on its board. -/
structure Rewrites (db db' : Db) : Prop where
  tasks : ∀ t' ∈ rows TaskRow db', (∃ t ∈ rows TaskRow db, t.boardId = t'.boardId ∧
      t.columnId = t'.columnId) ∨
    ∃ c ∈ rows ColumnRow db, c.id = t'.columnId ∧ c.boardId = t'.boardId
  kept : ∀ t ∈ rows TaskRow db, ∃ t' ∈ rows TaskRow db', t'.id = t.id ∧ t'.boardId = t.boardId
  columns : ∀ c' ∈ rows ColumnRow db', ∃ c ∈ rows ColumnRow db, c.id = c'.id ∧ c.boardId = c'.boardId
  log : rows ActivityRow db' = rows ActivityRow db

theorem Rewrites.refl (db : Db) : Rewrites db db where
  tasks t ht := .inl ⟨t, ht, rfl, rfl⟩
  kept t ht := ⟨t, ht, rfl, rfl⟩
  columns c hc := ⟨c, hc, rfl, rfl⟩
  log := rfl

theorem Rewrites.trans (h : Rewrites db db₁) (h' : Rewrites db₁ db') : Rewrites db db' where
  tasks t' ht' := by
    rcases h'.tasks t' ht' with ⟨t₁, ht₁, hb, hc⟩ | ⟨c₁, hc₁, hid, hb⟩
    · rcases h.tasks t₁ ht₁ with ⟨t, ht, hb', hc'⟩ | ⟨c, hcol, hid, hb'⟩
      · exact .inl ⟨t, ht, hb'.trans hb, hc'.trans hc⟩
      · exact .inr ⟨c, hcol, hid.trans hc, hb'.trans hb⟩
    · obtain ⟨c, hcol, hid', hb'⟩ := h.columns c₁ hc₁
      exact .inr ⟨c, hcol, hid'.trans hid, hb'.trans hb⟩
  kept t ht := by
    obtain ⟨t₁, ht₁, hid₁, hb₁⟩ := h.kept t ht
    obtain ⟨t', ht', hid, hb⟩ := h'.kept t₁ ht₁
    exact ⟨t', ht', hid.trans hid₁, hb.trans hb₁⟩
  columns c' hc' := by
    obtain ⟨c₁, hc₁, hid₁, hb₁⟩ := h'.columns c' hc'
    obtain ⟨c, hc, hid, hb⟩ := h.columns c₁ hc₁
    exact ⟨c, hc, hid.trans hid₁, hb.trans hb₁⟩
  log := h'.log.trans h.log

theorem Sound.rewrites (h : Sound f db) (hr : Rewrites db db') : Sound f db' where
  columns t' ht' c' hc' hid := by
    obtain ⟨c, hc, hcid, hcb⟩ := hr.columns c' hc'
    rcases hr.tasks t' ht' with ⟨t, ht, hb, hcol⟩ | ⟨c₀, hc₀, hid₀, hb₀⟩
    · rw [← hcb, ← hb]
      exact h.columns t ht c hc (hcid.trans (hid.trans hcol.symm))
    · obtain rfl : c = c₀ := eq_of_id hc hc₀ (hcid.trans (hid.trans hid₀.symm))
      exact hcb.symm.trans hb₀
  tasks a ha hcounted i hi := by
    obtain ⟨t, ht, rfl, hof⟩ := h.tasks a (hr.log ▸ ha) hcounted i hi
    obtain ⟨t', ht', hid, hb⟩ := hr.kept t ht
    exact ⟨t', ht', hid, hb ▸ hof⟩
  targets a ha htype c' hc' htext := by
    obtain ⟨c, hc, hcid, hcb⟩ := hr.columns c' hc'
    rw [← hcb]
    exact h.targets a (hr.log ▸ ha) htype c hc (hcid ▸ htext)

/-! ### Requests that log nothing that is counted -/

structure Quiet (db db' : Db) : Prop where
  sound : ∀ f, Sound f db → Sound f db'
  log : ∀ a' ∈ rows ActivityRow db', Counted a'.type →
    ∃ a ∈ rows ActivityRow db, a.id = a'.id ∧ Counted a.type

theorem Quiet.trans (h : Quiet db db₁) (h' : Quiet db₁ db') : Quiet db db' where
  sound f hf := h'.sound f (h.sound f hf)
  log a' ha' hcounted := by
    obtain ⟨a₁, ha₁, hid₁, hc₁⟩ := h'.log a' ha' hcounted
    obtain ⟨a, ha, hid, hc⟩ := h.log a₁ ha₁ hc₁
    exact ⟨a, ha, hid.trans hid₁, hc⟩

theorem Rewrites.quiet (h : Rewrites db db') : Quiet db db' where
  sound _ hf := hf.rewrites h
  log a ha hcounted := ⟨a, h.log ▸ ha, rfl, hcounted⟩

section Entry

variable {v : ActivityRow}

theorem tasks_put : rows TaskRow (db.put (.activity v)) = rows TaskRow db :=
  rows_put_of_ne (by simp [Row.key, Model.table])

theorem columns_put : rows ColumnRow (db.put (.activity v)) = rows ColumnRow db :=
  rows_put_of_ne (by simp [Row.key, Model.table])

/-- An entry of another kind. -/
theorem quiet_note (hv : ¬ Counted v.type) : Quiet db (db.put (.activity v)) := by
  have hmem : ∀ a ∈ rows ActivityRow (db.put (.activity v)), Counted a.type →
      a ∈ rows ActivityRow db := by
    intro a ha hcounted
    rcases (mem_rows_put (r := v)).mp ha with rfl | ⟨ha, _⟩
    · exact absurd hcounted hv
    · exact ha
  refine ⟨fun f hf => ⟨?_, ?_, ?_⟩, fun a ha hcounted => ⟨a, hmem a ha hcounted, rfl, hcounted⟩⟩
  · rw [tasks_put, columns_put]
    exact hf.columns
  · intro a ha hcounted
    rw [tasks_put]
    exact hf.tasks a (hmem a ha hcounted) hcounted
  · intro a ha htype
    rw [columns_put]
    exact hf.targets a (hmem a ha (.inr htype)) htype

/-- An entry about a stored task, into a column of its board if it is a move. -/
theorem Sound.entry {t : TaskRow} (h : Sound f db) (ht : t ∈ rows TaskRow db)
    (htask : v.taskId = some t.id) (hof : f v.id = some t.boardId)
    (htarget : v.type = .taskMoved → ∀ c ∈ rows ColumnRow db, v.text "toColumnId" = some c.id →
      c.boardId = t.boardId) : Sound f (db.put (.activity v)) where
  columns := by
    rw [tasks_put, columns_put]
    exact h.columns
  tasks a ha hcounted i hi := by
    rw [tasks_put]
    rcases (mem_rows_put (r := v)).mp ha with rfl | ⟨ha, _⟩
    · exact ⟨t, ht, Option.some.inj (htask.symm.trans hi), hof⟩
    · exact h.tasks a ha hcounted i hi
  targets a ha htype c hc htext := by
    rw [columns_put] at hc
    rcases (mem_rows_put (r := v)).mp ha with rfl | ⟨ha, _⟩
    · rw [hof, htarget htype c hc htext]
    · exact h.targets a ha htype c hc htext

end Entry

/-- A delete: what an entry still names is still there. -/
theorem quiet_deletion {ks : List Key} {ws : List (Write Key Row)}
    (h : db.deletion references ks = some ws) : Quiet db (db.applyAll ws) := by
  have htask : ∀ t ∈ rows TaskRow (db.applyAll ws), t ∈ rows TaskRow db := by
    intro t ht
    obtain ⟨v, hv, _, ⟨hv', _⟩ | hv'⟩ := Store.mem_applyAll_deletion h (mem_rows.mp ht)
    · exact mem_rows.mpr (hv' ▸ hv)
    · cases v <;> simp_all [Model.row, references, Row.clear, mem_rows]
  have hcolumn : ∀ c ∈ rows ColumnRow (db.applyAll ws), c ∈ rows ColumnRow db := by
    intro c hc
    obtain ⟨v, hv, _, ⟨hv', _⟩ | hv'⟩ := Store.mem_applyAll_deletion h (mem_rows.mp hc)
    · exact mem_rows.mpr (hv' ▸ hv)
    · cases v <;> simp_all [Model.row, references, Row.clear, mem_rows]
  have hentry : ∀ a' ∈ rows ActivityRow (db.applyAll ws), ∃ a ∈ rows ActivityRow db,
      a.id = a'.id ∧ a.type = a'.type ∧ a.payload = a'.payload ∧ ∀ i, a'.taskId = some i →
        a.taskId = some i ∧ (⟨.task, i⟩ : Key) ∉ db.doomed references ks := by
    intro a' ha'
    obtain ⟨v, hv, _, ⟨hv', hn⟩ | hv'⟩ := Store.mem_applyAll_deletion h (mem_rows.mp ha')
    · subst hv'
      refine ⟨a', mem_rows.mpr hv, rfl, rfl, rfl, fun i hi => ⟨hi, fun hgone => ?_⟩⟩
      have hnames : references.names .setNull (db.doomed references ks) (.activity a') = true :=
        references.names_iff.mpr ⟨_, hgone, by simp [references, Row.refs, hi]⟩
      exact Bool.false_ne_true (hn.symm.trans hnames)
    · cases v with
      | activity a =>
        cases hv'
        refine ⟨a, mem_rows.mpr hv, rfl, rfl, rfl, fun i hi => ?_⟩
        obtain ⟨htask, hkept⟩ := Option.filter_eq_some_iff.mp hi
        exact ⟨htask, by simpa using hkept⟩
      | _ => cases hv'
  refine ⟨fun f hf => ⟨?_, ?_, ?_⟩, ?_⟩
  · intro t ht c hc
    exact hf.columns t (htask t ht) c (hcolumn c hc)
  · intro a' ha' hcounted i hi
    obtain ⟨a, ha, hid, htype, _, hlive⟩ := hentry a' ha'
    obtain ⟨hi', hkept⟩ := hlive i hi
    obtain ⟨t, ht, rfl, hof⟩ := hf.tasks a ha (htype ▸ hcounted) i hi'
    refine ⟨t, mem_rows.mpr (Store.mem_of_deletion h (mem_rows.mp ht) hkept ?_), rfl, hid ▸ hof⟩
    simp [References.names, references, Model.row, Row.refs]
  · intro a' ha' htype c hc htext
    obtain ⟨a, ha, hid, htype', hpayload, _⟩ := hentry a' ha'
    rw [← hid]
    refine hf.targets a ha (htype'.trans htype) c (hcolumn c hc) ?_
    rw [← htext, ActivityRow.text, ActivityRow.text, ActivityRow.member, ActivityRow.member, hpayload]
  · intro a' ha' hcounted
    obtain ⟨a, ha, hid, htype, _⟩ := hentry a' ha'
    exact ⟨a, ha, hid, htype ▸ hcounted⟩

theorem Quiet.attributed (h : Quiet db db') (hf : Sound f db) : Sound (attributed f db db') db' := by
  refine (h.sound f hf).congr fun a' ha' hcounted => ?_
  obtain ⟨a, ha, hid, _⟩ := h.log a' ha' hcounted
  have hold : byId ActivityRow db a'.id = some a := byId_eq_some.mpr ⟨ha, hid⟩
  rw [Dashboard.attributed, hold]
  rfl

/-! ### Requests that log what they do to a task -/

/-- Tasks are rewritten, and an entry is written about one of them. -/
structure Logs (db db₁ db' : Db) (v : ActivityRow) (t : TaskRow) : Prop where
  rewrites : Rewrites db db₁
  task : t ∈ rows TaskRow db₁
  fresh : insertRefusal (.activity v) db₁ = none
  put : db' = db₁.put (.activity v)
  of : v.taskId = some t.id
  target : v.type = .taskMoved → ∀ c ∈ rows ColumnRow db₁, v.text "toColumnId" = some c.id →
    c.boardId = t.boardId

theorem Logs.attributed {v : ActivityRow} {t : TaskRow} (h : Logs db db₁ db' v t)
    (hf : Sound f db) : Sound (attributed f db db') db' := by
  obtain ⟨hr, ht, hfresh, rfl, hof, htarget⟩ := h
  have hnew : byId ActivityRow db v.id = none := by
    refine List.find?_eq_none.mpr fun a ha hid => ?_
    exact not_mem_of_insertRefusal (R := ActivityRow) hfresh a (hr.log ▸ ha) (of_decide_eq_true hid)
  have hboard : taskBoard (db₁.put (.activity v)) v.id = some t.boardId := by
    have hv : byId ActivityRow (db₁.put (.activity v)) v.id = some v :=
      byId_eq_some.mpr ⟨(mem_rows_put (r := v)).mpr (.inl rfl), rfl⟩
    have ht' : byId TaskRow (db₁.put (.activity v)) t.id = some t :=
      byId_eq_some.mpr ⟨by rwa [tasks_put], rfl⟩
    rw [taskBoard, hv, Option.bind_some, hof, Option.bind_some, ht']
    rfl
  have hold : Sound (Dashboard.attributed f db (db₁.put (.activity v))) db₁ := by
    refine (hf.rewrites hr).congr fun a ha _ => ?_
    have hget : byId ActivityRow db a.id = some a := byId_eq_some.mpr ⟨hr.log ▸ ha, rfl⟩
    rw [Dashboard.attributed, hget]
    rfl
  refine hold.entry ht hof ?_ htarget
  rw [Dashboard.attributed, hnew]
  exact hboard

/-! ## The requests -/

section Requests

variable {w w' : World kurul} {workspaceId taskId boardId columnId userId : Id}

/-- A task put on the board it was on, or is new on. -/
theorem rewrites_task {x : TaskRow}
    (hold : ∀ t ∈ rows TaskRow db, t.id = x.id → t.boardId = x.boardId)
    (hcolumn : (∃ t ∈ rows TaskRow db, t.boardId = x.boardId ∧ t.columnId = x.columnId) ∨
      ∃ c ∈ rows ColumnRow db, c.id = x.columnId ∧ c.boardId = x.boardId) :
    Rewrites db (db.put (.task x)) where
  tasks t' ht' := by
    rcases (mem_rows_put (r := x)).mp ht' with rfl | ⟨ht', _⟩
    · exact hcolumn
    · exact .inl ⟨t', ht', rfl, rfl⟩
  kept t ht := by
    by_cases hid : t.id = x.id
    · exact ⟨x, (mem_rows_put (r := x)).mpr (.inl rfl), hid.symm, (hold t ht hid).symm⟩
    · exact ⟨t, (mem_rows_put (r := x)).mpr (.inr ⟨ht, hid⟩), rfl, rfl⟩
  columns c hc := by
    rw [rows_put_of_ne (by simp [Row.key, Model.table])] at hc
    exact ⟨c, hc, rfl, rfl⟩
  log := rows_put_of_ne (by simp [Row.key, Model.table])

theorem rewrites_column {c x : ColumnRow} (hc : c ∈ rows ColumnRow db) (hid : x.id = c.id)
    (hboard : x.boardId = c.boardId) : Rewrites db (db.put (.column x)) where
  tasks t ht := by
    rw [rows_put_of_ne (by simp [Row.key, Model.table])] at ht
    exact .inl ⟨t, ht, rfl, rfl⟩
  kept t ht := ⟨t, by rwa [rows_put_of_ne (by simp [Row.key, Model.table])], rfl, rfl⟩
  columns c' hc' := by
    rcases (mem_rows_put (r := x)).mp hc' with rfl | ⟨hc', _⟩
    · exact ⟨c, hc, hid.symm, hboard.symm⟩
    · exact ⟨c', hc', rfl, rfl⟩
  log := rows_put_of_ne (by simp [Row.key, Model.table])

/-- Positions say nothing about boards. -/
theorem rewrites_repositioned {listId : Id} {updates : List PositionUpdate}
    (htask : ∀ t', t' ∈ rows TaskRow db' ↔ ∃ t ∈ rows TaskRow db, t' = repositioned listId updates t)
    (hcolumn : rows ColumnRow db' = rows ColumnRow db)
    (hlog : rows ActivityRow db' = rows ActivityRow db) : Rewrites db db' where
  tasks t' ht' := by
    obtain ⟨t, ht, rfl⟩ := (htask t').mp ht'
    rcases repositioned_cases listId updates t with h | ⟨_, p, h⟩
    · exact .inl ⟨t, ht, by rw [h], by rw [h]⟩
    · exact .inl ⟨t, ht, by rw [h]; rfl, by rw [h]; rfl⟩
  kept t ht := by
    refine ⟨_, (htask _).mpr ⟨t, ht, rfl⟩, id_repositioned listId updates t, ?_⟩
    rcases repositioned_cases listId updates t with h | ⟨_, p, h⟩
    · rw [h]
    · rw [h]
      rfl
  columns c hc := ⟨c, hcolumn ▸ hc, rfl, rfl⟩
  log := hlog

/-- What writes tasks leaves the other tables as they were. -/
theorem rows_of_task_writes {α : Type} {b : Tx kurul α} {a : α}
    (hb : b.Writes fun (x : Write Key Row) => x.key.table = .task) (h : b.run env w = (.ok a, w'))
    {R : Type} [Model R] (hR : Model.table R ≠ .task) : rows R w'.db = rows R w.db := by
  obtain ⟨ws, hws, hdb⟩ := hb.run env w
  rw [h] at hdb
  rw [hdb]
  exact rows_applyAll_of_ne fun x hx heq => hR (heq.symm.trans (hws x hx))

theorem rewrites_batch {updates : List PositionUpdate} {u : Unit}
    (h : (batchUpdateTaskPositions columnId updates).run env w = (.ok u, w')) :
    Rewrites w.db w'.db := by
  have hw : (batchUpdatePositions TaskRow columnId updates).Writes
      fun (x : Write Key Row) => x.key.table = .task :=
    writes_batchUpdatePositions (fun _ => rfl) updates
  exact rewrites_repositioned (run_batchUpdatePositions_ok h)
    (rows_of_task_writes hw h (by simp [Model.table])) (rows_of_task_writes hw h (by simp [Model.table]))

theorem rewrites_makeRoom {siblings : List Sibling} {slot : InsertionSlot Sibling} {p : Position}
    (h : (makeRoom TaskRow columnId siblings slot).run env w = (.ok p, w')) :
    Rewrites w.db w'.db := by
  have hw := writes_makeRoom (R := TaskRow) (p := fun x => x.key.table = .task) (fun _ => rfl)
    columnId siblings slot
  rcases run_makeRoom_ok h with ⟨_, _, rfl⟩ | ⟨_, htask⟩
  · exact .refl _
  · exact rewrites_repositioned htask (rows_of_task_writes hw h (by simp [Model.table]))
      (rows_of_task_writes hw h (by simp [Model.table]))

/-- A new task stands in a column of its own board. -/
theorem rewrites_created {t : TaskRow} (h : insertRefusal (.task t) db = none) :
    Rewrites db (db.put (.task t)) := by
  refine rewrites_task (fun t' ht' hid => absurd hid (not_mem_of_insertRefusal (R := TaskRow) h t' ht'))
    (.inr ?_)
  have hresolves := resolves_of_insertRefusal h
  simp only [Row.resolves, Row.composite, Bool.and_eq_true] at hresolves
  cases hget : db.get? ⟨.column, t.columnId⟩ with
  | none => simp [hget] at hresolves
  | some v =>
    obtain ⟨c, rfl, hc, hid⟩ := (get?_eq_some (R := ColumnRow)).mp hget
    refine ⟨c, hc, hid, ?_⟩
    simpa [hget, Model.row] using hresolves.2

theorem createBody_logs {column : ColumnRow} {attributes : TaskAttributes}
    {afterTaskId : Option Id} {dto : TaskDto}
    (h : (TaskService.createBody workspaceId boardId userId column attributes afterTaskId).run env w =
      (.ok dto, w')) : ∃ db₁ v t, Logs w.db db₁ w'.db v t := by
  obtain ⟨_, w₁, h₁, h⟩ := Tx.run_bind_ok h
  obtain ⟨l, w₂, h₂, h⟩ := Tx.run_bind_ok h
  obtain ⟨slot, w₃, h₃, h⟩ := Tx.run_bind_ok h
  obtain ⟨p, w₄, h₄, h⟩ := Tx.run_bind_ok h
  obtain ⟨i, w₅, h₅, h⟩ := Tx.run_bind_ok h
  obtain ⟨now, w₆, h₆, h⟩ := Tx.run_bind_ok h
  obtain ⟨t, w₇, h₇, h⟩ := Tx.run_bind_ok h
  obtain ⟨v, w₈, h₈, h⟩ := Tx.run_bind_ok h
  simp only [Tx.pure_eq, Tx.run_ret, Prod.mk.injEq, Except.ok.injEq] at h
  obtain ⟨_, rfl⟩ := h
  obtain ⟨hnew, ht, hdb₇⟩ := run_create_ok h₇
  rw [← ht] at hnew hdb₇
  have hdb₃ : w₃.db = w.db := by
    rw [(run_ofExcept_ok h₃).2, (run_findSiblings_ok h₂).2, run_lockRow_ok h₁]
  have hdb₆ : w₆.db = w₄.db := (run_now_ok h₆).trans (run_fresh_ok h₅)
  have hroom := rewrites_makeRoom h₄
  rw [hdb₃, ← hdb₆] at hroom
  have hput : w₇.db = w₆.db.put (.task t) := congrArg World.db hdb₇
  obtain ⟨hfresh, hdb, _, hof, htype, _⟩ := run_record_entry h₈
  refine ⟨w₇.db, v, t, hput ▸ hroom.trans (rewrites_created hnew), ?_, hfresh, hdb, hof, ?_⟩
  · rw [hput]
    exact (mem_rows_put (r := t)).mpr (.inl rfl)
  · intro hmoved
    cases htype.symm.trans hmoved

/-- The task a move writes stays on its board. -/
theorem rewrites_writeMove {p : Position} {x : TaskRow} {c : ColumnRow}
    (hc : c ∈ rows ColumnRow w.db) (hid : c.id = columnId)
    (hboard : ∀ t ∈ rows TaskRow w.db, t.id = taskId → c.boardId = t.boardId)
    (h : (TaskService.writeMove workspaceId taskId columnId p).run env w = (.ok x, w')) :
    Rewrites w.db w'.db := by
  obtain ⟨⟨t, ht, htid, now, rfl⟩, hdb⟩ := TaskService.run_writeMove_ok h
  rw [hdb]
  refine rewrites_task (fun t' ht' hid' => ?_) (.inr ⟨c, hc, hid, hboard t ht htid⟩)
  rw [eq_of_id ht' ht hid']

theorem rewrites_place {task : TaskDetailRow} {remaining : List Sibling}
    {slot : InsertionSlot Sibling} {n : Nat} {dto : TaskDto} {c : ColumnRow}
    (hc : c ∈ rows ColumnRow w.db) (hid : c.id = columnId)
    (hboard : ∀ t ∈ rows TaskRow w.db, t.id = taskId → c.boardId = t.boardId)
    (h : (TaskService.place workspaceId taskId task columnId remaining slot n).run env w =
      (.ok dto, w')) : Rewrites w.db w'.db := by
  simp only [TaskService.place] at h
  split at h
  · obtain ⟨x, w₁, h₁, h⟩ := Tx.run_bind_ok h
    obtain ⟨_, w₂, h₂, h⟩ := Tx.run_bind_ok h
    obtain ⟨now, w₃, h₃, h⟩ := Tx.run_bind_ok h
    simp only [Tx.pure_eq, Tx.run_ret, Prod.mk.injEq, Except.ok.injEq] at h
    obtain ⟨_, rfl⟩ := h
    rw [run_now_ok h₃]
    exact (rewrites_writeMove hc hid hboard h₁).trans (rewrites_batch h₂)
  · obtain ⟨x, w₁, h₁, h⟩ := Tx.run_bind_ok h
    obtain ⟨u, w₂, h₂, h⟩ := Tx.run_bind_ok h
    obtain ⟨_, rfl⟩ := run_query_ok h₂
    simp only [Tx.pure_eq, Tx.run_ret, Prod.mk.injEq, Except.ok.injEq] at h
    obtain ⟨_, rfl⟩ := h
    have hmove := rewrites_writeMove hc hid hboard h₁
    exact hmove

theorem moveBody_logs {dto : MoveTaskDto} {result : TaskDto}
    (h : (TaskService.moveBody workspaceId taskId userId dto).run env w = (.ok result, w')) :
    ∃ db₁ v t, Logs w.db db₁ w'.db v t := by
  obtain ⟨found, w₁, h₁, h⟩ := Tx.run_bind_ok h
  obtain ⟨task, w₂, h₂, h⟩ := Tx.run_bind_ok h
  obtain ⟨_, w₃, h₃, h⟩ := Tx.run_bind_ok h
  obtain ⟨foundColumn, w₄, h₄, h⟩ := Tx.run_bind_ok h
  obtain ⟨target, w₅, h₅, h⟩ := Tx.run_bind_ok h
  obtain ⟨_, w₆, h₆, h⟩ := Tx.run_bind_ok h
  obtain ⟨_, w₇, h₇, h⟩ := Tx.run_bind_ok h
  obtain ⟨_, w₈, h₈, h⟩ := Tx.run_bind_ok h
  obtain ⟨l, w₉, h₉, h⟩ := Tx.run_bind_ok h
  obtain ⟨slot, w₁₀, h₁₀, h⟩ := Tx.run_bind_ok h
  obtain ⟨n, w₁₁, h₁₁, h⟩ := Tx.run_bind_ok h
  obtain ⟨r, w₁₂, h₁₂, h⟩ := Tx.run_bind_ok h
  obtain ⟨v, w₁₃, h₁₃, h⟩ := Tx.run_bind_ok h
  simp only [Tx.pure_eq, Tx.run_ret, Prod.mk.injEq, Except.ok.injEq] at h
  obtain ⟨_, rfl⟩ := h
  obtain ⟨hfound, hw₁⟩ := run_query_ok h₁
  obtain ⟨htask, hw₂⟩ := run_orThrow_ok h₂
  obtain ⟨_, hw₃⟩ := run_throwIf_ok h₃
  obtain ⟨hcolumn, hw₄⟩ := run_query_ok h₄
  obtain ⟨htarget, hw₅⟩ := run_orThrow_ok h₅
  obtain ⟨hboard, hw₆⟩ := run_throwIf_ok h₆
  have hdb₃ : w₃.db = w.db := by rw [hw₃, hw₂, hw₁]
  have hdb₁₁ : w₁₁.db = w.db := by
    rw [(run_query_ok h₁₁).2, (run_ofExcept_ok h₁₀).2, (run_findSiblings_ok h₉).2,
      run_lockRow_ok h₈, TaskService.run_fromColumn_ok h₇, hw₆, hw₅, hw₄, hdb₃]
  obtain ⟨hmem, hid⟩ : task.task ∈ rows TaskRow w.db ∧ task.task.id = taskId := by
    rw [hfound] at htask
    obtain ⟨t, ht, rfl⟩ := Option.map_eq_some_iff.mp htask
    exact byId_eq_some.mp (of_taskScope ht)
  obtain ⟨hc, hcid⟩ : target ∈ rows ColumnRow w.db ∧ target.id = dto.columnId := by
    rw [hcolumn, hdb₃] at htarget
    exact byId_eq_some.mp (of_columnScope htarget)
  have htb : target.boardId = task.task.boardId := by simpa using hboard
  have hplaced : Rewrites w.db w₁₂.db := by
    rw [← hdb₁₁] at hc hmem ⊢
    refine rewrites_place hc rfl (fun t ht htid => ?_) h₁₂
    rw [eq_of_id ht hmem (htid.trans hid.symm), htb]
  obtain ⟨hfresh, hdb, _, hof, htype, hpayload⟩ := run_record_entry h₁₃
  obtain ⟨t', ht', hid', hboard'⟩ := hplaced.kept task.task hmem
  refine ⟨w₁₂.db, v, t', hplaced, ht', hfresh, hdb, ?_, fun _ c' hc' htext => ?_⟩
  · rw [hof, hid', hid]
  · have htarget' : v.text "toColumnId" = some target.id := text_of_payload hpayload rfl
    obtain ⟨c, hcol, hid₀, hb₀⟩ := hplaced.columns c' hc'
    obtain rfl : c = target :=
      eq_of_id hcol hc (hid₀.trans (Option.some.inj (htext.symm.trans htarget')))
    rw [← hb₀, hboard', htb]

theorem quiet_record {input : RecordActivityInput} {v : ActivityRow} (hv : ¬ Counted input.type)
    (h : (ActivityService.record input).run env w = (.ok v, w')) : Quiet w.db w'.db := by
  obtain ⟨_, hdb, _, _, htype, _⟩ := run_record_entry h
  rw [hdb]
  exact quiet_note (htype ▸ hv)

theorem quiet_deleteMany {R : Type} [Model R] {p : Db → R → Bool} {n : Nat}
    (h : (deleteMany p).run env w = (.ok n, w')) : Quiet w.db w'.db := by
  obtain ⟨ws, hws, _, rfl⟩ := run_deleteMany_ok h
  exact quiet_deletion hws

theorem updateTaskBody_quiet {plan : TaskUpdatePlan} {dto : TaskDto}
    (h : (TaskService.updateBody workspaceId taskId userId plan).run env w = (.ok dto, w')) :
    Quiet w.db w'.db := by
  obtain ⟨found, w₁, h₁, h⟩ := Tx.run_bind_ok h
  obtain ⟨_, w₂, h₂, h⟩ := Tx.run_bind_ok h
  obtain ⟨now, w₃, h₃, h⟩ := Tx.run_bind_ok h
  obtain ⟨x, w₄, h₄, h⟩ := Tx.run_bind_ok h
  obtain ⟨detail, w₅, h₅, h⟩ := Tx.run_bind_ok h
  obtain ⟨v, w₆, h₆, h⟩ := Tx.run_bind_ok h
  obtain ⟨n, w₇, h₇, h⟩ := Tx.run_bind_ok h
  simp only [Tx.pure_eq, Tx.run_ret, Prod.mk.injEq, Except.ok.injEq] at h
  obtain ⟨_, rfl⟩ := h
  obtain ⟨_, rfl⟩ := run_query_ok h₇
  obtain ⟨_, rfl⟩ := run_query_ok h₅
  have hdb₃ : w₃.db = w.db := by
    rw [run_now_ok h₃, (run_orThrow_ok h₂).2, (run_query_ok h₁).2]
  obtain ⟨t, ht, rfl, rfl⟩ := run_update_ok h₄
  have ht := List.mem_of_find?_eq_some ht
  have hput : Rewrites w₃.db (w₃.db.put (.task (plan.data.apply now t))) :=
    rewrites_task (fun t' ht' hid => by rw [eq_of_id ht' ht hid]; rfl) (.inl ⟨t, ht, rfl, rfl⟩)
  rw [← hdb₃]
  exact hput.quiet.trans (quiet_record (by simp [Counted]) h₆)

theorem updateColumnBody_quiet {dto : UpdateColumnDto} {result : ColumnDto}
    (h : (ColumnService.updateBody workspaceId columnId userId dto).run env w = (.ok result, w')) :
    Quiet w.db w'.db := by
  obtain ⟨found, w₁, h₁, h⟩ := Tx.run_bind_ok h
  obtain ⟨_, w₂, h₂, h⟩ := Tx.run_bind_ok h
  obtain ⟨x, w₃, h₃, h⟩ := Tx.run_bind_ok h
  obtain ⟨r, w₄, h₄, h⟩ := Tx.run_bind_ok h
  obtain ⟨v, w₅, h₅, h⟩ := Tx.run_bind_ok h
  simp only [Tx.pure_eq, Tx.run_ret, Prod.mk.injEq, Except.ok.injEq] at h
  obtain ⟨_, rfl⟩ := h
  obtain ⟨_, rfl⟩ := run_query_ok h₄
  have hdb₂ : w₂.db = w.db := by rw [(run_orThrow_ok h₂).2, (run_query_ok h₁).2]
  obtain ⟨c, hc, rfl, rfl⟩ := run_update_ok h₃
  have hput : Rewrites w₂.db (w₂.db.put (.column ((ColumnService.UpdateColumnDto.patch dto).apply c))) :=
    rewrites_column (List.mem_of_find?_eq_some hc) rfl rfl
  rw [← hdb₂]
  exact hput.quiet.trans (quiet_record (by simp [Counted]) h₅)

theorem removeTaskBody_quiet {t : TaskRow}
    (h : (TaskService.removeBody workspaceId taskId userId).run env w = (.ok t, w')) :
    Quiet w.db w'.db := by
  obtain ⟨found, w₁, h₁, h⟩ := Tx.run_bind_ok h
  obtain ⟨_, w₂, h₂, h⟩ := Tx.run_bind_ok h
  obtain ⟨v, w₃, h₃, h⟩ := Tx.run_bind_ok h
  obtain ⟨n, w₄, h₄, h⟩ := Tx.run_bind_ok h
  obtain ⟨_, w₅, h₅, h⟩ := Tx.run_bind_ok h
  simp only [Tx.pure_eq, Tx.run_ret, Prod.mk.injEq, Except.ok.injEq] at h
  obtain ⟨_, rfl⟩ := h
  have hdb₂ : w₂.db = w.db := by rw [(run_orThrow_ok h₂).2, (run_query_ok h₁).2]
  rw [(run_throwIf_ok h₅).2, ← hdb₂]
  exact (quiet_record (by simp [Counted]) h₃).trans (quiet_deleteMany h₄)

theorem removeColumnBody_quiet {c : ColumnRow}
    (h : (ColumnService.removeBody workspaceId columnId userId).run env w = (.ok c, w')) :
    Quiet w.db w'.db := by
  obtain ⟨found, w₁, h₁, h⟩ := Tx.run_bind_ok h
  obtain ⟨_, w₂, h₂, h⟩ := Tx.run_bind_ok h
  obtain ⟨_, w₃, h₃, h⟩ := Tx.run_bind_ok h
  obtain ⟨_, w₄, h₄, h⟩ := Tx.run_bind_ok h
  obtain ⟨v, w₅, h₅, h⟩ := Tx.run_bind_ok h
  obtain ⟨n, w₆, h₆, h⟩ := Tx.run_bind_ok h
  obtain ⟨_, w₇, h₇, h⟩ := Tx.run_bind_ok h
  simp only [Tx.pure_eq, Tx.run_ret, Prod.mk.injEq, Except.ok.injEq] at h
  obtain ⟨_, rfl⟩ := h
  have hdb₄ : w₄.db = w.db := by
    rw [(run_throwIf_ok h₄).2, (run_query_ok h₃).2, (run_orThrow_ok h₂).2, (run_query_ok h₁).2]
  rw [(run_throwIf_ok h₇).2, ← hdb₄]
  exact (quiet_record (by simp [Counted]) h₅).trans (quiet_deleteMany h₆)

theorem removeBoardBody_quiet {u : Unit}
    (h : (BoardService.removeBody workspaceId boardId userId).run env w = (.ok u, w')) :
    Quiet w.db w'.db := by
  obtain ⟨found, w₁, h₁, h⟩ := Tx.run_bind_ok h
  obtain ⟨_, w₂, h₂, h⟩ := Tx.run_bind_ok h
  obtain ⟨_, w₃, h₃, h⟩ := Tx.run_bind_ok h
  obtain ⟨v, w₄, h₄, h⟩ := Tx.run_bind_ok h
  obtain ⟨n, w₅, h₅, h⟩ := Tx.run_bind_ok h
  have hdb₃ : w₃.db = w.db := by
    rw [(run_query_ok h₃).2, (run_orThrow_ok h₂).2, (run_query_ok h₁).2]
  rw [(run_throwIf_ok h).2, ← hdb₃]
  exact (quiet_record (by simp [Counted]) h₄).trans (quiet_deleteMany h₅)

/-! ### Along a history -/

/-- The invariant after a request, answered or refused. -/
def StillSound (f : Id → Option Id) (db : Db) (w' : World kurul) : Prop :=
  Sound (attributed f db w'.db) w'.db

theorem still_of_db (hf : Sound f db) (hdb : w'.db = db) : StillSound f db w' := by
  rw [StillSound, hdb]
  exact (Rewrites.refl db).quiet.attributed hf

theorem call_sound (op : Op) (hf : Sound f w.db) : (op.call rt).Ends env w
    (fun _ w' => StillSound f w.db w') (fun _ w' => StillSound f w.db w') := by
  cases op with
  | createTask workspaceId boardId userId dto =>
    simp only [Op.call, TaskService.create, Call.ends_bind]
    refine Call.ends_readOnly (readOnly_assertBoard _ _) (fun _ w₁ _ hdb₁ => ?_)
      fun _ _ => still_of_db hf
    refine Call.ends_readOnly (TaskService.readOnly_findColumnOnBoard _ _ _) (fun _ w₂ _ hdb₂ => ?_)
      fun _ _ hdb => still_of_db hf (hdb.trans hdb₁)
    refine Call.ends_readOnly (readOnly_ofExcept _) (fun _ w₃ _ hdb₃ => ?_)
      fun _ _ hdb => still_of_db hf (hdb.trans (hdb₂.trans hdb₁))
    have hdb : w₃.db = w.db := hdb₃.trans (hdb₂.trans hdb₁)
    refine Call.ends_transaction (fun _ w₄ w₅ hrun hdb₅ => ?_)
      fun _ _ hdb' => still_of_db hf (hdb'.trans hdb)
    obtain ⟨db₁, v, t, hlogs⟩ := createBody_logs hrun
    rw [hdb, ← hdb₅] at hlogs
    exact hlogs.attributed hf
  | updateTask workspaceId taskId userId dto =>
    simp only [Op.call, TaskService.update, Call.ends_bind]
    refine Call.ends_readOnly (TaskReadService.readOnly_findTask _ _) (fun _ w₁ _ hdb₁ => ?_)
      fun _ _ => still_of_db hf
    refine Call.ends_readOnly (readOnly_ofExcept _) (fun plan w₂ _ hdb₂ => ?_)
      fun _ _ hdb => still_of_db hf (hdb.trans hdb₁)
    have hdb : w₂.db = w.db := hdb₂.trans hdb₁
    split
    · exact still_of_db hf hdb
    · simp only [Call.ends_bind]
      refine Call.ends_transaction (fun _ w₃ w₄ hrun hdb₄ => ?_)
        fun _ _ hdb' => still_of_db hf (hdb'.trans hdb)
      have hquiet := updateTaskBody_quiet hrun
      rw [hdb, ← hdb₄] at hquiet
      exact hquiet.attributed hf
  | moveTask workspaceId taskId userId dto =>
    simp only [Op.call, TaskService.move, Call.ends_bind]
    refine Call.ends_transaction (fun _ w₁ w₂ hrun hdb₂ => ?_) fun _ _ => still_of_db hf
    obtain ⟨db₁, v, t, hlogs⟩ := moveBody_logs hrun
    rw [← hdb₂] at hlogs
    exact hlogs.attributed hf
  | removeTask workspaceId taskId userId =>
    simp only [Op.call, TaskService.remove, Call.ends_bind]
    refine Call.ends_transaction (fun _ w₁ w₂ hrun hdb₂ => ?_) fun _ _ => still_of_db hf
    have hquiet := removeTaskBody_quiet hrun
    rw [← hdb₂] at hquiet
    exact hquiet.attributed hf
  | updateColumn workspaceId columnId actorId dto =>
    simp only [Op.call, ColumnService.update, Call.ends_bind]
    refine Call.ends_transaction (fun _ w₁ w₂ hrun hdb₂ => ?_) fun _ _ => still_of_db hf
    have hquiet := updateColumnBody_quiet hrun
    rw [← hdb₂] at hquiet
    exact hquiet.attributed hf
  | removeColumn workspaceId columnId actorId =>
    simp only [Op.call, ColumnService.remove, Call.ends_bind]
    refine Call.ends_transaction (fun _ w₁ w₂ hrun hdb₂ => ?_) fun _ _ => still_of_db hf
    have hquiet := removeColumnBody_quiet hrun
    rw [← hdb₂] at hquiet
    exact hquiet.attributed hf
  | removeBoard workspaceId boardId actorId =>
    simp only [Op.call, BoardService.remove]
    refine Call.ends_transaction (fun _ w₁ w₂ hrun hdb₂ => ?_) fun _ _ => still_of_db hf
    have hquiet := removeBoardBody_quiet hrun
    rw [← hdb₂] at hquiet
    exact hquiet.attributed hf

end Requests

theorem History.next_sound {s : History} (op : Op) (h : Sound s.boardOf s.world.db) :
    Sound (s.next rt env op).boardOf (s.next rt env op).world.db := by
  have hcall := @call_sound rt env s.boardOf s.world op h
  unfold Call.Ends at hcall
  rw [History.next]
  rcases hrun : (op.call rt).run env s.world with ⟨r, w'⟩
  rw [hrun] at hcall
  cases r with
  | ok a => exact hcall
  | error e => exact hcall

theorem History.run_sound (h : Unlogged db) (ops : List Op) :
    Sound (History.run rt env db ops).boardOf (History.run rt env db ops).world.db := by
  suffices hall : ∀ s : History, Sound s.boardOf s.world.db →
      Sound (ops.foldl (History.next rt env) s).boardOf
        (ops.foldl (History.next rt env) s).world.db from hall (.start db) (h.sound _)
  induction ops with
  | nil => exact fun s hs => hs
  | cons op ops ih => exact fun s hs => ih (s.next rt env op) (next_sound op hs)

end Dashboard
end Kurul
