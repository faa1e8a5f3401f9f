import Mathlib.Logic.Relation
import Kurul.Numerals
import Kurul.Web.TaskDnd

/-!
# Kurul.Web.BoardSync

Clients of one board, kept in step by the answer to a `PATCH` and by `task:moved` events.

Both carry one row's position. A move that respreads its column rewrites the others too, and no
client hears of that: `respread_unseen`.

* `Agrees`       — the client holds what the server has: ids, columns, positions.
* `agrees_drag`  — a drag into a gap with room keeps every client in agreement.
* `order_agrees` — along any sequence of such drags every column reads alike on every client.
-/

namespace Kurul

open Sql

namespace Web

/-- `setTasks((current) => current.map(…))` on the answer to the `PATCH`, over the optimistic tasks. -/
def commitTaskMove (nextTasks : List TaskDto) (updated : TaskDto) : List TaskDto :=
  nextTasks.map fun task => if task.id = updated.id then updated else task

/-- A task the client does not hold is fetched by itself; here it changes nothing. -/
def onTaskMoved (tasks : List TaskDto) (taskId columnId : Id) (position : Position) :
    List TaskDto :=
  tasks.map fun task => if task.id = taskId then { task with columnId, position } else task

/-- What a client in a board's room makes of an event. -/
def onBoardEvent (boardId : Id) (tasks : List TaskDto) : Event → List TaskDto
  | .toBoard room _ _ (.taskMoved taskId columnId position) =>
    if room = boardId then onTaskMoved tasks taskId columnId position else tasks
  | _ => tasks

/-- A column as the board shows it. -/
def clientColumn (tasks : List TaskDto) (columnId : Id) : List TaskDto :=
  sortTasks (tasks.filter fun task => task.columnId = columnId)

/-- A column as the server has it. -/
def serverColumn (db : Db) (boardId columnId : Id) : List TaskRow :=
  sortBy rank ((rows TaskRow db).filter fun t => t.boardId = boardId && t.columnId = columnId)

/-- The server's rows and what each client holds of them. -/
structure BoardState (ι : Type) where
  db : Db
  clients : ι → List TaskDto

/-- One drag: client `i` drops a task and shows it there, the server takes the move, the client puts
the answer in, and everyone in the room hears of it. -/
inductive DragStep {ι : Type} [DecidableEq ι] (boardId : Id) (Ok : Db → AppliedMove → Prop) :
    BoardState ι → BoardState ι → Prop where
  | drag {s : BoardState ι} (i : ι) {taskId columnId : Id} {overTaskId : Option Id}
      {applied : AppliedMove} {workspaceId userId : Id} {env : Env kurul} {w w' : World kurul}
      {updated : TaskDto}
      (hdrag : applyMove (s.clients i) taskId columnId overTaskId = some applied)
      (hdb : w.db = s.db) (hquiet : w.events = [])
      (hrun : (TaskService.move workspaceId taskId userId
        ⟨columnId, applied.beforeTaskId, applied.afterTaskId⟩).run env w = (.ok updated, w'))
      (hok : Ok s.db applied) :
      DragStep boardId Ok s ⟨w'.db, fun j => w'.events.foldl (onBoardEvent boardId)
        (if j = i then commitTaskMove applied.nextTasks updated else s.clients j)⟩

/-- The step, computed. -/
def BoardState.drag {ι : Type} [DecidableEq ι] (boardId : Id) (s : BoardState ι) (i : ι)
    (taskId columnId : Id) (overTaskId : Option Id) (workspaceId userId : Id) (env : Env kurul) :
    Option (BoardState ι) :=
  match applyMove (s.clients i) taskId columnId overTaskId with
  | none => none
  | some applied =>
    match (TaskService.move workspaceId taskId userId
      ⟨columnId, applied.beforeTaskId, applied.afterTaskId⟩).run env (World.start s.db) with
    | (.error _, _) => none
    | (.ok updated, w') => some ⟨w'.db, fun j => w'.events.foldl (onBoardEvent boardId)
        (if j = i then commitTaskMove applied.nextTasks updated else s.clients j)⟩

theorem step_of_drag {ι : Type} [DecidableEq ι] {boardId : Id} {s s' : BoardState ι} {i : ι}
    {taskId columnId : Id} {overTaskId : Option Id} {workspaceId userId : Id} {env : Env kurul}
    {Ok : Db → AppliedMove → Prop}
    (h : s.drag boardId i taskId columnId overTaskId workspaceId userId env = some s')
    (hok : ∀ applied, applyMove (s.clients i) taskId columnId overTaskId = some applied →
      Ok s.db applied) : DragStep boardId Ok s s' := by
  simp only [BoardState.drag] at h
  split at h
  · cases h
  · rename_i applied ha
    split at h
    · cases h
    · rename_i updated w' hrun
      obtain rfl := Option.some.inj h
      exact .drag i ha rfl rfl hrun (hok _ ha)

/-- The two tasks a drag lands between stand far enough apart. -/
def Roomy (db : Db) (applied : AppliedMove) : Prop :=
  ∀ p ∈ rows TaskRow db, ∀ n ∈ rows TaskRow db, applied.beforeTaskId = some p.id →
    applied.afterTaskId = some n.id → needsRebalance (some p.position) (some n.position) = false

instance (db : Db) (applied : AppliedMove) : Decidable (Roomy db applied) := by
  unfold Roomy
  infer_instance

/-- Every column's tasks are on the column's board, as the foreign key has it. -/
def OnOwnBoard (db : Db) : Prop :=
  ∀ t ∈ rows TaskRow db, ∀ c ∈ rows ColumnRow db, c.id = t.columnId → c.boardId = t.boardId

/-! ## Agreement -/

/-- The client holds a task with this id in this place. -/
def Holds (tasks : List TaskDto) (taskId columnId : Id) (position : Position) : Prop :=
  ∃ v ∈ tasks, v.id = taskId ∧ v.columnId = columnId ∧ v.position = position

/-- What the server has in this place on the board. -/
def Stored (db : Db) (boardId taskId columnId : Id) (position : Position) : Prop :=
  ∃ t ∈ rows TaskRow db, t.boardId = boardId ∧ t.id = taskId ∧ t.columnId = columnId ∧
    t.position = position

/-- The client's tasks are the board's, each id once. -/
structure Agrees (db : Db) (boardId : Id) (tasks : List TaskDto) : Prop where
  nodup : (tasks.map TaskDto.id).Nodup
  same : ∀ taskId columnId position,
    Holds tasks taskId columnId position ↔ Stored db boardId taskId columnId position

variable {db db' : Db} {boardId taskId columnId : Id} {tasks : List TaskDto}

theorem Agrees.upToDate (h : Agrees db boardId tasks) : UpToDate db tasks where
  nodup := h.nodup
  stored := by
    intro v hv
    obtain ⟨t, ht, _, hid, hcol, hpos⟩ := (h.same _ _ _).mp ⟨v, hv, rfl, rfl, rfl⟩
    exact ⟨t, ht, hid, hcol, hpos⟩

theorem Agrees.order (h : Agrees db boardId tasks) (columnId : Id) :
    (clientColumn tasks columnId).map TaskDto.id =
      (serverColumn db boardId columnId).map TaskRow.id := by
  have hc : (clientColumn tasks columnId).Pairwise fun a b => rank a < rank b := by
    apply sortBy_lt
    refine List.Nodup.of_map (fun k => (ofLex k).2) ?_
    rw [List.map_map]
    exact h.nodup.sublist ((List.filter_sublist).map TaskDto.id)
  have hs : (serverColumn db boardId columnId).Pairwise fun a b => rank a < rank b := by
    apply sortBy_lt
    refine List.Nodup.of_map (fun k => (ofLex k).2) ?_
    rw [List.map_map]
    exact (nodup_ids TaskRow db).sublist ((List.filter_sublist).map TaskRow.id)
  have hids : (clientColumn tasks columnId).map rank = (serverColumn db boardId columnId).map rank :=
    eq_of_mem_iff (f := id) (List.pairwise_map.mpr hc) (List.pairwise_map.mpr hs) ?_
  · have := congrArg (List.map fun k : ℚ ×ₗ Id => (ofLex k).2) hids
    rw [List.map_map, List.map_map] at this
    exact this
  · intro k
    simp only [List.mem_map, clientColumn, sortTasks, serverColumn, mem_sortBy, List.mem_filter,
      decide_eq_true_eq, Bool.and_eq_true]
    constructor
    · rintro ⟨v, ⟨hv, hcol⟩, rfl⟩
      obtain ⟨t, ht, hb, hid, htc, hpos⟩ := (h.same _ _ _).mp ⟨v, hv, rfl, hcol, rfl⟩
      refine ⟨t, ⟨ht, hb, htc⟩, ?_⟩
      show toLex (t.position, t.id) = toLex (v.position, v.id)
      rw [hid, hpos]
    · rintro ⟨t, ⟨ht, hb, hcol⟩, rfl⟩
      obtain ⟨v, hv, hid, hvc, hpos⟩ := (h.same _ _ _).mpr ⟨t, ht, hb, rfl, hcol, rfl⟩
      refine ⟨v, ⟨hv, hvc⟩, ?_⟩
      show toLex (v.position, v.id) = toLex (t.position, t.id)
      rw [hid, hpos]

/-! ## One drag -/

theorem map_id_onTaskMoved (tasks : List TaskDto) (m c : Id) (p : Position) :
    (onTaskMoved tasks m c p).map TaskDto.id = tasks.map TaskDto.id := by
  rw [onTaskMoved, List.map_map]
  apply List.map_congr_left
  intro v _
  simp only [Function.comp_apply]
  split <;> rfl

/-- An event about a task the client holds puts it where the event says. -/
theorem holds_onTaskMoved {m c : Id} {p : Position} (hm : ∃ v ∈ tasks, v.id = m) {i c' : Id}
    {p' : Position} :
    Holds (onTaskMoved tasks m c p) i c' p' ↔
      if i = m then c' = c ∧ p' = p else Holds tasks i c' p' := by
  simp only [Holds, onTaskMoved, List.mem_map]
  split
  · rename_i him
    subst him
    constructor
    · rintro ⟨_, ⟨v, hv, rfl⟩, hid, hc, hp⟩
      split at hid
      · rename_i hvi
        rw [if_pos hvi] at hc hp
        exact ⟨hc.symm, hp.symm⟩
      · rename_i hvi
        exact absurd hid hvi
    · rintro ⟨rfl, rfl⟩
      obtain ⟨v, hv, rfl⟩ := hm
      exact ⟨_, ⟨v, hv, rfl⟩, by simp⟩
  · rename_i him
    constructor
    · rintro ⟨_, ⟨v, hv, rfl⟩, hid, hc, hp⟩
      split at hid
      · rename_i hvm
        exact absurd (hid.symm.trans hvm) him
      · rename_i hvm
        rw [if_neg hvm] at hc hp
        exact ⟨v, hv, hid, hc, hp⟩
    · rintro ⟨v, hv, hid, hc, hp⟩
      refine ⟨_, ⟨v, hv, rfl⟩, ?_⟩
      rw [if_neg (hid ▸ him)]
      exact ⟨hid, hc, hp⟩

/-- The optimistic tasks: the dragged one in its new place, and the others. -/
theorem nextTasks_perm {overTaskId : Option Id} {applied : AppliedMove}
    (ha : applyMove tasks taskId columnId overTaskId = some applied) :
    ∃ moving ∈ tasks, ∃ position, moving.id = taskId ∧ applied.nextTasks.Perm
      ({ moving with columnId, position } :: tasks.filter fun task => task.id ≠ taskId) := by
  simp only [applyMove] at ha
  split at ha
  · cases ha
  · rename_i moving hmoving
    obtain rfl := (Option.some.inj ha).symm
    have hid : moving.id = taskId := by simpa using List.find?_some hmoving
    have hsplit : (((tasks.filter fun task => task.id ≠ taskId).filter
        fun task => task.columnId ≠ columnId) ++ columnWithout tasks taskId columnId).Perm
        (tasks.filter fun task => task.id ≠ taskId) := by
      refine (List.perm_append_comm.trans ((sortBy_perm rank _).append_right _)).trans ?_
      have hall := List.filter_append_perm (fun task : TaskDto => decide (task.columnId = columnId))
        (tasks.filter fun task => task.id ≠ taskId)
      simpa only [decide_not] using hall
    exact ⟨moving, List.mem_of_find?_eq_some hmoving, _, hid,
      ((List.perm_insertIdx _ _ insertionIndex_le).append_left _).trans
        (List.perm_middle.trans (hsplit.cons _))⟩

/-- After its own drag a client shows the task where the answer says. -/
theorem holds_commitTaskMove {overTaskId : Option Id} {applied : AppliedMove}
    (ha : applyMove tasks taskId columnId overTaskId = some applied) {updated : TaskDto}
    (hid : updated.id = taskId) {i c : Id} {p : Position} :
    Holds (commitTaskMove applied.nextTasks updated) i c p ↔
      if i = taskId then c = updated.columnId ∧ p = updated.position else Holds tasks i c p := by
  obtain ⟨moving, _, position, hshown, hperm⟩ := nextTasks_perm ha
  have hmem : ∀ v, v ∈ commitTaskMove applied.nextTasks updated ↔
      v = updated ∨ (v ∈ tasks ∧ v.id ≠ taskId) := by
    intro v
    simp only [commitTaskMove, List.mem_map, hperm.mem_iff, List.mem_cons, List.mem_filter,
      decide_eq_true_eq, hid]
    constructor
    · rintro ⟨u, rfl | ⟨hu, hne⟩, rfl⟩
      · rw [if_pos hshown]
        exact .inl rfl
      · rw [if_neg hne]
        exact .inr ⟨hu, hne⟩
    · rintro (rfl | ⟨hv, hne⟩)
      · exact ⟨_, .inl rfl, if_pos hshown⟩
      · exact ⟨v, .inr ⟨hv, hne⟩, if_neg hne⟩
  simp only [Holds, hmem]
  split
  · rename_i him
    subst him
    constructor
    · rintro ⟨v, rfl | ⟨_, hne⟩, hvi, hc, hp⟩
      · exact ⟨hc.symm, hp.symm⟩
      · exact absurd hvi hne
    · rintro ⟨rfl, rfl⟩
      exact ⟨updated, .inl rfl, hid, rfl, rfl⟩
  · rename_i him
    constructor
    · rintro ⟨v, rfl | ⟨hv, _⟩, hvi, hc, hp⟩
      · exact absurd (hvi.symm.trans hid) him
      · exact ⟨v, hv, hvi, hc, hp⟩
    · rintro ⟨v, hv, hvi, hc, hp⟩
      exact ⟨v, .inr ⟨hv, hvi ▸ him⟩, hvi, hc, hp⟩

theorem nodup_commitTaskMove (hnd : (tasks.map TaskDto.id).Nodup) {overTaskId : Option Id}
    {applied : AppliedMove} (ha : applyMove tasks taskId columnId overTaskId = some applied)
    {updated : TaskDto} :
    ((commitTaskMove applied.nextTasks updated).map TaskDto.id).Nodup := by
  obtain ⟨moving, _, position, hshown, hperm⟩ := nextTasks_perm ha
  have hids : (commitTaskMove applied.nextTasks updated).map TaskDto.id =
      applied.nextTasks.map TaskDto.id := by
    rw [commitTaskMove, List.map_map]
    apply List.map_congr_left
    intro v _
    simp only [Function.comp_apply]
    split
    · rename_i h
      exact h.symm
    · rfl
  rw [hids, (hperm.map TaskDto.id).nodup_iff, List.map_cons, List.nodup_cons]
  refine ⟨fun hmem => ?_, hnd.sublist ((List.filter_sublist).map TaskDto.id)⟩
  obtain ⟨v, hv, hvid⟩ := List.mem_map.mp hmem
  exact of_decide_eq_true (List.mem_filter.mp hv).2 (hvid.trans hshown)

/-- A move into a gap with room rewrites its own row and no other. -/
theorem stored_of_put {x : TaskRow} (hb : x.boardId = boardId) (hid : x.id = taskId)
    (hrows : rows TaskRow db' = rows TaskRow (db.put (.task x))) {i c : Id} {p : Position} :
    Stored db' boardId i c p ↔
      if i = taskId then c = x.columnId ∧ p = x.position else Stored db boardId i c p := by
  have hmem : ∀ t, t ∈ rows TaskRow db' ↔ t = x ∨ (t ∈ rows TaskRow db ∧ t.id ≠ taskId) := by
    intro t
    rw [hrows, ← hid]
    exact mem_rows_put
  simp only [Stored, hmem]
  split
  · rename_i him
    subst him
    constructor
    · rintro ⟨t, rfl | ⟨_, hne⟩, _, hti, hc, hp⟩
      · exact ⟨hc.symm, hp.symm⟩
      · exact absurd hti hne
    · rintro ⟨rfl, rfl⟩
      exact ⟨x, .inl rfl, hb, hid, rfl, rfl⟩
  · rename_i him
    constructor
    · rintro ⟨t, rfl | ⟨ht, _⟩, htb, hti, hc, hp⟩
      · exact absurd (hti.symm.trans hid) him
      · exact ⟨t, ht, htb, hti, hc, hp⟩
    · rintro ⟨t, ht, htb, hti, hc, hp⟩
      exact ⟨t, .inr ⟨ht, hti ▸ him⟩, htb, hti, hc, hp⟩

/-- A client in agreement holds the whole column. -/
theorem Agrees.column (taskId : Id) (hfk : OnOwnBoard db) (h : Agrees db boardId tasks) {target : ColumnRow}
    (ht : target ∈ rows ColumnRow db) (hid : target.id = columnId)
    (hb : target.boardId = boardId) :
    (columnWithout tasks taskId columnId).map toSibling =
      (siblings TaskRow db columnId).filter fun s => s.id ≠ taskId := by
  refine eq_of_mem_iff (f := rank) (List.pairwise_map.mpr (columnWithout_lt h.nodup)) ?_
    fun s => ⟨fun hs => h.upToDate.subset hs, fun hs => ?_⟩
  · rw [siblings_filter]
    exact List.pairwise_map.mpr (others_lt TaskRow db columnId taskId)
  · rw [siblings_filter] at hs
    obtain ⟨t, htm, rfl⟩ := List.mem_map.mp hs
    obtain ⟨⟨ht', hcol⟩, hne⟩ := mem_others.mp htm
    have hboard : t.boardId = boardId := by
      rw [← hb]
      exact (hfk t ht' target ht (hid.trans hcol.symm)).symm
    obtain ⟨v, hv, hvid, hvc, hvp⟩ := (h.same _ _ _).mpr ⟨t, ht', hboard, rfl, rfl, rfl⟩
    refine List.mem_map.mpr ⟨v, mem_columnWithout.mpr ⟨hv, ?_, hvc.trans hcol⟩, ?_⟩
    · rw [hvid]
      exact hne
    · simp only [toSibling, Kurul.toSibling, hvid, hvp]
      rfl

/-- For a client in agreement the server's slot is the one the drop was in. -/
theorem slot_of_drag {remaining : List Sibling} (hnd : (remaining.map Positioned.id).Nodup)
    {k : Nat} (hk : k ≤ remaining.length) {slot : InsertionSlot Sibling}
    (hslot : resolveMoveNeighbors remaining ((sliceSlot remaining k).prev.map Sibling.id)
      ((sliceSlot remaining k).next.map Sibling.id) = .ok slot) : slot = sliceSlot remaining k := by
  have hof := resolveMoveNeighbors_ok hslot
  obtain ⟨hprev, hnext⟩ := insertionIndex_of_found hslot
  suffices hindex : slot.insertionIndex = k by rw [hof.slice, hindex]
  by_cases hlt : k < remaining.length
  · refine hnext remaining[k].id k ?_ (findIndex_getElem hnd hlt)
    simp [sliceSlot, List.getElem?_eq_getElem hlt]
  · by_cases hpos : k = 0
    · have hle := hof.le
      omega
    · have hlt' : k - 1 < remaining.length := by omega
      have hindex := hprev remaining[k - 1].id (k - 1) ?_ (findIndex_getElem hnd hlt')
      · omega
      · simp [sliceSlot, hpos, List.getElem?_eq_getElem hlt']

/-- A drag between tasks far enough apart takes the midpoint branch. -/
theorem roomy_slot (hfk : OnOwnBoard db) (h : Agrees db boardId tasks) {overTaskId : Option Id}
    {applied : AppliedMove} (ha : applyMove tasks taskId columnId overTaskId = some applied)
    {target : ColumnRow} (ht : target ∈ rows ColumnRow db) (hid : target.id = columnId)
    (hb : target.boardId = boardId) {slot : InsertionSlot Sibling}
    (hslot : resolveMoveNeighbors ((siblings TaskRow db columnId).filter fun s => s.id ≠ taskId)
      applied.beforeTaskId applied.afterTaskId = .ok slot) (hroom : Roomy db applied) :
    needsRebalance (slot.prev.map Sibling.position) (slot.next.map Sibling.position) = false := by
  obtain ⟨moving, _, _, k, hk, _, hbefore, hafter⟩ := applyMove_eq ha
  have hcol := h.column taskId hfk ht hid hb
  rw [← List.length_map toSibling, hcol] at hk
  rw [hcol] at hbefore hafter
  have hL := siblings_filter TaskRow db columnId taskId
  have hmem : ∀ s ∈ (siblings TaskRow db columnId).filter fun s => s.id ≠ taskId,
      ∃ t ∈ rows TaskRow db, t.id = s.id ∧ t.position = s.position := by
    intro s hs
    rw [hL] at hs
    obtain ⟨t, htm, rfl⟩ := List.mem_map.mp hs
    exact ⟨t, (mem_others.mp htm).1.1, rfl, rfl⟩
  rw [hbefore, hafter] at hslot
  obtain rfl := slot_of_drag
    (by rw [hL, ids_toSibling]; exact nodup_othersIds TaskRow db columnId taskId) hk hslot
  obtain ⟨hprev, hnext⟩ := mem_of_sliceSlot ((siblings TaskRow db columnId).filter
    fun s => s.id ≠ taskId) k
  cases hp : (sliceSlot _ k).prev with
  | none => rfl
  | some p =>
    cases hn : (sliceSlot _ k).next with
    | none => rfl
    | some n =>
      obtain ⟨t, ht, htid, htp⟩ := hmem p (hprev p hp)
      obtain ⟨u, hu, huid, hup⟩ := hmem n (hnext n hn)
      rw [hp] at hbefore
      rw [hn] at hafter
      have := hroom t ht u hu (by rw [hbefore, htid]; rfl) (by rw [hafter, huid]; rfl)
      rw [htp, hup] at this
      exact this

/-- A drag into a gap with room keeps every client in agreement. -/
theorem agrees_drag {ι : Type} [DecidableEq ι] {s s' : BoardState ι} (hfk : OnOwnBoard s.db)
    (h : ∀ j, Agrees s.db boardId (s.clients j)) (hstep : DragStep boardId Roomy s s') :
    OnOwnBoard s'.db ∧ ∀ j, Agrees s'.db boardId (s'.clients j) := by
  cases hstep with
  | @drag i taskId columnId overTaskId applied workspaceId userId env w w' updated hdrag hdb hquiet
      hrun hok =>
    obtain ⟨w₁, hbody, hdb', hevents⟩ := TaskService.move_run_ok hrun
    obtain ⟨slot, x, hslot, hx, hans, ⟨target, ht, htid, htb⟩, hmoved⟩ :=
      TaskService.moveBody_ok hbody
    have hcolumns : rows ColumnRow w'.db = rows ColumnRow s.db := by
      have hwrites : (TaskService.moveBody workspaceId taskId userId
          ⟨columnId, applied.beforeTaskId, applied.afterTaskId⟩).Writes
          fun x : Write Key Row => x.key.table ≠ Model.table ColumnRow :=
        TaskService.writes_moveBody (fun _ => nofun) fun _ => nofun
      have hw := rows_of_writes hwrites env w
      rw [hbody] at hw
      rw [hdb', hw, hdb]
    rw [hdb] at hslot hx ht hmoved
    -- The client holds the dragged task, so it is one of this board.
    obtain ⟨moving, hm, hmid, _⟩ := applyMove_eq hdrag
    obtain ⟨t₀, ht₀, hb₀, hid₀, _⟩ := ((h i).same _ _ _).mp ⟨moving, hm, hmid, rfl, rfl⟩
    have hxb : x.boardId = boardId := by
      obtain ⟨t, htm, hti, now, hxe⟩ := hx
      obtain rfl : t = t₀ := eq_of_id htm ht₀ (hti.trans hid₀.symm)
      rw [hxe]
      exact hb₀
    have hroom := roomy_slot hfk (h i) hdrag ht htid (htb.trans hxb) hslot hok
    have hrows : rows TaskRow w'.db = rows TaskRow (s.db.put (.task x)) := by
      rcases hmoved with ⟨_, _, hrows⟩ | ⟨hneed, _⟩
      · rw [hdb', hrows]
        rfl
      · rw [hroom] at hneed
        cases hneed
    have hstored : ∀ i c p, Stored w'.db boardId i c p ↔
        if i = taskId then c = x.columnId ∧ p = x.position else Stored s.db boardId i c p :=
      fun _ _ _ => stored_of_put hxb hx.id_eq hrows
    refine ⟨fun t htm c hc hcid => ?_, fun j => ?_⟩
    · rw [hcolumns] at hc
      rw [hrows] at htm
      have htm' : t ∈ rows TaskRow (s.db.put (Model.row x)) := htm
      rcases mem_rows_put.mp htm' with rfl | ⟨htm, _⟩
      · rw [hx.columnId_eq] at hcid
        rw [eq_of_id hc ht (hcid.trans htid.symm)]
        exact htb
      · exact hfk t htm c hc hcid
    · have hevent : ∀ tasks, w'.events.foldl (onBoardEvent boardId) tasks =
          onTaskMoved tasks taskId x.columnId x.position := by
        intro tasks
        rw [hevents, hquiet, List.nil_append, List.foldl_cons, List.foldl_nil]
        simp only [onBoardEvent, hans.boardId, hxb, if_true, hans.id, hx.id_eq, hans.columnId,
          hans.position]
      have hheld : ∀ tasks, Agrees s.db boardId tasks → ∃ v ∈ tasks, v.id = taskId := by
        intro tasks hag
        obtain ⟨v, hv, hvid, _⟩ := (hag.same _ _ _).mpr ⟨t₀, ht₀, hb₀, hid₀, rfl, rfl⟩
        exact ⟨v, hv, hvid⟩
      show Agrees w'.db boardId (w'.events.foldl (onBoardEvent boardId) _)
      rw [hevent]
      split
      · have huid : updated.id = taskId := hans.id.trans hx.id_eq
        have hcommit : ∀ i' c p, Holds (commitTaskMove applied.nextTasks updated) i' c p ↔
            if i' = taskId then c = updated.columnId ∧ p = updated.position
            else Holds (s.clients i) i' c p :=
          fun _ _ _ => holds_commitTaskMove hdrag huid
        have hmem : ∃ v ∈ commitTaskMove applied.nextTasks updated, v.id = taskId := by
          obtain ⟨v, hv, hvid, _⟩ := (hcommit taskId updated.columnId updated.position).mpr
            (by rw [if_pos rfl]; exact ⟨rfl, rfl⟩)
          exact ⟨v, hv, hvid⟩
        refine ⟨by rw [map_id_onTaskMoved]; exact nodup_commitTaskMove (h i).nodup hdrag,
          fun i' c p => ?_⟩
        rw [holds_onTaskMoved hmem, hstored, hcommit]
        split
        · rfl
        · exact (h i).same i' c p
      · refine ⟨by rw [map_id_onTaskMoved]; exact (h j).nodup, fun i' c p => ?_⟩
        rw [holds_onTaskMoved (hheld _ (h j)), hstored]
        split
        · rfl
        · exact (h j).same i' c p

/-- Along any sequence of drags into gaps with room, every column reads on every client as it does
on the server. -/
theorem order_agrees {ι : Type} [DecidableEq ι] {s s' : BoardState ι} (hfk : OnOwnBoard s.db)
    (h : ∀ i, Agrees s.db boardId (s.clients i))
    (hrun : Relation.ReflTransGen (DragStep boardId Roomy) s s') :
    ∀ i columnId, (clientColumn (s'.clients i) columnId).map TaskDto.id =
      (serverColumn s'.db boardId columnId).map TaskRow.id := by
  suffices hall : OnOwnBoard s'.db ∧ ∀ i, Agrees s'.db boardId (s'.clients i) from
    fun i columnId => (hall.2 i).order columnId
  induction hrun with
  | refl => exact ⟨hfk, h⟩
  | tail _ hstep ih => exact agrees_drag ih.1 ih.2 hstep

/-- Two tasks in the first column at a distance, one in the second. -/
def threeTasks (gap : Position) : Db where
  rows := [
    .user ⟨js "u", js "u@x", js "U", true, none, none, none⟩,
    .workspace ⟨js "w", js "W", js "w"⟩,
    .board ⟨js "b", js "w", js "B", none, 0⟩,
    .column ⟨js "c", js "b", js "C", 1000, none, .unstarted⟩,
    .column ⟨js "d", js "b", js "D", 2000, none, .started⟩,
    .task ⟨js "r", js "b", js "c", js "R", none, .medium, 1000, none, none, js "u", 0, 0⟩,
    .task ⟨js "s", js "b", js "c", js "S", none, .medium, 1000 + gap, none, none, js "u", 0, 0⟩,
    .task ⟨js "v", js "b", js "d", js "V", none, .medium, 1000, none, none, js "u", 0, 0⟩]
  nodup := by
    show ([⟨.user, js "u"⟩, ⟨.workspace, js "w"⟩, ⟨.board, js "b"⟩, ⟨.column, js "c"⟩,
      ⟨.column, js "d"⟩, ⟨.task, js "r"⟩, ⟨.task, js "s"⟩, ⟨.task, js "v"⟩] : List Key).Nodup
    decide +kernel

/-- The whole board, loaded by every client. -/
def loaded (db : Db) : BoardState (Fin 2) :=
  ⟨db, fun _ => (rows TaskRow db).map fun t => toTaskListDto (taskListInclude db t) 0⟩

theorem agrees_loaded (hb : ∀ t ∈ rows TaskRow db, t.boardId = boardId) (i : Fin 2) :
    Agrees (loaded db).db boardId ((loaded db).clients i) where
  nodup := by
    simp only [loaded, List.map_map]
    exact nodup_ids TaskRow db
  same := by
    intro taskId columnId position
    simp only [Holds, Stored, loaded, List.mem_map]
    constructor
    · rintro ⟨_, ⟨t, ht, rfl⟩, hid, hc, hp⟩
      exact ⟨t, ht, hb t ht, hid, hc, hp⟩
    · rintro ⟨t, ht, _, hid, hc, hp⟩
      exact ⟨_, ⟨t, ht, rfl⟩, hid, hc, hp⟩

/-- The last task, dragged between the two others by the first client. -/
def dragBetween (gap : Position) : Option (BoardState (Fin 2)) :=
  (loaded (threeTasks gap)).drag (js "b") 0 (js "v") (js "c") (some (js "s")) (js "w") (js "u") calm

/-- Far enough apart: the drag goes through, and every column reads alike. -/
theorem order_agrees_far : ∃ s', dragBetween 1000 = some s' ∧
    ∀ i columnId, (clientColumn (s'.clients i) columnId).map TaskDto.id =
      (serverColumn s'.db (js "b") columnId).map TaskRow.id := by
  obtain ⟨s', hs'⟩ := Option.isSome_iff_exists.mp
    (by decide +kernel : (dragBetween 1000).isSome = true)
  refine ⟨s', hs', order_agrees (by unfold OnOwnBoard; decide +kernel)
    (agrees_loaded (by decide +kernel)) (.single (step_of_drag hs' fun applied ha => ?_))⟩
  have hroom : (applyMove ((loaded (threeTasks 1000)).clients 0) (js "v") (js "c")
      (some (js "s"))).all (fun applied => decide (Roomy (threeTasks 1000) applied)) = true := by
    decide +kernel
  rw [ha] at hroom
  exact of_decide_eq_true hroom

/-- Too close: the server respreads the column, and both clients, told of one position, show the
dragged task below the one it was dropped above. -/
theorem respread_unseen :
    (∀ i, Agrees (threeTasks (minGap / 2)) (js "b") ((loaded (threeTasks (minGap / 2))).clients i)) ∧
    ∃ s', DragStep (js "b") (fun _ _ => True) (loaded (threeTasks (minGap / 2))) s' ∧
      ∀ i, (clientColumn (s'.clients i) (js "c")).map TaskDto.id = [js "r", js "s", js "v"] ∧
        (serverColumn s'.db (js "b") (js "c")).map TaskRow.id = [js "r", js "v", js "s"] := by
  refine ⟨agrees_loaded (by decide +kernel), ?_⟩
  have hgoes : (dragBetween (minGap / 2)).any (fun s' => decide (∀ i,
      (clientColumn (s'.clients i) (js "c")).map TaskDto.id = [js "r", js "s", js "v"] ∧
        (serverColumn s'.db (js "b") (js "c")).map TaskRow.id = [js "r", js "v", js "s"])) = true := by
    decide +kernel
  obtain ⟨s', hs', hord⟩ := (Option.any_eq_true _ _).mp hgoes
  exact ⟨s', step_of_drag hs' fun _ _ => trivial, of_decide_eq_true hord⟩

end Web
end Kurul
