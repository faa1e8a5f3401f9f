import Kurul.Task.Placement

/-!
# Kurul.Web.TaskDnd

Dragging a task on the board: the slot the client computes from the tasks it holds, against the one
the server looks for in the whole column.

* `applyMove`          — what a drop makes of the client's tasks, and the neighbours it names.
* `drag_accepted_iff`  — the server takes the neighbours exactly if no task it has and the client
  has not lies in the gap of the drop.
-/

namespace Kurul

open Sql

instance : Positioned TaskDto := ⟨TaskDto.id, TaskDto.position⟩

namespace Web

/-- The client's copy of the fractional midpoint. -/
def midpoint (before after : Option Position) : Position :=
  match before, after with
  | none, none => 1000
  | none, some a => a - 1000
  | some b, none => b + 1000
  | some b, some a => (b + a) / 2

/-- Position order, ties by id: `localeCompare` orders UUIDs as their code units do. -/
def sortTasks (tasks : List TaskDto) : List TaskDto := sortBy rank tasks

structure AppliedMove where
  nextTasks : List TaskDto
  beforeTaskId : Option Id
  afterTaskId : Option Id

/-- The index a drop on `overTaskId` asks for; the end of the column if it is not there. -/
def insertionIndex (columnTasks : List TaskDto) (moving : TaskDto) (targetColumnId : Id)
    (overTaskId : Option Id) : Nat :=
  match (overTaskId.filter truthy).bind (findIndex columnTasks) with
  | none => columnTasks.length
  | some overIndex =>
    -- Moving down inside one column, the task over which it is dropped goes above it.
    if moving.columnId = targetColumnId &&
        columnTasks[overIndex]?.any fun overTask => moving.position < overTask.position then
      overIndex + 1
    else overIndex

/-- The tasks of a column as the board lists them, without the one being dragged. -/
def columnWithout (tasks : List TaskDto) (taskId columnId : Id) : List TaskDto :=
  sortTasks ((tasks.filter fun task => task.id ≠ taskId).filter fun task => task.columnId = columnId)

def applyMove (tasks : List TaskDto) (taskId targetColumnId : Id) (overTaskId : Option Id) :
    Option AppliedMove :=
  match tasks.find? fun task => task.id = taskId with
  | none => none
  | some moving =>
    let without := tasks.filter fun task => task.id ≠ taskId
    let columnTasks := columnWithout tasks taskId targetColumnId
    let index := insertionIndex columnTasks moving targetColumnId overTaskId
    let before := if index = 0 then none else columnTasks[index - 1]?
    let after := columnTasks[index]?
    let position := midpoint (before.map TaskDto.position) (after.map TaskDto.position)
    let updated := { moving with columnId := targetColumnId, position }
    some {
      nextTasks := (without.filter fun task => task.columnId ≠ targetColumnId) ++
        columnTasks.insertIdx index updated
      beforeTaskId := before.map TaskDto.id
      afterTaskId := after.map TaskDto.id }

theorem insertionIndex_le {columnTasks : List TaskDto} {moving : TaskDto} {targetColumnId : Id}
    {overTaskId : Option Id} :
    insertionIndex columnTasks moving targetColumnId overTaskId ≤ columnTasks.length := by
  simp only [insertionIndex]
  split
  · exact le_refl _
  · rename_i k hk
    obtain ⟨i, _, hfind⟩ := Option.bind_eq_some_iff.mp hk
    have := findIndex_lt hfind
    split <;> omega

/-- A drop anywhere but at the end is a drop on a task of the column. -/
theorem exists_over {columnTasks : List TaskDto} {moving : TaskDto} {targetColumnId : Id}
    {overTaskId : Option Id}
    (h : insertionIndex columnTasks moving targetColumnId overTaskId < columnTasks.length) :
    ∃ overTask ∈ columnTasks, overTaskId = some overTask.id ∧ overTask.id ≠ [] := by
  simp only [insertionIndex] at h
  split at h
  · omega
  · rename_i k hk
    obtain ⟨i, hi, hfind⟩ := Option.bind_eq_some_iff.mp hk
    obtain ⟨rfl, htruthy⟩ := Option.filter_eq_some_iff.mp hi
    obtain ⟨overTask, hover, rfl⟩ := findIndex_eq_some hfind
    exact ⟨overTask, List.mem_of_getElem? hover, rfl, truthy_iff.mp htruthy⟩

/-- Both copies of the midpoint agree. -/
theorem midpoint_eq : Web.midpoint = Kurul.midpoint := by
  funext before after
  cases before <;> cases after <;> rfl

/-- Whatever the client holds, each id once, is as the server has it. -/
structure UpToDate (db : Db) (tasks : List TaskDto) : Prop where
  nodup : (tasks.map TaskDto.id).Nodup
  stored : ∀ task ∈ tasks, ∃ t ∈ rows TaskRow db,
    t.id = task.id ∧ t.columnId = task.columnId ∧ t.position = task.position

/-! ## One gap, seen from two lists -/

section Gap

variable {remaining held : List Sibling} {k : Nat}

theorem sliceSlot_lt (hh : held.Pairwise fun a b => rank a < rank b) {p n : Sibling}
    (hp : (sliceSlot held k).prev = some p) (hn : (sliceSlot held k).next = some n) :
    rank p < rank n := by
  simp only [sliceSlot] at hp hn
  split at hp
  · cases hp
  · obtain ⟨hlt, rfl⟩ := List.getElem?_eq_some_iff.mp hp
    obtain ⟨hlt', rfl⟩ := List.getElem?_eq_some_iff.mp hn
    exact (getElem_lt_iff hh hlt hlt').mpr (by omega)

/-- The neighbours of a gap of the held tasks are taken exactly if the remaining tasks leave that gap
empty. -/
theorem resolveMoveNeighbors_gap (hr : remaining.Pairwise fun a b => rank a < rank b)
    (hnd : (remaining.map Positioned.id).Nodup) (hh : held.Pairwise fun a b => rank a < rank b)
    (hsub : held ⊆ remaining) :
    (∃ slot, resolveMoveNeighbors remaining ((sliceSlot held k).prev.map Sibling.id)
      ((sliceSlot held k).next.map Sibling.id) = .ok slot) ↔
    ∀ p n, (sliceSlot held k).prev = some p → (sliceSlot held k).next = some n →
      ∀ s ∈ remaining, ¬ (rank p < rank s ∧ rank s < rank n) := by
  have hindex : ∀ s ∈ held, ∃ i, ∃ hi : i < remaining.length, remaining[i] = s ∧
      findIndex remaining s.id = some i := by
    intro s hs
    obtain ⟨i, hi, rfl⟩ := List.mem_iff_getElem.mp (hsub hs)
    exact ⟨i, hi, rfl, findIndex_getElem hnd hi⟩
  have hmem : ∀ o : Option Sibling, (∀ s, o = some s → s ∈ held) → ∀ i, o.map Sibling.id = some i →
      (findIndex remaining i).isSome = true := by
    rintro o ho i hi
    obtain ⟨s, hs, rfl⟩ := Option.map_eq_some_iff.mp hi
    obtain ⟨j, _, _, hfind⟩ := hindex s (ho s hs)
    rw [hfind]; rfl
  obtain ⟨hprev, hnext⟩ := mem_of_sliceSlot held k
  rw [resolveMoveNeighbors_of_found (hmem _ hprev) (hmem _ hnext)]
  cases hp : (sliceSlot held k).prev with
  | none => simp [apart]
  | some p =>
    cases hn : (sliceSlot held k).next with
    | none => simp [apart]
    | some n =>
      obtain ⟨i, hi, hip, hfi⟩ := hindex p (hprev p hp)
      obtain ⟨j, hj, hjn, hfj⟩ := hindex n (hnext n hn)
      have hlt : i < j := by
        rw [← getElem_lt_iff (f := rank) hr hi hj, hip, hjn]
        exact sliceSlot_lt hh hp hn
      have hgap := succ_iff_no_between (f := rank) hr hi hj hlt
      rw [hip, hjn] at hgap
      have hone : (∀ p' n', some p = some p' → some n = some n' →
          ∀ s ∈ remaining, ¬ (rank p' < rank s ∧ rank s < rank n')) ↔ j = i + 1 := by
        rw [hgap]
        exact ⟨fun h => h p n rfl rfl, by rintro h _ _ ⟨⟩ ⟨⟩; exact h⟩
      rw [hone]
      simp only [Option.map_some, Option.bind_some, hfi, hfj, apart]
      by_cases hsucc : j = i + 1
      · simp [hsucc]
      · simp [hsucc]

end Gap

/-! ## The column the client holds, and the one the server has -/

section Column

variable {db : Db} {tasks : List TaskDto} {taskId columnId : Id}

def toSibling (task : TaskDto) : Sibling := ⟨task.id, task.position⟩

theorem mem_columnWithout {v : TaskDto} : v ∈ columnWithout tasks taskId columnId ↔
    v ∈ tasks ∧ v.id ≠ taskId ∧ v.columnId = columnId := by
  simp only [columnWithout, sortTasks, mem_sortBy, List.mem_filter, decide_eq_true_eq]
  tauto

theorem columnWithout_lt (h : (tasks.map TaskDto.id).Nodup) :
    (columnWithout tasks taskId columnId).Pairwise fun a b => rank a < rank b := by
  apply sortBy_lt
  refine List.Nodup.of_map (fun k => (ofLex k).2) ?_
  rw [List.map_map]
  exact h.sublist (((List.filter_sublist).trans List.filter_sublist).map TaskDto.id)

theorem nodup_columnWithout (h : (tasks.map TaskDto.id).Nodup) :
    ((columnWithout tasks taskId columnId).map TaskDto.id).Nodup :=
  ((sortBy_perm rank _).map TaskDto.id).nodup_iff.mpr
    (h.sublist (((List.filter_sublist).trans List.filter_sublist).map TaskDto.id))

/-- What the client holds of the column, the server has there. -/
theorem UpToDate.subset (h : UpToDate db tasks) :
    (columnWithout tasks taskId columnId).map toSibling ⊆
      (siblings TaskRow db columnId).filter fun s => s.id ≠ taskId := by
  intro s hs
  obtain ⟨v, hv, rfl⟩ := List.mem_map.mp hs
  obtain ⟨hmem, hne, hcol⟩ := mem_columnWithout.mp hv
  obtain ⟨t, ht, hid, htc, hpos⟩ := h.stored v hmem
  rw [siblings_filter]
  rw [← hid] at hne
  refine List.mem_map.mpr ⟨t, mem_others.mpr ⟨⟨ht, htc.trans hcol⟩, hne⟩, ?_⟩
  simp [Kurul.toSibling, toSibling, Model.id, Placed.position, hid, hpos]

theorem applyMove_eq {overTaskId : Option Id} {applied : AppliedMove}
    (h : applyMove tasks taskId columnId overTaskId = some applied) :
    ∃ moving ∈ tasks, moving.id = taskId ∧ ∃ k ≤ (columnWithout tasks taskId columnId).length,
      k = insertionIndex (columnWithout tasks taskId columnId) moving columnId overTaskId ∧
      applied.beforeTaskId = (sliceSlot ((columnWithout tasks taskId columnId).map toSibling)
        k).prev.map Sibling.id ∧
      applied.afterTaskId = (sliceSlot ((columnWithout tasks taskId columnId).map toSibling)
        k).next.map Sibling.id := by
  simp only [applyMove] at h
  split at h
  · cases h
  · rename_i moving hmoving
    obtain rfl := (Option.some.inj h).symm
    refine ⟨moving, List.mem_of_find?_eq_some hmoving, by simpa using List.find?_some hmoving, _,
      insertionIndex_le, rfl, ?_, ?_⟩
    · simp only [sliceSlot]
      split
      · rfl
      · rw [List.getElem?_map, Option.map_map]
        rfl
    · simp only [sliceSlot]
      rw [List.getElem?_map, Option.map_map]
      rfl

/-! ## The gap of a drop -/

/-- A drop on `overTask` leaves this task above the dragged one. -/
def Above (moving overTask v : TaskDto) : Prop :=
  rank v < rank overTask ∨
    (v.id = overTask.id ∧ moving.columnId = overTask.columnId ∧ moving.position < overTask.position)

/-- A task of the target column that the client does not hold, between the two tasks it holds next
to the drop. -/
def HiddenInGap (tasks : List TaskDto) (taskId columnId : Id) (overTaskId : Option Id)
    (t : TaskRow) : Prop :=
  t.columnId = columnId ∧ t.id ≠ taskId ∧ (∀ v ∈ tasks, v.id ≠ t.id) ∧
  ∃ moving ∈ tasks, moving.id = taskId ∧
  ∃ overTask ∈ columnWithout tasks taskId columnId,
    overTaskId = some overTask.id ∧ overTask.id ≠ [] ∧
    (∃ v ∈ columnWithout tasks taskId columnId, Above moving overTask v) ∧
    (∃ v ∈ columnWithout tasks taskId columnId, ¬ Above moving overTask v) ∧
    ∀ v ∈ columnWithout tasks taskId columnId,
      (Above moving overTask v → rank v < rank t) ∧ (¬ Above moving overTask v → rank t < rank v)

instance (moving overTask v : TaskDto) : Decidable (Above moving overTask v) :=
  inferInstanceAs (Decidable (rank v < rank overTask ∨ (v.id = overTask.id ∧
    moving.columnId = overTask.columnId ∧ moving.position < overTask.position)))

instance (tasks : List TaskDto) (taskId columnId : Id) (overTaskId : Option Id) (t : TaskRow) :
    Decidable (HiddenInGap tasks taskId columnId overTaskId t) := by
  unfold HiddenInGap
  infer_instance

/-- `a` comes before `b`. -/
def Precedes (ids : List Id) (a b : Id) : Prop :=
  ∃ i j : Nat, i < j ∧ ids[i]? = some a ∧ ids[j]? = some b

/-- The server finds the neighbours a drag names, and a move that goes through puts the task between
them. -/
structure Accepted (db : Db) (taskId columnId : Id) (applied : AppliedMove) : Prop where
  resolves : ∃ slot, resolveMoveNeighbors
    ((siblings TaskRow db columnId).filter fun s => s.id ≠ taskId)
    applied.beforeTaskId applied.afterTaskId = .ok slot
  lands : ∀ (workspaceId userId : Id) (env : Env kurul) (w w' : World kurul) (result : TaskDto),
    w.db = db →
    (TaskService.move workspaceId taskId userId
      ⟨columnId, applied.beforeTaskId, applied.afterTaskId⟩).run env w = (.ok result, w') →
    (∀ p, applied.beforeTaskId = some p →
      Precedes ((ordered TaskRow w'.db columnId).map TaskRow.id) p taskId) ∧
    (∀ n, applied.afterTaskId = some n →
      Precedes ((ordered TaskRow w'.db columnId).map TaskRow.id) taskId n)

theorem Precedes.of_adjacent {ids : List Id} {a b : Id} (h : Adjacent ids a b) : Precedes ids a b := by
  obtain ⟨i, ha, hb⟩ := h
  exact ⟨i, i + 1, by omega, ha, hb⟩

/-- A move that goes through puts its task next to every neighbour found in the column. -/
theorem lands_of_found {workspaceId userId : Id} {env : Env kurul} {w w' : World kurul}
    {prevId nextId : Option Id} {result : TaskDto}
    (h : (TaskService.move workspaceId taskId userId ⟨columnId, prevId, nextId⟩).run env w =
      (.ok result, w')) :
    (∀ p ∈ othersIds TaskRow w.db columnId taskId, prevId = some p →
      Precedes ((ordered TaskRow w'.db columnId).map TaskRow.id) p taskId) ∧
    (∀ n ∈ othersIds TaskRow w.db columnId taskId, nextId = some n →
      Precedes ((ordered TaskRow w'.db columnId).map TaskRow.id) taskId n) := by
  obtain ⟨_, slot, hslot, hof, hplaced⟩ := TaskService.move_ok h
  rw [siblings_filter] at hslot
  obtain ⟨hprev, hnext⟩ := insertionIndex_of_found hslot
  have hle : slot.insertionIndex ≤ (othersIds TaskRow w.db columnId taskId).length := by
    simpa [othersIds] using hof.le
  have hfind : ∀ x ∈ othersIds TaskRow w.db columnId taskId, ∃ i,
      (othersIds TaskRow w.db columnId taskId)[i]? = some x ∧
      findIndex ((others TaskRow w.db columnId taskId).map Kurul.toSibling) x = some i := by
    intro x hx
    obtain ⟨i, hi, rfl⟩ := List.mem_iff_getElem.mp hx
    refine ⟨i, List.getElem?_eq_getElem hi, ?_⟩
    have hnd : (((others TaskRow w.db columnId taskId).map Kurul.toSibling).map
        Positioned.id).Nodup := by
      rw [ids_toSibling]
      exact nodup_othersIds TaskRow w.db columnId taskId
    have hfind := findIndex_getElem hnd (k := i) (by simpa [othersIds] using hi)
    simpa [othersIds, Kurul.toSibling, Positioned.id] using hfind
  have hord := hplaced.order
  refine ⟨fun p hp hpe => ?_, fun n hn hne => ?_⟩
  · obtain ⟨i, hget, hi⟩ := hfind p hp
    have hk := hprev p i hpe hi
    refine .of_adjacent ?_
    show Adjacent ((ordered TaskRow w'.db columnId).map Model.id) p taskId
    rw [hord]
    exact adjacent_insertIdx_prev (by omega) hle (by rw [hk]; exact hget)
  · obtain ⟨j, hget, hj⟩ := hfind n hn
    have hk := hnext n j hne hj
    refine .of_adjacent ?_
    show Adjacent ((ordered TaskRow w'.db columnId).map Model.id) taskId n
    rw [hord]
    exact adjacent_insertIdx_next hle (by rw [hk]; exact hget)

/-- The index of a drop splits the held column into what stays above and what does not. -/
theorem above_iff_lt {C : List TaskDto} (hC : C.Pairwise fun a b => rank a < rank b)
    (hnd : (C.map TaskDto.id).Nodup) {moving overTask : TaskDto} (hover : overTask ∈ C)
    (hcol : overTask.columnId = columnId) (hne : overTask.id ≠ []) {i : Nat} (hi : i < C.length) :
    Above moving overTask C[i] ↔ i < insertionIndex C moving columnId (some overTask.id) := by
  obtain ⟨o, ho, rfl⟩ := List.mem_iff_getElem.mp hover
  have hfind : findIndex C C[o].id = some o := findIndex_getElem hnd ho
  have hfilter : (some C[o].id).filter truthy = some C[o].id := by
    rw [Option.filter_some, if_pos (truthy_iff.mpr hne)]
  have hid : C[i].id = C[o].id ↔ i = o := by
    constructor
    · intro h
      have heq := List.inj_on_of_nodup_map hnd (List.getElem_mem hi) (List.getElem_mem ho) h
      by_contra hio
      rcases Nat.lt_or_gt_of_ne hio with hlt | hgt
      · have hlt := (getElem_lt_iff hC hi ho).mpr hlt
        rw [heq] at hlt
        exact lt_irrefl _ hlt
      · have hgt := (getElem_lt_iff hC ho hi).mpr hgt
        rw [heq] at hgt
        exact lt_irrefl _ hgt
    · rintro rfl; rfl
  simp only [Above, insertionIndex, hfilter, Option.bind_some, hfind,
    List.getElem?_eq_getElem ho, Option.any_some, Bool.and_eq_true, decide_eq_true_eq,
    getElem_lt_iff (f := rank) hC hi ho, hid, hcol]
  split
  · rename_i hdown
    constructor
    · rintro (h | ⟨rfl, _⟩) <;> omega
    · intro h
      by_cases heq : i = o
      · exact .inr ⟨heq, hdown⟩
      · exact .inl (by omega)
  · rename_i hup
    constructor
    · rintro (h | ⟨_, h⟩)
      · exact h
      · exact absurd h hup
    · exact .inl

/-- The gap of the drop is empty on the server exactly if nothing hidden lies in it. -/
theorem gap_empty_iff (hu : UpToDate db tasks) {overTaskId : Option Id} {moving : TaskDto}
    (hm : moving ∈ tasks) (hid : moving.id = taskId) {k : Nat}
    (hk : k = insertionIndex (columnWithout tasks taskId columnId) moving columnId overTaskId) :
    (∀ p n, (sliceSlot ((columnWithout tasks taskId columnId).map toSibling) k).prev = some p →
      (sliceSlot ((columnWithout tasks taskId columnId).map toSibling) k).next = some n →
      ∀ s ∈ (siblings TaskRow db columnId).filter fun s => s.id ≠ taskId,
        ¬ (rank p < rank s ∧ rank s < rank n)) ↔
    ¬ ∃ t ∈ rows TaskRow db, HiddenInGap tasks taskId columnId overTaskId t := by
  have hC : (columnWithout tasks taskId columnId).Pairwise fun a b => rank a < rank b :=
    columnWithout_lt hu.nodup
  have hnd : ((columnWithout tasks taskId columnId).map TaskDto.id).Nodup :=
    nodup_columnWithout hu.nodup
  have hcol : ∀ v ∈ columnWithout tasks taskId columnId, v.columnId = columnId :=
    fun v hv => (mem_columnWithout.mp hv).2.2
  have hheld : ∀ v ∈ tasks, ∀ t ∈ rows TaskRow db, v.id = t.id → t.columnId = columnId →
      t.id ≠ taskId → v ∈ columnWithout tasks taskId columnId ∧ rank v = rank t := by
    intro v hv t ht hvt htc hne
    obtain ⟨t', ht', hid', hc', hp'⟩ := hu.stored v hv
    obtain rfl : t' = t := eq_of_id ht' ht (hid'.trans hvt)
    refine ⟨mem_columnWithout.mpr ⟨hv, hvt ▸ hne, hc'.symm.trans htc⟩, ?_⟩
    show toLex (v.position, v.id) = toLex (t'.position, t'.id)
    rw [hvt, hp']
  have hk' : k ≤ (columnWithout tasks taskId columnId).length := hk ▸ insertionIndex_le
  simp only [HiddenInGap]
  generalize columnWithout tasks taskId columnId = C at hk hk' hC hnd hcol hheld ⊢
  have hprev : 0 < k → (sliceSlot (C.map toSibling) k).prev = (C[k - 1]?).map toSibling := by
    intro hpos
    simp only [sliceSlot]
    rw [if_neg (by omega), List.getElem?_map]
  have hnext : (sliceSlot (C.map toSibling) k).next = (C[k]?).map toSibling :=
    List.getElem?_map
  constructor
  · rintro h ⟨t, ht, htc, htne, _, m, hm', hmid, overTask, hover, rfl, hne, ⟨p, hp, hpa⟩,
      ⟨n, hn, hna⟩, hall⟩
    obtain rfl : m = moving := List.inj_on_of_nodup_map hu.nodup hm' hm (hmid.trans hid.symm)
    have habove : ∀ i (hi : i < C.length), Above m overTask C[i] ↔ i < k := by
      intro i hi
      rw [hk]
      exact above_iff_lt hC hnd hover (hcol overTask hover) hne hi
    obtain ⟨i, hi, rfl⟩ := List.mem_iff_getElem.mp hp
    obtain ⟨j, hj, rfl⟩ := List.mem_iff_getElem.mp hn
    rw [habove i hi] at hpa
    rw [habove j hj] at hna
    have hpos : 0 < k := by omega
    have hlt : k < C.length := by omega
    refine h (toSibling C[k - 1]) (toSibling C[k]) ?_ ?_ (Kurul.toSibling t) ?_ ⟨?_, ?_⟩
    · rw [hprev hpos, List.getElem?_eq_getElem (by omega)]
      rfl
    · rw [hnext, List.getElem?_eq_getElem hlt]
      rfl
    · rw [siblings_filter]
      exact List.mem_map_of_mem (mem_others.mpr ⟨⟨ht, htc⟩, htne⟩)
    · exact (hall _ (List.getElem_mem (by omega))).1 ((habove _ (by omega)).mpr (by omega))
    · exact (hall _ (List.getElem_mem hlt)).2 fun hab => by
        rw [habove k hlt] at hab
        omega
  · rintro h p n hp hn s hs ⟨hps, hsn⟩
    have hpos : 0 < k := by
      by_contra h0
      rw [sliceSlot, if_pos (by omega)] at hp
      cases hp
    rw [hprev hpos] at hp
    rw [hnext] at hn
    obtain ⟨v, hv, rfl⟩ := Option.map_eq_some_iff.mp hp
    obtain ⟨hvlt, rfl⟩ := List.getElem?_eq_some_iff.mp hv
    obtain ⟨u, hu', rfl⟩ := Option.map_eq_some_iff.mp hn
    obtain ⟨hlt, rfl⟩ := List.getElem?_eq_some_iff.mp hu'
    rw [siblings_filter] at hs
    obtain ⟨t, ht, rfl⟩ := List.mem_map.mp hs
    obtain ⟨⟨ht, htc⟩, htne⟩ := mem_others.mp ht
    obtain ⟨overTask, hover, rfl, hne⟩ := exists_over (hk ▸ hlt)
    have habove : ∀ i (hi : i < C.length), Above moving overTask C[i] ↔ i < k := by
      intro i hi
      rw [hk]
      exact above_iff_lt hC hnd hover (hcol overTask hover) hne hi
    refine h ⟨t, ht, htc, htne, ?_, moving, hm, hid, overTask, hover, rfl, hne,
      ⟨_, List.getElem_mem hvlt, (habove _ hvlt).mpr (by omega)⟩,
      ⟨_, List.getElem_mem hlt, fun hab => absurd ((habove _ hlt).mp hab) (lt_irrefl _)⟩, ?_⟩
    · intro v hv hvt
      obtain ⟨hmem, hrank⟩ := hheld v hv t ht hvt htc htne
      obtain ⟨i, hi, rfl⟩ := List.mem_iff_getElem.mp hmem
      have h₁ : rank C[k - 1] < rank C[i] := by rw [hrank]; exact hps
      have h₂ : rank C[i] < rank C[k] := by rw [hrank]; exact hsn
      rw [getElem_lt_iff hC hvlt hi] at h₁
      rw [getElem_lt_iff hC hi hlt] at h₂
      omega
    · intro v hv
      obtain ⟨i, hi, rfl⟩ := List.mem_iff_getElem.mp hv
      rw [habove i hi]
      constructor
      · intro hik
        by_cases heq : i = k - 1
        · subst heq; exact hps
        · exact ((getElem_lt_iff hC hi hvlt).mpr (by omega)).trans hps
      · intro hik
        by_cases heq : i = k
        · subst heq; exact hsn
        · exact hsn.trans ((getElem_lt_iff hC hlt hi).mpr (by omega))

/-- A drag is accepted, and lands where it was dropped, exactly if the client holds every task the
server has in the gap of the drop. -/
theorem drag_accepted_iff (hu : UpToDate db tasks) {overTaskId : Option Id} {applied : AppliedMove}
    (ha : applyMove tasks taskId columnId overTaskId = some applied) :
    Accepted db taskId columnId applied ↔
      ¬ ∃ t ∈ rows TaskRow db, HiddenInGap tasks taskId columnId overTaskId t := by
  obtain ⟨moving, hm, hid, k, hk, hindex, hbefore, hafter⟩ := applyMove_eq ha
  have hr : ((siblings TaskRow db columnId).filter fun s => s.id ≠ taskId).Pairwise
      fun a b => rank a < rank b := by
    rw [siblings_filter]
    exact List.pairwise_map.mpr (others_lt TaskRow db columnId taskId)
  have hnd : (((siblings TaskRow db columnId).filter fun s => s.id ≠ taskId).map
      Positioned.id).Nodup := by
    rw [siblings_filter, ids_toSibling]
    exact nodup_othersIds TaskRow db columnId taskId
  have hh : ((columnWithout tasks taskId columnId).map toSibling).Pairwise
      fun a b => rank a < rank b := List.pairwise_map.mpr (columnWithout_lt hu.nodup)
  rw [← gap_empty_iff hu hm hid hindex, ← resolveMoveNeighbors_gap hr hnd hh hu.subset, ← hbefore,
    ← hafter]
  refine ⟨Accepted.resolves, fun h => ⟨h, ?_⟩⟩
  have hin : ∀ s ∈ (columnWithout tasks taskId columnId).map toSibling,
      s.id ∈ othersIds TaskRow db columnId taskId := by
    intro s hs
    have hs' := hu.subset hs
    rw [siblings_filter] at hs'
    rw [othersIds, ← ids_toSibling]
    exact List.mem_map_of_mem hs'
  rintro workspaceId userId env w w' result rfl hrun
  obtain ⟨hprev, hnext⟩ := lands_of_found hrun
  refine ⟨fun p hp => hprev p ?_ hp, fun n hn => hnext n ?_ hn⟩
  · rw [hbefore] at hp
    obtain ⟨s, hs, rfl⟩ := Option.map_eq_some_iff.mp hp
    exact hin s ((mem_of_sliceSlot _ _).1 s hs)
  · rw [hafter] at hn
    obtain ⟨s, hs, rfl⟩ := Option.map_eq_some_iff.mp hn
    exact hin s ((mem_of_sliceSlot _ _).2 s hs)

end Column

/-- Three tasks in the first column, one in the second. -/
def fourTasks : Db where
  rows := [
    .user ⟨js "u", js "u@x", js "U", true, none, none, none⟩,
    .workspace ⟨js "w", js "W", js "w"⟩,
    .board ⟨js "b", js "w", js "B", none, 0⟩,
    .column ⟨js "c", js "b", js "C", 1000, none, .unstarted⟩,
    .column ⟨js "d", js "b", js "D", 2000, none, .started⟩,
    .task ⟨js "r", js "b", js "c", js "R", none, .medium, 1000, none, none, js "u", 0, 0⟩,
    .task ⟨js "s", js "b", js "c", js "S", none, .high, 2000, none, none, js "u", 0, 0⟩,
    .task ⟨js "t", js "b", js "c", js "T", none, .medium, 3000, none, none, js "u", 0, 0⟩,
    .task ⟨js "v", js "b", js "d", js "V", none, .medium, 1000, none, none, js "u", 0, 0⟩]
  nodup := by decide +kernel

/-- The board under a filter by priority, which hides the middle task. -/
def mediumTasks : List TaskDto :=
  ((rows TaskRow fourTasks).filter fun t => t.priority = .medium).map fun t =>
    toTaskListDto (taskListInclude fourTasks t) 0

theorem mediumTasks_upToDate : UpToDate fourTasks mediumTasks where
  nodup := by decide +kernel
  stored := by decide +kernel

/-- Above the first task nothing is hidden: the drag is accepted. -/
theorem drag_accepted_medium : ∃ applied,
    applyMove mediumTasks (js "v") (js "c") (some (js "r")) = some applied ∧
      Accepted fourTasks (js "v") (js "c") applied := by
  obtain ⟨applied, ha⟩ := Option.isSome_iff_exists.mp (by decide +kernel :
    (applyMove mediumTasks (js "v") (js "c") (some (js "r"))).isSome = true)
  exact ⟨applied, ha, (drag_accepted_iff mediumTasks_upToDate ha).mpr (by decide +kernel)⟩

/-- Between the two tasks shown in the first column the server has a third: the drag is refused. -/
theorem drag_refused_medium : UpToDate fourTasks mediumTasks ∧ ∃ applied,
    applyMove mediumTasks (js "v") (js "c") (some (js "t")) = some applied ∧
      ¬ Accepted fourTasks (js "v") (js "c") applied := by
  refine ⟨mediumTasks_upToDate, ?_⟩
  have hno : (applyMove mediumTasks (js "v") (js "c") (some (js "t"))).any (fun applied =>
      !(resolveMoveNeighbors ((siblings TaskRow fourTasks (js "c")).filter fun s => s.id ≠ js "v")
        applied.beforeTaskId applied.afterTaskId).isOk) = true := by decide +kernel
  obtain ⟨applied, ha, hno⟩ := (Option.any_eq_true _ _).mp hno
  refine ⟨applied, ha, fun h => ?_⟩
  obtain ⟨slot, hslot⟩ := h.resolves
  rw [hslot] at hno
  cases hno

end Web
end Kurul
