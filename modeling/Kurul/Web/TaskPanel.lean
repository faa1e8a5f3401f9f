import Kurul.Task.TaskDto
import Kurul.Task.TaskFields

/-!
# Kurul.Web.TaskPanel

The writes of the task panel on a row of the board: what each puts there before its request, and what its
answer or its failure puts there, with values read when it began. Meanwhile the row takes what the server
delivers.

* `applyTaskPatch` — every write goes through it.
* `PanelWrite`     — `toggleItem`, `patchTask`, `save` and `deleteBoardLabel`.
* `OwnFieldsOnly`  — a settled write has left every field but its own as the server last delivered it.
* `panel_write_iff` — when it has, by what was delivered meanwhile.
-/

namespace Kurul
namespace Web
namespace TaskPanel

/-! ## Rows and patches -/

/-- The keys of a task, but for its id. -/
inductive TaskField where
  | boardId | columnId | title | description | priority | position | dueDate | estimatedMinutes
  | createdById | createdAt | updatedAt | assignees | labels | checklistSummary | checklists
  | attachmentCount
  deriving DecidableEq

abbrev TaskField.Value : TaskField → Type
  | .boardId | .columnId | .createdById => Id
  | .title | .createdAt | .updatedAt => JsString
  | .description | .dueDate => Option JsString
  | .priority => Priority
  | .position => Position
  | .estimatedMinutes => Option Int
  | .assignees => List TaskAssigneeDto
  | .labels => List LabelDto
  | .checklistSummary => ChecklistSummaryDto
  | .checklists => Option (List ChecklistDto)
  | .attachmentCount => Nat

def valueOf (t : TaskDto) : (f : TaskField) → f.Value
  | .boardId => t.boardId
  | .columnId => t.columnId
  | .title => t.title
  | .description => t.description
  | .priority => t.priority
  | .position => t.position
  | .dueDate => t.dueDate
  | .estimatedMinutes => t.estimatedMinutes
  | .createdById => t.createdById
  | .createdAt => t.createdAt
  | .updatedAt => t.updatedAt
  | .assignees => t.assignees
  | .labels => t.labels
  | .checklistSummary => t.checklistSummary
  | .checklists => t.checklists
  | .attachmentCount => t.attachmentCount

/-- `Partial<TaskDto> & Pick<TaskDto, 'id'>`. -/
structure TaskPatch where
  id : Id
  value : (f : TaskField) → Option f.Value

/-- `{ ...current, ...patch }`. -/
def merge (t : TaskDto) (p : TaskPatch) : TaskDto where
  id := p.id
  boardId := (p.value .boardId).getD t.boardId
  columnId := (p.value .columnId).getD t.columnId
  title := (p.value .title).getD t.title
  description := (p.value .description).getD t.description
  priority := (p.value .priority).getD t.priority
  position := (p.value .position).getD t.position
  dueDate := (p.value .dueDate).getD t.dueDate
  estimatedMinutes := (p.value .estimatedMinutes).getD t.estimatedMinutes
  createdById := (p.value .createdById).getD t.createdById
  createdAt := (p.value .createdAt).getD t.createdAt
  updatedAt := (p.value .updatedAt).getD t.updatedAt
  assignees := (p.value .assignees).getD t.assignees
  labels := (p.value .labels).getD t.labels
  checklistSummary := (p.value .checklistSummary).getD t.checklistSummary
  checklists := (p.value .checklists).getD t.checklists
  attachmentCount := (p.value .attachmentCount).getD t.attachmentCount

theorem valueOf_merge (t : TaskDto) (p : TaskPatch) (f : TaskField) :
    valueOf (merge t p) f = (p.value f).getD (valueOf t f) := by
  cases f <;> rfl

/-- These keys of a task, as a patch of it. -/
def TaskPatch.only (own : TaskField → Bool) (t : TaskDto) : TaskPatch where
  id := t.id
  value f := if own f then some (valueOf t f) else none

/-- All of them. -/
abbrev TaskPatch.whole (t : TaskDto) : TaskPatch := .only (fun _ => true) t

/-- The row under an id. -/
def rowOf (id : Id) (tasks : List TaskDto) : Option TaskDto := tasks.find? fun t => t.id = id

/-- `next[index] = …`, at the first index with this id. -/
def modifyFirst (id : Id) (update : TaskDto → TaskDto) : List TaskDto → List TaskDto
  | [] => []
  | t :: rest => if t.id = id then update t :: rest else t :: modifyFirst id update rest

/-- A patch that is a whole task. `isWholeTask` asks for six of the keys: the patches that are made and
have those have all. -/
def TaskPatch.task (p : TaskPatch) : Option TaskDto := do
  return {
    id := p.id
    boardId := ← p.value .boardId
    columnId := ← p.value .columnId
    title := ← p.value .title
    description := ← p.value .description
    priority := ← p.value .priority
    position := ← p.value .position
    dueDate := ← p.value .dueDate
    estimatedMinutes := ← p.value .estimatedMinutes
    createdById := ← p.value .createdById
    createdAt := ← p.value .createdAt
    updatedAt := ← p.value .updatedAt
    assignees := ← p.value .assignees
    labels := ← p.value .labels
    checklistSummary := ← p.value .checklistSummary
    checklists := ← p.value .checklists
    attachmentCount := ← p.value .attachmentCount }

/-- Where the row is not there a whole task is appended, and with less the board is read again, which
leaves the array alone for now. -/
def applyTaskPatch (patch : TaskPatch) (tasks : List TaskDto) : List TaskDto :=
  if tasks.any fun t => t.id = patch.id then modifyFirst patch.id (fun t => merge t patch) tasks
  else tasks ++ patch.task.toList

/-! ## The server -/

/-- A task as the API answers it: it is the one asked for. -/
abbrev Read (taskId : Id) : Type := { t : TaskDto // t.id = taskId }

/-- What realtime does to the row of a task: `upsertRemoteTask` once the task is read again, and
`onTaskMoved`. -/
inductive Delivery (taskId : Id) where
  | updated (remote : Read taskId)
  | moved (columnId : Id) (position : Position)

/-- What it does to a row. -/
def Delivery.onto {taskId : Id} (d : Delivery taskId) (t : TaskDto) : TaskDto :=
  match d with
  | .updated remote => remote.val
  | .moved columnId position => { t with columnId, position }

def Delivery.apply {taskId : Id} (d : Delivery taskId) (tasks : List TaskDto) : List TaskDto :=
  match d with
  | .updated remote =>
    if tasks.any fun t => t.id = taskId then modifyFirst taskId (fun _ => remote.val) tasks
    else tasks ++ [remote.val]
  | .moved columnId position =>
    tasks.map fun t => if t.id = taskId then { t with columnId, position } else t

/-! ## The writes -/

inductive PanelWrite where
  | toggleItem (itemId : Id) (isDone : Bool)
  | patchTask (body : UpdateTaskDto)
  /-- With what the two inputs hold. -/
  | save (title description : JsString)
  | deleteBoardLabel (labelId : Id)

namespace PanelWrite

/-- The keys of an `UpdateTaskRequest`. -/
def keys (body : UpdateTaskDto) : TaskField → Bool
  | .title => body.title.isSome
  | .description => body.description ≠ .absent
  | .priority => body.priority.isSome
  | .dueDate => body.dueDate ≠ .absent
  | .estimatedMinutes => body.estimatedMinutes ≠ .absent
  | _ => false

/-- The fields a write is about. -/
def own : PanelWrite → TaskField → Bool
  | .toggleItem _ _, f => f = .checklists || f = .checklistSummary
  | .patchTask body, f => keys body f
  | .save _ _, f => f = .title || f = .description
  | .deleteBoardLabel _, f => f = .labels

def summarize (checklists : List ChecklistDto) : ChecklistSummaryDto :=
  let items := checklists.flatMap ChecklistDto.items
  ⟨items.length, (items.filter ChecklistItemDto.isDone).length⟩

/-- The item ticked, wherever it is. -/
def tick (itemId : Id) (isDone : Bool) (previous : List ChecklistDto) : List ChecklistDto :=
  previous.map fun list => { list with
    items := list.items.map fun item => if item.id = itemId then { item with isDone } else item }

/-- What is shown before the request is answered. -/
def optimistic (task : TaskDto) : PanelWrite → Option TaskPatch
  | .toggleItem itemId isDone => task.checklists.map fun previous => {
      id := task.id
      value := fun
        | .checklists => some (some (tick itemId isDone previous))
        | .checklistSummary => some (summarize (tick itemId isDone previous))
        | _ => none }
  | .save title description => some {
      id := task.id
      value := fun
        | .title => some (trim title)
        | .description => some (if (trim description).length > 0 then some description else none)
        | _ => none }
  | _ => none

/-- A save that changes nothing, or would leave no title, is not sent. -/
def sent (task : TaskDto) : PanelWrite → Bool
  | .save title description =>
    !(trim title).isEmpty && !(decide (trim title = task.title) &&
      decide ((if (trim description).length > 0 then some description else none) = task.description))
  | _ => true

/-- What the API answers: the task, but nothing to the deletion of a label. -/
def Answer (taskId : Id) : PanelWrite → Type
  | .deleteBoardLabel _ => Unit
  | _ => Read taskId

/-- What an answer puts in the row. `task` is the row the write began with. -/
def answered (task : TaskDto) : (w : PanelWrite) → w.Answer task.id → TaskPatch
  | .toggleItem _ _, updated => .whole updated.val
  | .patchTask _, updated => .whole updated.val
  | .save _ _, updated => .whole updated.val
  | .deleteBoardLabel labelId, _ =>
    .whole { task with labels := task.labels.filter fun label => label.id ≠ labelId }

/-- What a failure does. -/
def failed (task : TaskDto) : PanelWrite → Option TaskPatch
  | .deleteBoardLabel _ => none
  | w => some (.only w.own task)

/-- `answer` is `none` if the request fails. -/
def settled (task : TaskDto) (w : PanelWrite) (answer : Option (w.Answer task.id)) : Option TaskPatch :=
  match answer with
  | some answer => some (w.answered task answer)
  | none => w.failed task

/-- An answer that is a task is one more delivery. -/
def delivered {taskId : Id} : (w : PanelWrite) → w.Answer taskId → TaskDto → TaskDto
  | .toggleItem _ _, updated, _ => updated.val
  | .patchTask _, updated, _ => updated.val
  | .save _ _, updated, _ => updated.val
  | .deleteBoardLabel _, _, latest => latest

/-- The fields a settled write may leave otherwise than delivered: its own, but none after a toggle that
failed, which is to be as if it had never been made. -/
def mayDiffer : PanelWrite → Bool → TaskField → Bool
  | .toggleItem _ _, true, _ => false
  | w, _, f => w.own f

/-- Fields that a settled write puts back as they were when it began, though they are not for it to say. -/
def putsBack : PanelWrite → Bool → TaskField → Bool
  | .toggleItem itemId isDone, true, f => (toggleItem itemId isDone).own f
  | .deleteBoardLabel labelId, false, f => !(deleteBoardLabel labelId).own f
  | _, _, _ => false

end PanelWrite

/-! ## A write among deliveries -/

/-- A board whose panel shows a task. -/
structure Opened where
  tasks : List TaskDto
  task : TaskDto
  shown : rowOf task.id tasks = some task

namespace Opened

variable (o : Opened) (w : PanelWrite) (meanwhile : List (Delivery o.task.id))
  (answer : Option (w.Answer o.task.id))

def deliver {taskId : Id} (meanwhile : List (Delivery taskId)) (tasks : List TaskDto) : List TaskDto :=
  meanwhile.foldl (fun tasks d => d.apply tasks) tasks

/-- The array once the write has settled. -/
def afterWrite : List TaskDto :=
  if w.sent o.task then
    let begun := (w.optimistic o.task).elim o.tasks fun p => applyTaskPatch p o.tasks
    let waited := deliver meanwhile begun
    (w.settled o.task answer).elim waited fun p => applyTaskPatch p waited
  else deliver meanwhile o.tasks

/-- What the deliveries make of a row. -/
def lastDelivered {taskId : Id} (meanwhile : List (Delivery taskId)) (t : TaskDto) : TaskDto :=
  meanwhile.foldl (fun t d => d.onto t) t

/-- Each field as the server has last delivered it, with the answer. -/
def latest : TaskDto :=
  if w.sent o.task then
    answer.elim (lastDelivered meanwhile o.task) fun a =>
      w.delivered a (lastDelivered meanwhile o.task)
  else lastDelivered meanwhile o.task

/-- The write has left the row as delivered but for its own fields, and the other rows to the
deliveries. -/
structure OwnFieldsOnly : Prop where
  row : ∃ row, rowOf o.task.id (o.afterWrite w meanwhile answer) = some row ∧
    ∀ f, w.mayDiffer answer.isNone f = false → valueOf row f = valueOf (o.latest w meanwhile answer) f
  rest : (o.afterWrite w meanwhile answer).filter (fun t => t.id ≠ o.task.id) =
    o.tasks.filter fun t => t.id ≠ o.task.id

/-- What the write puts back is as it was last delivered meanwhile. -/
def Undisturbed : Prop :=
  w.sent o.task = true → ∀ f, w.putsBack answer.isNone f = true →
    valueOf (lastDelivered meanwhile o.task) f = valueOf o.task f

end Opened

section Rows

variable {id : Id} {t t' : TaskDto} {tasks : List TaskDto} {update : TaskDto → TaskDto}

theorem rowOf_modifyFirst (hid : ∀ t, t.id = id → (update t).id = id) :
    rowOf id (modifyFirst id update tasks) = (rowOf id tasks).map update := by
  induction tasks with
  | nil => rfl
  | cons t rest ih =>
    unfold modifyFirst rowOf
    by_cases h : t.id = id
    · simp [h, hid t h]
    · simpa [h, rowOf] using ih

theorem filter_modifyFirst (hid : ∀ t, t.id = id → (update t).id = id) :
    (modifyFirst id update tasks).filter (fun t => t.id ≠ id) = tasks.filter fun t => t.id ≠ id := by
  induction tasks with
  | nil => rfl
  | cons t rest ih =>
    unfold modifyFirst
    by_cases h : t.id = id
    · simp [h, hid t h]
    · rw [if_neg h, List.filter_cons_of_pos (by simpa using h), List.filter_cons_of_pos (by simpa using h),
        ih]

theorem any_of_rowOf (h : rowOf id tasks = some t) : (tasks.any fun t => t.id = id) = true :=
  List.any_eq_true.mpr ⟨t, List.mem_of_find?_eq_some h, by simpa using List.find?_some h⟩

theorem applyTaskPatch_of_row {p : TaskPatch} (h : rowOf p.id tasks = some t) :
    applyTaskPatch p tasks = modifyFirst p.id (fun t => merge t p) tasks := by
  rw [applyTaskPatch, if_pos (any_of_rowOf h)]

theorem rowOf_applyTaskPatch {p : TaskPatch} (h : rowOf p.id tasks = some t) :
    rowOf p.id (applyTaskPatch p tasks) = some (merge t p) := by
  have hrow : rowOf p.id (modifyFirst p.id (fun t => merge t p) tasks) =
      (rowOf p.id tasks).map fun t => merge t p := rowOf_modifyFirst fun _ _ => rfl
  rw [applyTaskPatch_of_row h, hrow, h]
  rfl

theorem filter_applyTaskPatch {p : TaskPatch} (h : rowOf p.id tasks = some t) :
    (applyTaskPatch p tasks).filter (fun t => t.id ≠ p.id) = tasks.filter fun t => t.id ≠ p.id := by
  rw [applyTaskPatch_of_row h]
  exact filter_modifyFirst fun _ _ => rfl

theorem rowOf_apply {d : Delivery id} (h : rowOf id tasks = some t) :
    rowOf id (d.apply tasks) = some (d.onto t) := by
  cases d with
  | updated remote =>
    simp only [Delivery.apply, any_of_rowOf h, if_true]
    have hrow : rowOf id (modifyFirst id (fun _ => remote.val) tasks) =
        (rowOf id tasks).map fun _ => remote.val := rowOf_modifyFirst fun _ _ => remote.property
    rw [hrow, h]
    rfl
  | moved columnId position =>
    simp only [Delivery.apply, rowOf, List.find?_map] at h ⊢
    have htest : ((fun t : TaskDto => decide (t.id = id)) ∘ fun t =>
        if t.id = id then { t with columnId, position } else t) = fun t => decide (t.id = id) := by
      funext t
      by_cases ht : t.id = id <;> simp [ht]
    have hid : t.id = id := by simpa using List.find?_some h
    rw [htest, h]
    simp [Delivery.onto, hid]

theorem filter_apply {d : Delivery id} (h : rowOf id tasks = some t) :
    (d.apply tasks).filter (fun t => t.id ≠ id) = tasks.filter fun t => t.id ≠ id := by
  cases d with
  | updated remote =>
    simp only [Delivery.apply, any_of_rowOf h, if_true]
    exact filter_modifyFirst fun _ _ => remote.property
  | moved columnId position =>
    simp only [Delivery.apply]
    clear h
    induction tasks with
    | nil => rfl
    | cons t rest ih =>
      by_cases ht : t.id = id
      · simpa [ht] using ih
      · simpa [ht] using ih

end Rows

/-! ## What the deliveries leave -/

namespace Opened

section Deliveries

variable {id : Id} {t u : TaskDto} {tasks : List TaskDto} {f : TaskField}

theorem deliver_of_row (ds : List (Delivery id)) (h : rowOf id tasks = some t) :
    rowOf id (deliver ds tasks) = some (lastDelivered ds t) ∧
      (deliver ds tasks).filter (fun t => t.id ≠ id) = tasks.filter fun t => t.id ≠ id := by
  induction ds generalizing tasks t with
  | nil => exact ⟨h, rfl⟩
  | cons d rest ih =>
    obtain ⟨hrow, hrest⟩ := ih (rowOf_apply (d := d) h)
    exact ⟨hrow, hrest.trans (filter_apply h)⟩

/-- A delivery says a field of the row, or leaves it. -/
theorem onto_agrees {d : Delivery id} (h : valueOf t f = valueOf u f) :
    valueOf (d.onto t) f = valueOf (d.onto u) f := by
  cases d with
  | updated remote => rfl
  | moved columnId position =>
    cases f with
    | columnId => rfl
    | position => rfl
    | _ => exact h

theorem lastDelivered_agrees {ds : List (Delivery id)} (h : valueOf t f = valueOf u f) :
    valueOf (lastDelivered ds t) f = valueOf (lastDelivered ds u) f := by
  induction ds generalizing t u with
  | nil => exact h
  | cons d rest ih => exact ih (onto_agrees h)

end Deliveries

/-! ## The row a write leaves -/

variable {o : Opened} {w : PanelWrite} {meanwhile : List (Delivery o.task.id)}
  {answer : Option (w.Answer o.task.id)} {f : TaskField}

/-- What is shown before the answer differs from the row in the write's own fields. -/
theorem optimistic_own {p : TaskPatch} (h : w.optimistic o.task = some p) :
    p.id = o.task.id ∧ ∀ f, w.own f = false → p.value f = none := by
  cases w with
  | toggleItem itemId isDone =>
    obtain ⟨previous, -, rfl⟩ := Option.map_eq_some_iff.mp h
    exact ⟨rfl, fun f hf => by cases f <;> simp_all [PanelWrite.own]⟩
  | save title description =>
    obtain rfl := Option.some.inj h
    exact ⟨rfl, fun f hf => by cases f <;> simp_all [PanelWrite.own]⟩
  | patchTask body => cases h
  | deleteBoardLabel labelId => cases h

theorem settled_id {p : TaskPatch} (h : w.settled o.task answer = some p) : p.id = o.task.id := by
  cases answer with
  | none =>
    cases w with
    | deleteBoardLabel labelId => cases h
    | _ => obtain rfl := Option.some.inj h; rfl
  | some a =>
    cases w with
    | deleteBoardLabel labelId => obtain rfl := Option.some.inj h; rfl
    | _ => obtain rfl := Option.some.inj h; exact a.property

/-- A patch of the row, if there is one, and the other rows are left. -/
theorem patch_of_row {p : Option TaskPatch} {tasks : List TaskDto} {id : Id} {t : TaskDto}
    (hid : ∀ q, p = some q → q.id = id) (h : rowOf id tasks = some t) :
    rowOf id (p.elim tasks fun q => applyTaskPatch q tasks) = some (p.elim t fun q => merge t q) ∧
      (p.elim tasks fun q => applyTaskPatch q tasks).filter (fun t => t.id ≠ id) =
        tasks.filter fun t => t.id ≠ id := by
  cases p with
  | none => exact ⟨h, rfl⟩
  | some q =>
    obtain rfl := hid q rfl
    exact ⟨rowOf_applyTaskPatch h, filter_applyTaskPatch h⟩

/-- The row as the deliveries find it. -/
def begunRow (o : Opened) (w : PanelWrite) : TaskDto :=
  (w.optimistic o.task).elim o.task fun p => merge o.task p

/-- The row a write leaves. -/
def settledRow (o : Opened) (w : PanelWrite) (meanwhile : List (Delivery o.task.id))
    (answer : Option (w.Answer o.task.id)) : TaskDto :=
  if w.sent o.task then
    let waited := lastDelivered meanwhile (o.begunRow w)
    (w.settled o.task answer).elim waited fun p => merge waited p
  else lastDelivered meanwhile o.task

theorem afterWrite_of_row (o : Opened) (w : PanelWrite) (meanwhile : List (Delivery o.task.id))
    (answer : Option (w.Answer o.task.id)) :
    rowOf o.task.id (o.afterWrite w meanwhile answer) = some (o.settledRow w meanwhile answer) ∧
      (o.afterWrite w meanwhile answer).filter (fun t => t.id ≠ o.task.id) =
        o.tasks.filter fun t => t.id ≠ o.task.id := by
  unfold afterWrite settledRow
  by_cases hsent : w.sent o.task
  · rw [if_pos hsent, if_pos hsent]
    obtain ⟨hbegun, hrest⟩ := patch_of_row (fun q hq => (optimistic_own hq).1) o.shown
    obtain ⟨hwaited, hrest'⟩ := deliver_of_row meanwhile hbegun
    have hid : ∀ q, w.settled o.task answer = some q → q.id = o.task.id := fun _ hq => settled_id hq
    obtain ⟨hrow, hrest''⟩ := patch_of_row hid hwaited
    exact ⟨hrow, hrest''.trans (hrest'.trans hrest)⟩
  · rw [if_neg hsent, if_neg hsent]
    exact deliver_of_row meanwhile o.shown

/-- A field the write is not about waits as it was delivered. -/
theorem waited_agrees (hf : w.own f = false) :
    valueOf (lastDelivered meanwhile (o.begunRow w)) f = valueOf (lastDelivered meanwhile o.task) f := by
  refine lastDelivered_agrees ?_
  unfold begunRow
  cases hp : w.optimistic o.task with
  | none => rfl
  | some p => simp [valueOf_merge, (optimistic_own hp).2 f hf]

theorem valueOf_merge_whole (t u : TaskDto) : valueOf (merge t (.whole u)) f = valueOf u f := by
  simp [valueOf_merge, TaskPatch.only]

/-- A field of the write is as it read it once it has failed, and the others are as delivered. -/
theorem failed_agrees (h : w.failed o.task = some (.only w.own o.task)) :
    valueOf (o.settledRow w meanwhile none) f =
      if w.sent o.task ∧ w.own f then valueOf o.task f
      else valueOf (lastDelivered meanwhile o.task) f := by
  by_cases hsent : w.sent o.task
  · simp only [settledRow, hsent, if_true, true_and, PanelWrite.settled, h, Option.elim_some,
      valueOf_merge, TaskPatch.only]
    cases hf : w.own f with
    | true => rfl
    | false => exact waited_agrees hf
  · simp [settledRow, hsent]

theorem valueOf_labels (t : TaskDto) (labels : List LabelDto) (hf : f ≠ .labels) :
    valueOf { t with labels } f = valueOf t f := by
  cases f <;> first | rfl | exact absurd rfl hf

/-- Where a field is put back as the write read it, it is as delivered if it was delivered so; elsewhere
it is as delivered. -/
theorem settled_agrees_iff (hf : w.mayDiffer answer.isNone f = false) :
    valueOf (o.settledRow w meanwhile answer) f = valueOf (o.latest w meanwhile answer) f ↔
      (w.sent o.task = true → w.putsBack answer.isNone f = true →
        valueOf (lastDelivered meanwhile o.task) f = valueOf o.task f) := by
  by_cases hsent : w.sent o.task
  · cases answer with
    | some a =>
      cases w with
      | deleteBoardLabel labelId =>
        have hl : f ≠ .labels := by simpa [PanelWrite.mayDiffer, PanelWrite.own] using hf
        simp [settledRow, latest, hsent, PanelWrite.settled, PanelWrite.answered, PanelWrite.delivered,
          PanelWrite.putsBack, PanelWrite.own, valueOf_merge_whole, valueOf_labels _ _ hl, hl, eq_comm]
      | _ => simp [settledRow, latest, hsent, PanelWrite.settled, PanelWrite.answered,
          PanelWrite.delivered, PanelWrite.putsBack, valueOf_merge_whole]
    | none =>
      cases w with
      | toggleItem itemId isDone =>
        rw [failed_agrees rfl]
        by_cases hown : (PanelWrite.toggleItem itemId isDone).own f
        · simp [latest, hsent, hown, PanelWrite.putsBack, eq_comm]
        · simp [latest, hsent, hown, PanelWrite.putsBack]
      | deleteBoardLabel labelId =>
        simp [settledRow, latest, hsent, PanelWrite.settled, PanelWrite.failed, PanelWrite.putsBack,
          begunRow, PanelWrite.optimistic]
      | patchTask body =>
        have hown : (PanelWrite.patchTask body).own f = false := hf
        rw [failed_agrees rfl]
        simp [latest, hsent, hown, PanelWrite.putsBack]
      | save title description =>
        have hown : (PanelWrite.save title description).own f = false := hf
        rw [failed_agrees rfl]
        simp [latest, hsent, hown, PanelWrite.putsBack]
  · simp [settledRow, latest, hsent]

theorem putsBack_false {failed : Bool} (h : w.putsBack failed f = true) :
    w.mayDiffer failed f = false := by
  cases w <;> cases failed <;> simp_all [PanelWrite.putsBack, PanelWrite.mayDiffer]

/-- Every field but its own is as last delivered after a write, for all deliveries meanwhile, unless the
write is a deleted label or a toggle that failed: these put back what they read when they began, and need
it to have stayed. -/
theorem panel_write_iff (o : Opened) (w : PanelWrite) (meanwhile : List (Delivery o.task.id))
    (answer : Option (w.Answer o.task.id)) :
    OwnFieldsOnly o w meanwhile answer ↔ Undisturbed o w meanwhile answer := by
  obtain ⟨hrow, hrest⟩ := afterWrite_of_row o w meanwhile answer
  constructor
  · rintro ⟨⟨row, hrow', hvalue⟩, -⟩ hsent f hf
    obtain rfl := Option.some.inj (hrow.symm.trans hrow')
    have hdiffer := putsBack_false hf
    exact (settled_agrees_iff hdiffer).mp (hvalue f hdiffer) hsent hf
  · intro hun
    exact ⟨⟨_, hrow, fun f hf => (settled_agrees_iff hf).mpr fun hsent => hun hsent f⟩, hrest⟩

def draft : TaskDto :=
  { id := js "t", boardId := js "b", columnId := js "c", title := js "Draft", description := none,
    priority := .medium, position := 1, dueDate := none, estimatedMinutes := none,
    createdById := js "u", createdAt := [], updatedAt := [], assignees := [],
    labels := [⟨js "l", js "b", js "bug", .slot1⟩], checklistSummary := ⟨0, 0⟩, checklists := some [],
    attachmentCount := 0 }

def openedDraft : Opened := ⟨[draft], draft, by decide⟩

/-- The title is edited elsewhere while a label is deleted from the panel, and is back once it is. -/
theorem label_deletion_reverts :
    ¬ ∀ (o : Opened) (w : PanelWrite) (meanwhile : List (Delivery o.task.id))
      (answer : Option (w.Answer o.task.id)), OwnFieldsOnly o w meanwhile answer := by
  intro h
  obtain ⟨⟨row, hrow, hvalue⟩, -⟩ :=
    h openedDraft (.deleteBoardLabel (js "l")) [.updated ⟨{ draft with title := js "Final" }, rfl⟩]
      (some ())
  obtain rfl := Option.some.inj hrow.symm
  have htitle : valueOf draft .title = js "Final" := hvalue .title rfl
  exact absurd htitle (by decide)

end Opened

end TaskPanel
end Web
end Kurul
