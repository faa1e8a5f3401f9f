import Kurul.Activity
import Kurul.Task.TaskList

/-!
# Kurul.Task.TaskQueryWhere

The task list's filter matrix: the `where` that `buildListWhere` builds, what the database takes it
to mean, and what the parameters of the query ask for.

`TaskService.buildListWhere` is that meaning computed at once, which is what the list itself reads.
-/

namespace Kurul

/-! ## `Prisma.TaskWhereInput` -/

namespace Prisma

/-- `{ contains, mode: 'insensitive' }`. -/
structure StringFilter where
  contains : JsString

/-- `null`, or bounds. A bound is a `Date`, and that may be invalid. -/
inductive DateFilter where
  | null
  | within (gte lte : Option (Option Instant))

/-- `{ none: {} }`, or `{ some: … }` with the ids it may be of. -/
inductive RelationFilter where
  | noRow
  | someRow (ids : List Id)

/-- The fields of a task's `where` that the list uses. -/
structure TaskWhereInput where
  boardId : Option Id := none
  /-- `id: { gt }`. -/
  idGt : Option Id := none
  title : Option StringFilter := none
  description : Option StringFilter := none
  /-- `priority: { in }`. -/
  priorityIn : Option (List Priority) := none
  assignees : Option RelationFilter := none
  labels : Option RelationFilter := none
  dueDate : Option DateFilter := none
  AND : Option (List TaskWhereInput) := none
  OR : Option (List TaskWhereInput) := none

/-- A comparison with what is no date is never true. -/
def DateFilter.holds (dueDate : Option Instant) : DateFilter → Bool
  | .null => dueDate.isNone
  | .within gte lte => dueDate.any fun due =>
      (gte.all fun bound => bound.any fun d => d ≤ due) &&
        lte.all fun bound => bound.any fun d => due ≤ d

/-- Of the ids a row is related to. -/
def RelationFilter.holds (related : List Id) : RelationFilter → Bool
  | .noRow => related.isEmpty
  | .someRow ids => related.any fun id => id ∈ ids

namespace TaskWhereInput

section Holds

variable (ilike : JsString → JsString → Bool) (db : Db) (t : TaskRow)

def assigneesOf (db : Db) (t : TaskRow) : List Id :=
  ((rows TaskAssigneeRow db).filter fun a => a.taskId = t.id).map TaskAssigneeRow.userId

def labelsOf (db : Db) (t : TaskRow) : List Id :=
  ((rows TaskLabelRow db).filter fun l => l.taskId = t.id).map TaskLabelRow.labelId

mutual
/-- Every field that is there has to hold. -/
def holds : TaskWhereInput → Bool
  | ⟨boardId, idGt, title, description, priorityIn, assignees, labels, dueDate, and, or⟩ =>
    (boardId.all fun id => t.boardId = id) && (idGt.all fun id => id < t.id) &&
      (title.all fun f => ilike t.title f.contains) &&
      (description.all fun f => t.description.any fun d => ilike d f.contains) &&
      (priorityIn.all fun ps => t.priority ∈ ps) &&
      (assignees.all fun f => f.holds (assigneesOf db t)) &&
      (labels.all fun f => f.holds (labelsOf db t)) &&
      (dueDate.all fun f => f.holds t.dueDate) &&
      (match and with
        | some inputs => allHold inputs
        | none => true) &&
      match or with
      | some inputs => anyHolds inputs
      | none => true

def allHold : List TaskWhereInput → Bool
  | [] => true
  | input :: inputs => input.holds && allHold inputs

def anyHolds : List TaskWhereInput → Bool
  | [] => false
  | input :: inputs => input.holds || anyHolds inputs
end

variable {ilike db t}

theorem allHold_eq (inputs : List TaskWhereInput) :
    allHold ilike db t inputs = inputs.all (holds ilike db t) := by
  induction inputs with
  | nil => simp [allHold]
  | cons input inputs ih => simp [allHold, ih]

theorem anyHolds_eq (inputs : List TaskWhereInput) :
    anyHolds ilike db t inputs = inputs.any (holds ilike db t) := by
  induction inputs with
  | nil => simp [anyHolds]
  | cons input inputs ih => simp [anyHolds, ih]

/-- The fields one by one. -/
theorem holds_eq (input : TaskWhereInput) : holds ilike db t input =
    ((input.boardId.all fun id => t.boardId = id) && (input.idGt.all fun id => id < t.id) &&
      (input.title.all fun f => ilike t.title f.contains) &&
      (input.description.all fun f => t.description.any fun d => ilike d f.contains) &&
      (input.priorityIn.all fun ps => t.priority ∈ ps) &&
      (input.assignees.all fun f => f.holds (assigneesOf db t)) &&
      (input.labels.all fun f => f.holds (labelsOf db t)) && (input.dueDate.all fun f => f.holds t.dueDate) &&
      (input.AND.all fun inputs => inputs.all (holds ilike db t)) &&
      input.OR.all fun inputs => inputs.any (holds ilike db t)) := by
  obtain ⟨boardId, idGt, title, description, priorityIn, assignees, labels, dueDate, and, or⟩ := input
  cases and <;> cases or <;> simp [holds, allHold_eq, anyHolds_eq]

@[simp] theorem holds_OR (inputs : List TaskWhereInput) :
    holds ilike db t { OR := some inputs } = inputs.any (holds ilike db t) := by
  simp [holds_eq]

@[simp] theorem holds_idGt (id : Id) : holds ilike db t { idGt := some id } = decide (id < t.id) := by
  simp [holds_eq]

@[simp] theorem holds_title (q : JsString) :
    holds ilike db t { title := some ⟨q⟩ } = ilike t.title q := by
  simp [holds_eq]

@[simp] theorem holds_description (q : JsString) :
    holds ilike db t { description := some ⟨q⟩ } = t.description.any fun d => ilike d q := by
  simp [holds_eq]

@[simp] theorem holds_priorityIn (ps : List Priority) :
    holds ilike db t { priorityIn := some ps } = decide (t.priority ∈ ps) := by
  simp [holds_eq]

@[simp] theorem holds_dueDate (f : DateFilter) :
    holds ilike db t { dueDate := some f } = f.holds t.dueDate := by
  simp [holds_eq]

@[simp] theorem holds_noAssignee : holds ilike db t { assignees := some .noRow } =
    (rows TaskAssigneeRow db).all fun a => decide (a.taskId ≠ t.id) := by
  rw [Bool.eq_iff_iff]
  simp [holds_eq, RelationFilter.holds, assigneesOf, List.isEmpty_iff]

@[simp] theorem holds_someAssignee (ids : List Id) :
    holds ilike db t { assignees := some (.someRow ids) } =
      (rows TaskAssigneeRow db).any fun a => a.taskId = t.id && a.userId ∈ ids := by
  rw [Bool.eq_iff_iff]
  simp [holds_eq, RelationFilter.holds, assigneesOf]

@[simp] theorem holds_someLabel (ids : List Id) :
    holds ilike db t { labels := some (.someRow ids) } =
      (rows TaskLabelRow db).any fun l => l.taskId = t.id && l.labelId ∈ ids := by
  rw [Bool.eq_iff_iff]
  simp [holds_eq, RelationFilter.holds, labelsOf]

/-- A board, and what else is asked for if there is anything. -/
theorem holds_board (boardId : Id) (and : List TaskWhereInput) :
    holds ilike db t { boardId := some boardId, AND := if and.isEmpty then none else some and } =
      (decide (t.boardId = boardId) && and.all (holds ilike db t)) := by
  cases and with
  | nil => simp [holds_eq]
  | cons input inputs => simp [holds_eq]

end Holds
end TaskWhereInput
end Prisma

/-! ## The query -/

namespace TaskQuery

open Prisma (TaskWhereInput RelationFilter DateFilter)

/-- The entry for the assignees asked for: two arms, of which one may be missing. -/
def assigneeEntry (assigneeId : List JsString) : TaskWhereInput :=
  let wantsUnassigned := js "null" ∈ assigneeId
  let userIds := assigneeId.filter fun id => id ≠ js "null"
  let assigneeOr : List TaskWhereInput :=
    (if wantsUnassigned then [{ assignees := some .noRow }] else []) ++
      if userIds.isEmpty then [] else [{ assignees := some (.someRow userIds) }]
  match assigneeOr with
  | [one] => one
  | assigneeOr => { OR := some assigneeOr }

/-- `buildListWhere`: each filter is one more entry of `AND`. -/
def buildListWhere (rt : Runtime) (boardId : Id) (query : TaskQueryDto) : TaskWhereInput :=
  let dueGte := query.dueGte.filter truthy
  let dueLte := query.dueLte.filter truthy
  let and : List TaskWhereInput :=
    ((query.cursor.filter truthy).toList.map fun id => { idGt := some id }) ++
    ((query.q.filter truthy).toList.map fun q =>
      { OR := some [{ title := some ⟨q⟩ }, { description := some ⟨q⟩ }] }) ++
    ((TaskService.sent query.priority).toList.map fun ps => { priorityIn := some ps }) ++
    ((TaskService.sent query.assigneeId).toList.map assigneeEntry) ++
    ((TaskService.sent query.labelId).toList.map fun ids => { labels := some (.someRow ids) }) ++
    (if query.dueDate = some (js "null") then [{ dueDate := some .null }] else []) ++
    if dueGte.isSome || dueLte.isSome then
      [{ dueDate := some (.within (dueGte.map rt.parseDate) (dueLte.map rt.parseDate)) }]
    else []
  { boardId := some boardId, AND := if and.isEmpty then none else some and }

section Meaning

variable {ilike : JsString → JsString → Bool} {rt : Runtime} {boardId : Id} {query : TaskQueryDto}
  {db : Db} {t : TaskRow}

theorem holds_assigneeEntry {assigneeId : List JsString} (hne : assigneeId ≠ []) :
    (assigneeEntry assigneeId).holds ilike db t = TaskService.assigneeFilter assigneeId db t := by
  unfold assigneeEntry TaskService.assigneeFilter
  by_cases hnull : js "null" ∈ assigneeId
  · cases hids : (assigneeId.filter fun id => id ≠ js "null") with
    | nil => simp [hnull]
    | cons id ids => simp [hnull]
  · cases hids : (assigneeId.filter fun id => id ≠ js "null") with
    | nil =>
      -- a list that is not empty holds "null" or something else
      obtain ⟨id, hid⟩ := List.exists_mem_of_ne_nil assigneeId hne
      have hother : id ≠ js "null" := fun heq => hnull (heq ▸ hid)
      have hmem : id ∈ assigneeId.filter fun id => id ≠ js "null" :=
        List.mem_filter.mpr ⟨hid, by simpa using hother⟩
      rw [hids] at hmem
      cases hmem
    | cons id ids => simp [hnull]

theorem sent_ne_nil {α : Type} {values : Option (List α)} {l : List α}
    (h : TaskService.sent values = some l) : l ≠ [] := by
  simpa using (Option.filter_eq_some_iff.mp h).2

/-- Two bounds in one entry are two conditions. -/
theorem holds_within (gte lte : Option (Option Instant)) (due : Option Instant)
    (h : (gte.isSome || lte.isSome) = true) : (DateFilter.within gte lte).holds due =
      ((gte.all fun bound => due.any fun due => bound.any fun d => d ≤ due) &&
        lte.all fun bound => due.any fun due => bound.any fun d => due ≤ d) := by
  cases due with
  | some due => rfl
  | none =>
    -- nothing lies within a bound, and there is one
    cases gte with
    | some gte => simp [DateFilter.holds]
    | none =>
      cases lte with
      | some lte => simp [DateFilter.holds]
      | none => simp at h

/-- The `where` means what the list computes. -/
theorem holds_buildListWhere : (buildListWhere rt boardId query).holds ilike db t =
    TaskService.buildListWhere ilike rt boardId query db t := by
  have hassignee : ((TaskService.sent query.assigneeId).toList.map assigneeEntry).all
      (TaskWhereInput.holds ilike db t) =
      ((TaskService.sent query.assigneeId).toList.map TaskService.assigneeFilter).all
        fun c => c db t := by
    cases hsent : TaskService.sent query.assigneeId with
    | none => rfl
    | some assigneeId => simp [holds_assigneeEntry (sent_ne_nil hsent)]
  have hbounds : ∀ gte lte : Option JsString,
      (if gte.isSome || lte.isSome then
        [({ dueDate := some (.within (gte.map rt.parseDate) (lte.map rt.parseDate)) } : TaskWhereInput)]
      else []).all (TaskWhereInput.holds ilike db t) =
      ((gte.toList.map fun gte (_ : Db) (t : TaskRow) =>
          t.dueDate.any fun due => (rt.parseDate gte).any fun d => d ≤ due) ++
        (lte.toList.map fun lte (_ : Db) (t : TaskRow) =>
          t.dueDate.any fun due => (rt.parseDate lte).any fun d => due ≤ d)).all fun c => c db t := by
    intro gte lte
    split
    · rename_i hsome
      rw [List.all_cons, List.all_nil, Bool.and_true, TaskWhereInput.holds_dueDate,
        holds_within _ _ _ (by simpa using hsome)]
      cases gte <;> cases lte <;> simp
    · rename_i hnone
      cases gte <;> cases lte <;> simp at hnone ⊢
  have hnull : (if query.dueDate = some (js "null") then [({ dueDate := some .null } : TaskWhereInput)]
      else []).all (TaskWhereInput.holds ilike db t) =
      (if query.dueDate = some (js "null") then [fun (_ : Db) (t : TaskRow) => t.dueDate.isNone]
        else []).all fun c => c db t := by
    split
    · simp [DateFilter.holds]
    · rfl
  unfold buildListWhere TaskService.buildListWhere TaskService.listFilters
  rw [TaskWhereInput.holds_board]
  simp only [List.all_append, hassignee, hbounds, hnull]
  simp only [List.all_map, Function.comp_def, TaskWhereInput.holds_idGt, TaskWhereInput.holds_OR,
    TaskWhereInput.holds_title, TaskWhereInput.holds_description, TaskWhereInput.holds_priorityIn,
    TaskWhereInput.holds_someLabel, List.any_cons, List.any_nil, Bool.or_false, Bool.and_assoc]

end Meaning

/-! ## What is admitted -/

/-- A hexadecimal digit, in either case. -/
def isHexDigit (c : CodeUnit) : Bool :=
  (48 ≤ c.val && c.val ≤ 57) || (65 ≤ c.val && c.val ≤ 70) || (97 ≤ c.val && c.val ≤ 102)

/-- `UUID_V7_REGEX`: groups of 8, 4, 4, 4 and 12 digits, of which two are pinned. -/
def isUuidV7 (value : JsString) : Bool :=
  let groups := value.splitOn (Fin.ofNat 65536 45)
  groups.map List.length = [8, 4, 4, 4, 12] && groups.all (fun g => g.all isHexDigit) &&
    (groups[2]?.bind List.head?) = some (Fin.ofNat 65536 55) &&
    (groups[3]?.bind List.head?).any fun c => c ∈ js "89abAB"

example : isUuidV7 (js "01890a5d-ac96-774b-BCCE-b302099a8057") = true := by decide +kernel

/-- `toStringList`: a parameter may be repeated, and each time hold a list. -/
def toStringList (parts : List JsString) : Option (List JsString) :=
  let out := (parts.flatMap fun part => (part.splitOn (Fin.ofNat 65536 44)).map trim).filter truthy
  if out.isEmpty then none else some out

theorem toStringList_ne_nil {parts out : List JsString} (h : toStringList parts = some out) : out ≠ [] := by
  simp only [toStringList] at h
  split at h
  · cases h
  · rename_i hne
    obtain rfl := Option.some.inj h
    simpa using hne

/-- What the validation of a query lets through. Which texts are ISO 8601 is up to the library that
checks it. -/
structure Validated (isISO8601 : JsString → Bool) (query : TaskQueryDto) : Prop where
  cursor : ∀ id, query.cursor = some id → isUuidV7 id = true
  q : ∀ q, query.q = some q → q.length ≤ 200
  priority : ∃ parts, toStringList parts = query.priority.map fun ps => ps.map Priority.text
  assigneeId : (∃ parts, toStringList parts = query.assigneeId) ∧
    ∀ ids, query.assigneeId = some ids → ∀ id ∈ ids, id = js "null" ∨ isUuidV7 id = true
  labelId : (∃ parts, toStringList parts = query.labelId) ∧
    ∀ ids, query.labelId = some ids → ∀ id ∈ ids, isUuidV7 id = true
  dueDate : ∀ text, query.dueDate = some text → text = js "null"
  dueGte : ∀ text, query.dueGte = some text → isISO8601 text = true
  dueLte : ∀ text, query.dueLte = some text → isISO8601 text = true

/-- A value that passes a check which the empty text fails was sent. -/
theorem filter_truthy_of {sent : Option JsString} (check : JsString → Bool) (hempty : check [] = false)
    (h : ∀ text, sent = some text → check text = true) : sent.filter truthy = sent := by
  cases sent with
  | none => rfl
  | some text =>
    have hne : text ≠ [] := by
      rintro rfl
      rw [h [] rfl] at hempty
      cases hempty
    simp [hne]

/-- A list that was sent is not empty. -/
theorem sent_of_list {α : Type} {values : Option (List α)} {f : α → JsString}
    (h : ∃ parts, toStringList parts = values.map (List.map f)) : TaskService.sent values = values := by
  obtain ⟨parts, hparts⟩ := h
  cases values with
  | none => rfl
  | some l =>
    have hne := toStringList_ne_nil hparts
    have hl : l ≠ [] := by simpa using hne
    simp [TaskService.sent, hl]

/-! ## What is asked for -/

section Selects

variable (ilike : JsString → JsString → Bool) (rt : Runtime) (boardId : Id) (query : TaskQueryDto)
  (db : Db) (t : TaskRow)

/-- What each parameter that was sent asks of a task. -/
structure Selects : Prop where
  board : t.boardId = boardId
  cursor : ∀ id, query.cursor = some id → id < t.id
  q : ∀ q, query.q = some q →
    ilike t.title q = true ∨ ∃ d, t.description = some d ∧ ilike d q = true
  priority : ∀ ps, query.priority = some ps → t.priority ∈ ps
  assignee : ∀ ids, query.assigneeId = some ids →
    (js "null" ∈ ids ∧ ∀ a ∈ rows TaskAssigneeRow db, a.taskId ≠ t.id) ∨
      ∃ a ∈ rows TaskAssigneeRow db, a.taskId = t.id ∧ a.userId ∈ ids ∧ a.userId ≠ js "null"
  label : ∀ ids, query.labelId = some ids → ∃ l ∈ rows TaskLabelRow db, l.taskId = t.id ∧ l.labelId ∈ ids
  noDate : query.dueDate = some (js "null") → t.dueDate = none
  dueGte : ∀ text, query.dueGte = some text →
    ∃ due bound, t.dueDate = some due ∧ rt.parseDate text = some bound ∧ bound ≤ due
  dueLte : ∀ text, query.dueLte = some text →
    ∃ due bound, t.dueDate = some due ∧ rt.parseDate text = some bound ∧ due ≤ bound

variable {ilike rt boardId query db t}

theorem all_toList_iff {α : Type} {o : Option α} {f : α → Bool} :
    o.toList.all f = true ↔ ∀ a, o = some a → f a = true := by
  cases o <;> simp

/-- An empty text is found everywhere, so that it does not matter that it is not looked for. -/
theorem q_iff (query : TaskQueryDto) (t : TaskRow) (hempty : ∀ s, ilike s [] = true) : ((query.q.filter truthy).toList.all fun q =>
    ilike t.title q || t.description.any fun d => ilike d q) = true ↔
      ∀ q, query.q = some q → ilike t.title q = true ∨ ∃ d, t.description = some d ∧ ilike d q = true := by
  cases query.q with
  | none => simp
  | some q =>
    cases q with
    | nil => simp [hempty]
    | cons c q => cases t.description <;> simp

theorem assigneeFilter_iff {ids : List JsString} : TaskService.assigneeFilter ids db t = true ↔
    (js "null" ∈ ids ∧ ∀ a ∈ rows TaskAssigneeRow db, a.taskId ≠ t.id) ∨
      ∃ a ∈ rows TaskAssigneeRow db, a.taskId = t.id ∧ a.userId ∈ ids ∧ a.userId ≠ js "null" := by
  simp [TaskService.assigneeFilter]

theorem bound_iff {due : Option Instant} {bound : Option Instant} {rel : Instant → Instant → Prop}
    [DecidableRel rel] : (due.any fun due => bound.any fun d => rel d due) = true ↔
      ∃ x y, due = some x ∧ bound = some y ∧ rel y x := by
  cases due <;> cases bound <;> simp

/-- Tasks that nobody is assigned to and that have no due date. -/
def unassigned : TaskQueryDto where
  limit := none
  cursor := none
  q := some (js "as")
  priority := some [.medium, .high]
  assigneeId := some [js "null"]
  labelId := none
  dueDate := some (js "null")
  dueGte := none
  dueLte := none

theorem validated_unassigned : Validated (fun _ => false) unassigned where
  cursor := nofun
  q := by
    rintro q ⟨⟩
    simp [js]
  priority := ⟨[js "MEDIUM,HIGH"], by decide⟩
  assigneeId := ⟨⟨[js "null"], by decide⟩, by
    rintro ids ⟨⟩ id hid
    exact .inl (List.mem_singleton.mp hid)⟩
  labelId := ⟨⟨[], rfl⟩, nofun⟩
  dueDate := by
    rintro text ⟨⟩
    rfl
  dueGte := nofun
  dueLte := nofun

end Selects

end TaskQuery
end Kurul
