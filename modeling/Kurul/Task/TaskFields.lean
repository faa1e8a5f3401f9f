import Kurul.Activity
import Kurul.Runtime

/-!
# Kurul.Task.TaskFields

The task columns a client writes directly: what a create stores, and how a `PATCH` splits into what
to write and what has changed.
-/

namespace Kurul

/-- A field of a `PATCH`: left out, `null`, or a value. -/
inductive Field (α : Type) where
  | absent
  | null
  | value (a : α)
  deriving DecidableEq

/-- `Omit` and `null` both read as nothing: `x ?? null`. -/
def Field.toOption {α : Type} : Field α → Option α
  | .value a => some a
  | _ => none

structure CreateTaskDto where
  title : JsString
  columnId : Id
  description : Field JsString
  priority : Option Priority
  dueDate : Field JsString
  estimatedMinutes : Field Int
  afterTaskId : Option Id

structure UpdateTaskDto where
  title : Option JsString
  description : Field JsString
  priority : Option Priority
  dueDate : Field JsString
  estimatedMinutes : Field Int

structure MoveTaskDto where
  columnId : Id
  beforeTaskId : Option Id
  afterTaskId : Option Id

/-- The columns a create writes. -/
structure TaskAttributes where
  title : JsString
  description : Option JsString
  priority : Priority
  dueDate : Option Instant
  estimatedMinutes : Option Int

def parseDueDate (rt : Runtime) : Field JsString → Except ApiError (Field Instant)
  | .absent => .ok .absent
  | .null => .ok .null
  | .value text =>
    match rt.parseDate text with
    | some due => .ok (.value due)
    | none => .error (.badRequest (js "dueDate must be a valid ISO 8601 timestamp"))

/-- An absent priority takes the schema's default. -/
def createTaskAttributes (rt : Runtime) (dto : CreateTaskDto) : Except ApiError TaskAttributes :=
  (parseDueDate rt dto.dueDate).map fun due =>
    { title := dto.title
      description := dto.description.toOption
      priority := dto.priority.getD .medium
      dueDate := due.toOption
      estimatedMinutes := dto.estimatedMinutes.toOption }

/-- Only the keys the request sent. -/
structure TaskPatch where
  title : Option JsString
  description : Field JsString
  priority : Option Priority
  dueDate : Field Instant
  estimatedMinutes : Field Int

structure TaskUpdatePlan where
  data : TaskPatch
  changes : List (JsString × Json)

/-- The column after a patch. -/
def Field.over {α : Type} (stored : Option α) : Field α → Option α
  | .absent => stored
  | .null => none
  | .value a => some a

/-- The entry for a field that was sent and differs from what is stored. -/
def Field.change {α : Type} [DecidableEq α] (name : String) (json : α → Json) (stored : Option α)
    (sent : Field α) : List (JsString × Json) :=
  match sent with
  | .absent => []
  | .null => if stored = none then [] else [(js name, .null)]
  | .value a => if stored = some a then [] else [(js name, json a)]

/-- A `number`. -/
def Json.ofInt (n : Int) : Json := .num (.finite n)

/-- Two dates for one instant count as equal. -/
def planTaskUpdate (rt : Runtime) (existing : TaskRow) (dto : UpdateTaskDto) :
    Except ApiError TaskUpdatePlan :=
  (parseDueDate rt dto.dueDate).map fun due =>
    { data :=
        { title := dto.title
          description := dto.description
          priority := dto.priority
          dueDate := due
          estimatedMinutes := dto.estimatedMinutes }
      changes :=
        (match dto.title with
          | some title => if title = existing.title then [] else [field "title" title]
          | none => []) ++
        dto.description.change "description" .str existing.description ++
        (match dto.priority with
          | some p => if p = existing.priority then [] else [field "priority" p.text]
          | none => []) ++
        (due.change "dueDate" (fun d => .str (toISOString d)) existing.dueDate) ++
        dto.estimatedMinutes.change "estimatedMinutes" Json.ofInt existing.estimatedMinutes }

/-- What the update writes over a stored row. -/
def TaskPatch.apply (data : TaskPatch) (now : Instant) (t : TaskRow) : TaskRow :=
  { t with
    title := data.title.getD t.title
    description := data.description.over t.description
    priority := data.priority.getD t.priority
    dueDate := data.dueDate.over t.dueDate
    estimatedMinutes := data.estimatedMinutes.over t.estimatedMinutes
    updatedAt := now }

end Kurul
