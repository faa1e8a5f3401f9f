import Kurul.Task.TaskQueryWhere
import Kurul.Web.UrlSearchParams

/-!
# Kurul.Task.TaskQueryRead

The query of a request for a board's tasks, as the route takes it: the parameters that are known, each
transformed and checked.

What the runtime takes for a number and the validation library for an identifier, a date or too long a text
is left to them.
-/

namespace Kurul
namespace TaskQuery

/-- What the runtime and the validation library make of a text. -/
structure Checks where
  /-- `Math.trunc(Number(value))`, of a number that is finite. -/
  truncated : JsString → Option Int
  /-- `@MaxLength(max)`. -/
  maxLength : Nat → JsString → Bool
  /-- `@IsUUID('7')`. -/
  isUUID7 : JsString → Bool
  isISO8601 : JsString → Bool

def defaultPageLimit : Nat := 50

def maxPageLimit : Nat := 100

/-- Junk falls back, and what is too large is cut. -/
def clampLimit (checks : Checks) (value : JsString) : Nat :=
  match checks.truncated value with
  | some n => if n < 1 then defaultPageLimit else min n.toNat maxPageLimit
  | none => defaultPageLimit

/-- `@PageLimit()`, of the values under one name. Several are no number. -/
def pageLimit (checks : Checks) : List JsString → Nat
  | [value] => clampLimit checks value
  | _ => defaultPageLimit

/-- `@IsOptional()` with a check of texts; several values are no text. -/
def optional (check : JsString → Bool) : List JsString → Option (Option JsString)
  | [] => some none
  | [value] => if check value then some (some value) else none
  | _ => none

/-- `@IsOptional()` with a check of each entry. -/
def optionalEach {α : Type} (entry : JsString → Option α) (values : List JsString) : Option (Option (List α)) :=
  match toStringList values with
  | none => some none
  | some out => (out.mapM entry).map some

/-- `@IsEnum(Priority)`. -/
def priorityOf (value : JsString) : Option Priority :=
  [Priority.low, .medium, .high, .urgent].find? fun p => p.text = value

/-- A text that passes a check. -/
def passing (check : JsString → Bool) (value : JsString) : Option JsString := if check value then some value else none

/-- The properties of `TaskQueryDto`; with `forbidNonWhitelisted` there may be no others. -/
def whitelist : List JsString :=
  [js "limit", js "cursor", js "q", js "priority", js "assigneeId", js "labelId", js "dueDate",
    js "dueDate[gte]", js "dueDate[lte]"]

/-- What the route is handed, or nothing where the request is refused. -/
def read (checks : Checks) (query : UrlSearchParams) : Option TaskQueryDto := do
  guard (query.keys.all fun key => key ∈ whitelist)
  let cursor ← optional checks.isUUID7 (query.getAll (js "cursor"))
  let q ← optional (checks.maxLength 200) (query.getAll (js "q"))
  let priority ← optionalEach priorityOf (query.getAll (js "priority"))
  let assigneeId ← optionalEach (passing fun id => id = js "null" || isUuidV7 id)
    (query.getAll (js "assigneeId"))
  let labelId ← optionalEach (passing checks.isUUID7) (query.getAll (js "labelId"))
  let dueDate ← optional (fun text => text = js "null") (query.getAll (js "dueDate"))
  let dueGte ← optional checks.isISO8601 (query.getAll (js "dueDate[gte]"))
  let dueLte ← optional checks.isISO8601 (query.getAll (js "dueDate[lte]"))
  return ⟨some (pageLimit checks (query.getAll (js "limit"))), cursor, q, priority, assigneeId, labelId, dueDate,
    dueGte, dueLte⟩

/-- What the runtime and the library are documented to do: digits are read as a number, and the check of a
UUID of version 7 is the one spelt out in `UUID_V7_REGEX`. -/
structure Checks.Documented (checks : Checks) : Prop where
  number : checks.truncated (js "100") = some 100
  uuid : ∀ value, checks.isUUID7 value = isUuidV7 value

/-! ## One parameter -/

section Parameter

variable {check : JsString → Bool} {sent : Option JsString} {α : Type} {entry : JsString → Option α}

/-- A limit that was asked for in the allowed range is the limit. -/
theorem clampLimit_eq {checks : Checks} {value : JsString} {n : Nat} (h : checks.truncated value = some (n : Int))
    (hpos : 0 < n) (hmax : n ≤ maxPageLimit) : clampLimit checks value = n := by
  have hnot : ¬ (n : Int) < 1 := by omega
  simp only [clampLimit, h, if_neg hnot, Int.toNat_natCast]
  exact Nat.min_eq_left hmax

/-- Whatever was asked for, a page has a size in the allowed range. -/
theorem clampLimit_range (checks : Checks) (value : JsString) :
    0 < clampLimit checks value ∧ clampLimit checks value ≤ maxPageLimit := by
  unfold clampLimit
  split
  · split
    · decide
    · rename_i n _ hn
      exact ⟨lt_min (by omega) (by decide), Nat.min_le_right _ _⟩
  · decide

theorem optional_toList (sent : Option JsString) :
    optional check sent.toList = if sent.all check then some sent else none := by
  cases sent with
  | none => rfl
  | some value =>
    by_cases h : check value = true
    · simp [optional, h]
    · simp [optional, h]

theorem mapM_passing (l : List JsString) : l.mapM (passing check) = if l.all check then some l else none := by
  induction l with
  | nil => rfl
  | cons value l ih =>
    rw [List.mapM_cons, ih]
    by_cases h : check value = true
    · by_cases hl : l.all check = true
      · simp [passing, h, hl]
      · simp [passing, h, hl]
    · simp [passing, h]

theorem optionalEach_passing (values : List JsString) : optionalEach (passing check) values =
    if (toStringList values).all (fun out => out.all check) then some (toStringList values) else none := by
  unfold optionalEach
  cases toStringList values with
  | none => rfl
  | some out =>
    by_cases h : out.all check = true
    · simp [mapM_passing, h]
    · simp [mapM_passing, h]

theorem priorityOf_text (p : Priority) : priorityOf p.text = some p := by
  cases p <;> decide +kernel

theorem mapM_priorityOf (ps : List Priority) : (ps.map Priority.text).mapM priorityOf = some ps := by
  induction ps with
  | nil => rfl
  | cons p ps ih =>
    rw [List.map_cons, List.mapM_cons, priorityOf_text, ih]
    rfl

/-- Identifiers are written in digits and dashes. -/
theorem wellFormed_of_uuid {value : JsString} (h : isUuidV7 value = true) : Utf16.WellFormed value := by
  have hdigit : ∀ c : CodeUnit, isHexDigit c = true → Utf16.isHigh c = false ∧ Utf16.isLow c = false := by
    intro c hc
    rw [Utf16.isHigh_eq_false_iff, Utf16.isLow_eq_false_iff]
    simp only [isHexDigit, Bool.or_eq_true, Bool.and_eq_true, decide_eq_true_eq] at hc
    omega
  simp only [isUuidV7, Bool.and_eq_true] at h
  have hwhole : [Fin.ofNat 65536 45].intercalate (value.splitOn (Fin.ofNat 65536 45)) = value :=
    List.intercalate_splitOn _
  rw [← hwhole]
  refine Utf16.wellFormed_intercalate (by decide) (by decide) fun g hg => Utf16.wellFormed_of_forall fun c hc => ?_
  exact hdigit c (List.all_eq_true.mp (List.all_eq_true.mp h.1.1.2 g hg) c hc)

theorem ne_nil_of_uuid {value : JsString} (h : isUuidV7 value = true) : value ≠ [] := by
  rintro rfl
  revert h
  decide

end Parameter

/-! ## Lists in one text -/

section Lists

variable {sep : CodeUnit} {l : List JsString}

/-- A joined list is split into what its entries are split into. -/
theorem splitOn_joined (hne : l ≠ []) :
    ([sep].intercalate l).splitOn sep = l.flatMap fun e => e.splitOn sep := by
  induction l with
  | nil => exact absurd rfl hne
  | cons e rest ih =>
    cases rest with
    | nil => simp
    | cons e' rest =>
      rw [List.intercalate_cons_cons, List.append_assoc, List.singleton_append, List.splitOn_append_cons_self,
        ih (by simp)]
      simp only [List.flatMap_cons]

/-- It makes no difference whether entries are sent one by one or joined. -/
theorem toStringList_joined (hne : l ≠ []) :
    toStringList [[Fin.ofNat 65536 44].intercalate l] = toStringList l := by
  have hsplit : (([[Fin.ofNat 65536 44].intercalate l].flatMap fun part =>
      (part.splitOn (Fin.ofNat 65536 44)).map trim)) =
      l.flatMap fun part => (part.splitOn (Fin.ofNat 65536 44)).map trim := by
    rw [List.flatMap_singleton, splitOn_joined hne, List.map_flatMap]
  simp only [toStringList, hsplit]

end Lists
end TaskQuery
end Kurul
