import Kurul.IsoDate
import Kurul.Task.TaskFields

/-!
# Kurul.Task.TaskUpdatePlan

`planTaskUpdate` with the two due dates compared the way the source compares them, by their texts, and
what a plan says about the row it is made for.
-/

namespace Kurul
namespace TaskFields

/-- Every text that is read as a date is read as a valid one. -/
def ReadsDates (rt : Runtime) : Prop := ∀ text due, rt.parseDate text = some due → IsDate due

/-- The entry for the due date: `previous` and `next` are the texts of the two dates. -/
def dueDateChange (stored : Option Instant) : Field Instant → List (JsString × Json)
  | .absent => []
  | sent =>
    let previous := stored.map toISOString
    let next := sent.toOption.map toISOString
    if previous ≠ next then [(js "dueDate", .ofOption next)] else []

/-- `planTaskUpdate`. -/
def planTaskUpdate (rt : Runtime) (existing : TaskRow) (dto : UpdateTaskDto) :
    Except ApiError TaskUpdatePlan :=
  (parseDueDate rt dto.dueDate).map fun due =>
    { data :=
        { title := dto.title
          description := dto.description
          priority := dto.priority
          dueDate := due
          estimatedMinutes := dto.estimatedMinutes }
      changes :=
        (match dto.title with
          | some title => if title = existing.title then [] else [field "title" title]
          | none => []) ++
        dto.description.change "description" .str existing.description ++
        (match dto.priority with
          | some p => if p = existing.priority then [] else [field "priority" p.text]
          | none => []) ++
        dueDateChange existing.dueDate due ++
        dto.estimatedMinutes.change "estimatedMinutes" Json.ofInt existing.estimatedMinutes }

/-! ## Dates compared by their texts -/

section Dates

variable {rt : Runtime} {existing : TaskRow} {dto : UpdateTaskDto} {stored : Option Instant}
  {sent : Field Instant}

/-- Two texts are the same exactly if the dates are. -/
theorem dueDateChange_eq (hstored : ∀ d ∈ stored, IsDate d) (hsent : ∀ d ∈ sent.toOption, IsDate d) :
    dueDateChange stored sent = sent.change "dueDate" (fun d => .str (toISOString d)) stored := by
  cases sent with
  | absent => rfl
  | null => cases stored <;> rfl
  | value d =>
    cases stored with
    | none => rfl
    | some d' =>
      have hsame : toISOString d' = toISOString d ↔ d' = d :=
        ⟨toISOString_inj (hstored d' rfl) (hsent d rfl), congrArg toISOString⟩
      simp [dueDateChange, Field.change, Field.toOption, hsame, Json.ofOption]

theorem isDate_of_parseDueDate (hrt : ReadsDates rt) {field : Field JsString}
    (h : parseDueDate rt field = .ok sent) : ∀ d ∈ sent.toOption, IsDate d := by
  intro d hd
  cases field with
  | absent =>
    cases h
    cases hd
  | null =>
    cases h
    cases hd
  | value text =>
    unfold parseDueDate at h
    dsimp only at h
    split at h
    · rename_i due hdue
      cases h
      cases hd
      exact hrt text d hdue
    · cases h

/-- The plan is the one that compares the dates themselves. -/
theorem planTaskUpdate_eq (hrt : ReadsDates rt) (hstored : ∀ d ∈ existing.dueDate, IsDate d) :
    planTaskUpdate rt existing dto = Kurul.planTaskUpdate rt existing dto := by
  unfold planTaskUpdate Kurul.planTaskUpdate
  cases hdue : parseDueDate rt dto.dueDate with
  | error e => rfl
  | ok due =>
    simp only [Except.map, dueDateChange_eq hstored (isDate_of_parseDueDate hrt hdue)]
    all_goals rfl

end Dates

/-! ## What a plan says -/

/-- The entry of a column that is not what it was. -/
def differs {α : Type} [DecidableEq α] (name : String) (json : α → Json) (before after : α) :
    List (JsString × Json) :=
  if after = before then [] else [(js name, json after)]

/-- A column that may be `null`. -/
def nullable {α : Type} (json : α → Json) (value : Option α) : Json := (value.map json).getD .null

/-- The columns a client writes that are not what they were, with their new values. -/
def edited (before after : TaskRow) : List (JsString × Json) :=
  differs "title" .str before.title after.title ++
  differs "description" (nullable .str) before.description after.description ++
  differs "priority" (fun p => .str p.text) before.priority after.priority ++
  differs "dueDate" (nullable fun d => .str (toISOString d)) before.dueDate after.dueDate ++
  differs "estimatedMinutes" (nullable Json.ofInt) before.estimatedMinutes after.estimatedMinutes

/-- No field is in both requests. -/
structure Disjoint (dto dto' : UpdateTaskDto) : Prop where
  title : dto.title = none ∨ dto'.title = none
  description : dto.description = .absent ∨ dto'.description = .absent
  priority : dto.priority = none ∨ dto'.priority = none
  dueDate : dto.dueDate = .absent ∨ dto'.dueDate = .absent
  estimatedMinutes : dto.estimatedMinutes = .absent ∨ dto'.estimatedMinutes = .absent

/-- The row after a request, the data of its plan written over it. -/
def updated (rt : Runtime) (now : Instant) (dto : UpdateTaskDto) (t : TaskRow) :
    Except ApiError TaskRow :=
  (planTaskUpdate rt t dto).map fun plan => plan.data.apply now t

section Plan

variable {rt : Runtime} {existing : TaskRow} {dto dto' : UpdateTaskDto} {plan : TaskUpdatePlan}
  {now now' : Instant} {t : TaskRow}

@[simp] theorem differs_eq_nil_iff {α : Type} [DecidableEq α] {name : String} {json : α → Json}
    {before after : α} : differs name json before after = [] ↔ after = before := by
  unfold differs
  split <;> simp [*]

theorem differs_self {α : Type} [DecidableEq α] (name : String) (json : α → Json) (a : α) :
    differs name json a a = [] := differs_eq_nil_iff.mpr rfl

/-- What a field that was sent changes is how the column differs once it is written. -/
theorem change_eq_differs {α : Type} [DecidableEq α] (name : String) (json : α → Json)
    (stored : Option α) (sent : Field α) :
    sent.change name json stored = differs name (nullable json) stored (sent.over stored) := by
  cases sent with
  | absent => exact (differs_self name (nullable json) stored).symm
  | null => simp [Field.change, Field.over, differs, nullable, eq_comm]
  | value a => simp [Field.change, Field.over, differs, nullable, eq_comm]

/-- The data is what was sent, whatever the row. -/
theorem planTaskUpdate_data (h : planTaskUpdate rt existing dto = .ok plan) :
    ∃ due, parseDueDate rt dto.dueDate = .ok due ∧
      plan.data = ⟨dto.title, dto.description, dto.priority, due, dto.estimatedMinutes⟩ := by
  unfold planTaskUpdate at h
  cases hdue : parseDueDate rt dto.dueDate with
  | error e =>
    rw [hdue] at h
    cases h
  | ok due =>
    rw [hdue] at h
    cases h
    exact ⟨due, rfl, rfl⟩

/-- So the same request has the same data on another row. -/
theorem data_eq_of_ok {existing' : TaskRow} {plan' : TaskUpdatePlan}
    (h : planTaskUpdate rt existing dto = .ok plan) (h' : planTaskUpdate rt existing' dto = .ok plan') :
    plan.data = plan'.data := by
  obtain ⟨due, hdue, hdata⟩ := planTaskUpdate_data h
  obtain ⟨due', hdue', hdata'⟩ := planTaskUpdate_data h'
  rw [hdue] at hdue'
  cases hdue'
  rw [hdata, hdata']

theorem planTaskUpdate_ok_of_ok (existing' : TaskRow) (h : planTaskUpdate rt existing dto = .ok plan) :
    ∃ again, planTaskUpdate rt existing' dto = .ok again := by
  obtain ⟨due, hdue, _⟩ := planTaskUpdate_data h
  exact ⟨_, by rw [planTaskUpdate, hdue]; rfl⟩

/-- A row is left with a valid due date. -/
theorem isDate_apply (hrt : ReadsDates rt) (hstored : ∀ d ∈ existing.dueDate, IsDate d)
    (h : planTaskUpdate rt existing dto = .ok plan) :
    ∀ d ∈ (plan.data.apply now existing).dueDate, IsDate d := by
  obtain ⟨due, hdue, hdata⟩ := planTaskUpdate_data h
  have hsent := isDate_of_parseDueDate hrt hdue
  rw [hdata]
  cases due with
  | absent => exact hstored
  | null => exact nofun
  | value d => exact hsent

/-- The changes are the columns that differ once the data is written. -/
theorem planTaskUpdate_changes (now : Instant) (hrt : ReadsDates rt) (hstored : ∀ d ∈ existing.dueDate, IsDate d)
    (h : planTaskUpdate rt existing dto = .ok plan) :
    plan.changes = edited existing (plan.data.apply now existing) := by
  obtain ⟨due, hdue, hdata⟩ := planTaskUpdate_data h
  rw [planTaskUpdate_eq hrt hstored] at h
  unfold Kurul.planTaskUpdate at h
  rw [hdue] at h
  cases h
  have htitle : (match dto.title with
      | some title => if title = existing.title then [] else [field "title" title]
      | none => []) = differs "title" .str existing.title (dto.title.getD existing.title) := by
    cases dto.title with
    | none => exact (differs_self ..).symm
    | some title => rfl
  have hpriority : (match dto.priority with
      | some p => if p = existing.priority then [] else [field "priority" p.text]
      | none => []) = differs "priority" (fun p => .str p.text) existing.priority
        (dto.priority.getD existing.priority) := by
    cases dto.priority with
    | none => exact (differs_self ..).symm
    | some p => rfl
  unfold edited TaskPatch.apply
  dsimp only
  rw [← change_eq_differs, ← change_eq_differs, ← change_eq_differs, ← htitle, ← hpriority]
  all_goals rfl

theorem edited_eq_nil_iff {before after : TaskRow} : edited before after = [] ↔
    after.title = before.title ∧ after.description = before.description ∧
    after.priority = before.priority ∧ after.dueDate = before.dueDate ∧
    after.estimatedMinutes = before.estimatedMinutes := by
  simp only [edited, List.append_eq_nil_iff, differs_eq_nil_iff, and_assoc]

/-- Nothing differs exactly if every column is as it was. -/
theorem apply_eq_self_iff {data : TaskPatch} :
    data.apply existing.updatedAt existing = existing ↔
      edited existing (data.apply now existing) = [] := by
  have hnow : edited existing (data.apply now existing) =
      edited existing (data.apply existing.updatedAt existing) := rfl
  rw [hnow, edited_eq_nil_iff]
  constructor
  · intro h
    refine ⟨?_, ?_, ?_, ?_, ?_⟩
    · exact congrArg TaskRow.title h
    · exact congrArg TaskRow.description h
    · exact congrArg TaskRow.priority h
    · exact congrArg TaskRow.dueDate h
    · exact congrArg TaskRow.estimatedMinutes h
  · rintro ⟨htitle, hdescription, hpriority, hdueDate, hminutes⟩
    unfold TaskPatch.apply at *
    dsimp only at *
    rw [htitle, hdescription, hpriority, hdueDate, hminutes]

/-- A field that has been written is written again without a change. -/
theorem Field.over_over {α : Type} (stored : Option α) (sent : Field α) :
    sent.over (sent.over stored) = sent.over stored := by
  cases sent <;> rfl

theorem apply_apply (data : TaskPatch) :
    data.apply now' (data.apply now t) = data.apply now' t := by
  cases htitle : data.title <;> cases hpriority : data.priority <;>
    simp [TaskPatch.apply, Field.over_over, htitle, hpriority]

theorem updated_eq : updated rt now dto t = (parseDueDate rt dto.dueDate).map fun due =>
    TaskPatch.apply ⟨dto.title, dto.description, dto.priority, due, dto.estimatedMinutes⟩ now t := by
  unfold updated planTaskUpdate
  cases parseDueDate rt dto.dueDate <;> rfl

theorem parseDueDate_absent : parseDueDate rt .absent = .ok .absent := rfl

theorem Field.over_comm {α : Type} (stored : Option α) {sent sent' : Field α}
    (h : sent = .absent ∨ sent' = .absent) :
    sent'.over (sent.over stored) = sent.over (sent'.over stored) := by
  rcases h with rfl | rfl <;> rfl

theorem getD_comm {α : Type} (stored : α) {sent sent' : Option α} (h : sent = none ∨ sent' = none) :
    sent'.getD (sent.getD stored) = sent.getD (sent'.getD stored) := by
  rcases h with rfl | rfl <;> rfl

/-- Requests that share no field can be applied in either order. -/
theorem updated_comm (h : Disjoint dto dto') : (updated rt now dto t).bind (updated rt now' dto') =
    (updated rt now dto' t).bind (updated rt now' dto) := by
  have hsent : ∀ due due', due = .absent ∨ due' = .absent →
      TaskPatch.apply ⟨dto'.title, dto'.description, dto'.priority, due', dto'.estimatedMinutes⟩ now'
        (TaskPatch.apply ⟨dto.title, dto.description, dto.priority, due, dto.estimatedMinutes⟩ now t) =
      TaskPatch.apply ⟨dto.title, dto.description, dto.priority, due, dto.estimatedMinutes⟩ now'
        (TaskPatch.apply ⟨dto'.title, dto'.description, dto'.priority, due', dto'.estimatedMinutes⟩ now
          t) := by
    intro due due' hdue
    simp only [TaskPatch.apply, getD_comm _ h.title, Field.over_comm _ h.description,
      getD_comm _ h.priority, Field.over_comm _ hdue, Field.over_comm _ h.estimatedMinutes]
  rw [updated_eq, updated_eq]
  rcases h.dueDate with habsent | habsent
  · -- only the second may hold a date, and fails if it is none
    rw [habsent]
    cases hdue' : parseDueDate rt dto'.dueDate with
    | error e => simp [parseDueDate_absent, Except.map, Except.bind, updated_eq, hdue']
    | ok due' =>
      simp only [parseDueDate_absent, Except.map, Except.bind, updated_eq, hdue', habsent]
      rw [hsent .absent due' (.inl rfl)]
  · rw [habsent]
    cases hdue : parseDueDate rt dto.dueDate with
    | error e => simp [parseDueDate_absent, Except.map, Except.bind, updated_eq, hdue]
    | ok due =>
      simp only [parseDueDate_absent, Except.map, Except.bind, updated_eq, hdue, habsent]
      rw [hsent due .absent (.inr rfl)]

/-- For every row and every request: a plan fails only over a due date that cannot be read; its
changes are the columns that differ once its data is written, with their new values; there are none
exactly if every column stays as it is; planned again on the row it makes, the request changes nothing;
and requests that share no field can be applied in either order. -/
theorem planTaskUpdate_exact (hrt : ReadsDates rt) (existing : TaskRow)
    (hstored : ∀ d ∈ existing.dueDate, IsDate d) (dto : UpdateTaskDto) :
    ((∃ plan, planTaskUpdate rt existing dto = .ok plan) ↔
      ∀ text, dto.dueDate = .value text → (rt.parseDate text).isSome) ∧
    (∀ plan, planTaskUpdate rt existing dto = .ok plan →
      (∀ now, plan.changes = edited existing (plan.data.apply now existing)) ∧
      (plan.changes = [] ↔ plan.data.apply existing.updatedAt existing = existing) ∧
      ∀ now, ∃ again, planTaskUpdate rt (plan.data.apply now existing) dto = .ok again ∧
        again.changes = []) ∧
    ∀ dto', Disjoint dto dto' → ∀ now now',
      (updated rt now dto existing).bind (updated rt now' dto') =
        (updated rt now dto' existing).bind (updated rt now' dto) := by
  refine ⟨?_, fun plan hplan => ⟨fun now => ?_, ?_, fun now => ?_⟩, fun dto' h now now' => updated_comm h⟩
  · cases hdue : dto.dueDate with
    | absent => simp [planTaskUpdate, parseDueDate, hdue, Except.map]
    | null => simp [planTaskUpdate, parseDueDate, hdue, Except.map]
    | value text =>
      cases hparse : rt.parseDate text <;>
        simp [planTaskUpdate, parseDueDate, hdue, Except.map, hparse]
  · exact planTaskUpdate_changes now hrt hstored hplan
  · rw [planTaskUpdate_changes existing.updatedAt hrt hstored hplan]
    exact apply_eq_self_iff.symm
  · obtain ⟨again, hagain⟩ := planTaskUpdate_ok_of_ok (plan.data.apply now existing) hplan
    refine ⟨again, hagain, ?_⟩
    rw [planTaskUpdate_changes now hrt (isDate_apply hrt hstored hplan) hagain,
      edited_eq_nil_iff, data_eq_of_ok hagain hplan, apply_apply]
    exact ⟨rfl, rfl, rfl, rfl, rfl⟩

/-- A due date that is moved to another time zone, and a title that is another. -/
def noonInTwoZones : Runtime where
  parseDate text :=
    if text = js "2026-09-01T12:00:00Z" ∨ text = js "2026-09-01T15:00:00+03:00" then some 1788264000000
    else none
  parseUrl := fun _ => none
  toLowerCase := id

theorem planTaskUpdate_exact_zones :
    let existing : TaskRow := ⟨js "1", js "b", js "c", js "Task", none, .medium, 1024,
      some 1788264000000, none, js "u", 0, 0⟩
    let dto : UpdateTaskDto := ⟨some (js "Renamed"), .absent, none,
      .value (js "2026-09-01T15:00:00+03:00"), .absent⟩
    ∃ plan, planTaskUpdate noonInTwoZones existing dto = .ok plan ∧
      plan.changes = [field "title" (js "Renamed")] ∧ plan.data.apply 0 existing ≠ existing := by
  intro existing dto
  have hrt : ReadsDates noonInTwoZones := by
    intro text due h
    unfold noonInTwoZones at h
    dsimp only at h
    split at h
    · cases h
      exact ⟨by decide, by decide⟩
    · cases h
  have hstored : ∀ d ∈ existing.dueDate, IsDate d := by
    rintro d ⟨⟩
    exact ⟨by decide, by decide⟩
  obtain ⟨hok, hplan, _⟩ := planTaskUpdate_exact hrt existing hstored dto
  obtain ⟨plan, h⟩ := hok.mpr (by
    rintro text ⟨⟩
    decide)
  obtain ⟨hchanges, hnone, _⟩ := hplan plan h
  have htitle : plan.changes = [field "title" (js "Renamed")] := by
    cases h
    rfl
  refine ⟨plan, h, htitle, fun heq => ?_⟩
  rw [hnone.mpr heq] at htitle
  cases htitle

end Plan

end TaskFields
end Kurul
