import Kurul.Board.BoardService
import Kurul.Board.ColumnService
import Kurul.Db.Kept
import Kurul.Task.TaskService

/-!
# Kurul.Audit.Entries

The audit rows a commit adds, and what they can be compared with.

* `newEntries`   — the rows of the activity log that were not there before.
* `columnOf`     — where a task stands.
* `editedFields` — the fields of a task that differ between two rows, by the names an entry lists.
* `fieldChanges_eq_iff` — two reports of one write are equal when they start from the same values.
* `names_changes` — what a plan lists is what its patch changes.
-/

namespace Kurul

open Sql

/-! ## New rows of the log -/

/-- The audit rows a commit adds. -/
def newEntries (before after : Db) : List ActivityRow :=
  (rows ActivityRow after).filter fun v => (rows ActivityRow before).all fun u => u.id ≠ v.id

/-- A member of an entry's payload. -/
def ActivityRow.member (v : ActivityRow) (name : String) : Option Json :=
  match v.payload with
  | .obj members => Json.member (js name) members
  | _ => none

/-- A member that is a text. -/
def ActivityRow.text (v : ActivityRow) (name : String) : Option JsString :=
  match v.member name with
  | some (.str s) => some s
  | _ => none

theorem member_of_payload {v : ActivityRow} {members : List (JsString × Json)}
    (hv : v.payload = .obj members) (name : String) :
    v.member name = Json.member (js name) members := by
  rw [ActivityRow.member, hv]

theorem text_of_payload {v : ActivityRow} {members : List (JsString × Json)} {name : String}
    {value : JsString} (hv : v.payload = .obj members)
    (h : Json.member (js name) members = some (.str value)) : v.text name = some value := by
  rw [ActivityRow.text, member_of_payload hv, h]

theorem newEntries_self (db : Db) : newEntries db db = [] := by
  rw [newEntries, List.filter_eq_nil_iff]
  intro v hv hall
  have hne := List.all_eq_true.mp hall v hv
  simp at hne

/-- A row written under a new id stands last. -/
theorem rows_put_new {R : Type} [Model R] {db : Db} {r : R}
    (h : db.get? (Model.row r).key = none) : rows R (db.put (Model.row r)) = rows R db ++ [r] := by
  have hput : (db.put (Model.row r)).rows = db.rows ++ [Model.row r] := by
    unfold Store.put
    rw [dif_neg]
    intro hmem
    obtain ⟨u, hu, hkey⟩ := List.mem_map.mp hmem
    exact Store.get?_eq_none_iff.mp h u hu hkey
  have hr : Model.ofRow (R := R) (Model.row r) = some r := Model.ofRow_eq.mpr rfl
  rw [rows, hput, List.filterMap_append, List.filterMap_cons_some hr]
  rfl

/-- A transaction that has written one row of the log, last, adds that row. -/
theorem newEntries_add {own : Local kurul} {v : ActivityRow} {locks : List (Lock Key)} {db db' : Db}
    (hown : ∀ w ∈ own.delta, w.key.table ≠ .activity)
    (hnew : insertRefusal (.activity v) (own.view db) = none)
    (hheld : (own.add (⟨v, [.put (.activity v)], locks⟩ : Effect kurul ActivityRow)).Held db db') :
    newEntries db' ((own.add (⟨v, [.put (.activity v)], locks⟩ : Effect kurul ActivityRow)).view db') =
      [v] := by
  have hrows : rows ActivityRow (own.view db') = rows ActivityRow db' := rows_applyAll_of_ne hown
  have hnot : ¬ own.Wrote ⟨.activity, v.id⟩ := by
    intro hw
    obtain ⟨w, hw, hkey⟩ := List.mem_map.mp hw
    exact hown w hw (by rw [hkey])
  have hfree : db'.get? ⟨.activity, v.id⟩ = none := by
    have hwrote : (own.add (⟨v, [.put (.activity v)], locks⟩ : Effect kurul ActivityRow)).Wrote
        ⟨.activity, v.id⟩ := Local.wrote_add.mpr (.inr (by simp [Row.key]))
    rw [hheld.wrote hwrote, ← Local.get?_view_of_not_wrote hnot db]
    exact get?_of_insertRefusal hnew
  have hview : rows ActivityRow ((own.add (⟨v, [.put (.activity v)], locks⟩ :
      Effect kurul ActivityRow)).view db') = rows ActivityRow db' ++ [v] := by
    rw [Local.view_add, ← hrows]
    refine rows_put_new (R := ActivityRow) ?_
    show (own.view db').get? ⟨.activity, v.id⟩ = none
    rw [Local.get?_view_of_not_wrote hnot, hfree]
  rw [newEntries, hview, List.filter_append]
  have hold : (rows ActivityRow db').filter (fun v => (rows ActivityRow db').all fun u => u.id ≠ v.id) =
      [] := newEntries_self db'
  have hlast : (rows ActivityRow db').all (fun u => u.id ≠ v.id) = true := by
    refine List.all_eq_true.mpr fun u hu => decide_eq_true fun hid => ?_
    have hget := get?_row hu
    rw [show Model.id u = v.id from hid] at hget
    rw [show (⟨Model.table ActivityRow, v.id⟩ : Key) = ⟨.activity, v.id⟩ from rfl, hfree] at hget
    cases hget
  rw [hold, List.filter_cons, if_pos hlast]
  rfl

/-- An entry of a task's move: the columns it names. -/
def ActivityRow.moved (taskId : Id) (v : ActivityRow) : Option (Option Id × Option Id) :=
  if v.type = .taskMoved ∧ v.taskId = some taskId then
    some (v.text "fromColumnId", v.text "toColumnId")
  else none

/-- The moves of a task a commit has recorded. -/
def moves (taskId : Id) (before after : Db) : List (Option Id × Option Id) :=
  (newEntries before after).filterMap (ActivityRow.moved taskId)

/-! ## Where a task stands -/

def columnOf (taskId : Id) (db : Db) : Option Id := (byId TaskRow db taskId).map TaskRow.columnId

theorem columnOf_of_mem {db : Db} {t : TaskRow} (h : t ∈ rows TaskRow db) :
    columnOf t.id db = some t.columnId := by
  have hfound : byId TaskRow db t.id = some t := byId_eq_some.mpr ⟨h, rfl⟩
  rw [columnOf, hfound, Option.map_some]

theorem byId_congr {R : Type} [Model R] {db db' : Db} {i : Id}
    (h : db'.get? ⟨Model.table R, i⟩ = db.get? ⟨Model.table R, i⟩) : byId R db' i = byId R db i := by
  have hsome : ∀ {db : Db} {r : R}, byId R db i = some r ↔
      db.get? ⟨Model.table R, i⟩ = some (Model.row r) := by
    intro db r
    rw [byId_eq_some, get?_eq_some]
    constructor
    · intro hr
      exact ⟨r, rfl, hr⟩
    · intro hr
      obtain ⟨r', heq, hr'⟩ := hr
      rwa [row_injective heq]
  cases hr : byId R db i with
  | some r => rw [hsome, h, ← hsome, hr]
  | none =>
    cases hr' : byId R db' i with
    | none => rfl
    | some r =>
      rw [hsome, h, ← hsome, hr] at hr'
      cases hr'

theorem columnOf_congr {db db' : Db} (h : rows TaskRow db' = rows TaskRow db) (taskId : Id) :
    columnOf taskId db' = columnOf taskId db := by
  rw [columnOf, columnOf, byId, byId, h]

/-- Writes to tasks that leave every other task in its column, and put this one into a column. -/
def PutsInto (taskId columnId : Id) (db : Db) (w : Write Key Row) : Prop :=
  w.key.table = .task → ∃ t : TaskRow, w = .put (.task t) ∧
    (t.id = taskId ∧ t.columnId = columnId ∨ t.id ≠ taskId ∧ columnOf t.id db = some t.columnId)

section PutsInto

variable {taskId columnId : Id} {db : Db} {ws : List (Write Key Row)}

theorem PutsInto.congr {db' : Db} {w : Write Key Row} (h : PutsInto taskId columnId db w)
    (hget : w.key.table = .task → w.key.id ≠ taskId → db'.get? w.key = db.get? w.key) :
    PutsInto taskId columnId db' w := by
  intro htable
  obtain ⟨t, rfl, hof⟩ := h htable
  refine ⟨t, rfl, hof.imp id fun hother => ⟨hother.1, ?_⟩⟩
  rw [← hother.2, columnOf, columnOf, byId_congr (R := TaskRow) (hget rfl hother.1)]

theorem columnOf_put (t : TaskRow) (other : Id) :
    columnOf other (db.put (.task t)) = if other = t.id then some t.columnId else columnOf other db := by
  by_cases h : other = t.id
  · subst h
    rw [if_pos rfl]
    exact columnOf_of_mem ((mem_rows_put (r := t)).mpr (.inl rfl))
  · have hkeep : byId TaskRow (db.put (.task t)) other = byId TaskRow db other := by
      refine byId_congr (R := TaskRow) ?_
      rw [Store.get?_put, if_neg fun hkey => h (congrArg Key.id hkey)]
    rw [if_neg h, columnOf, columnOf, hkeep]

/-- Where such writes leave a task. -/
theorem columnOf_applyAll {db₀ : Db} {other : Id} (hws : ∀ w ∈ ws, PutsInto taskId columnId db₀ w)
    (hdb : other ≠ taskId → columnOf other db = columnOf other db₀) :
    columnOf other (db.applyAll ws) =
      if other = taskId ∧ (⟨.task, taskId⟩ : Key) ∈ ws.map Write.key then some columnId
      else columnOf other db := by
  induction ws generalizing db with
  | nil => simp
  | cons w ws ih =>
    have hrest : ∀ w' ∈ ws, PutsInto taskId columnId db₀ w' :=
      fun w' hw' => hws w' (List.mem_cons_of_mem w hw')
    rw [Store.applyAll_cons]
    by_cases htable : w.key.table = .task
    · obtain ⟨t, rfl, hof⟩ := hws w List.mem_cons_self htable
      have hput : columnOf other (db.apply (.put (.task t))) =
          if other = t.id then some t.columnId else columnOf other db := columnOf_put t other
      rcases hof with ⟨hid, hcolumn⟩ | ⟨hid, hcolumn⟩
      · rw [ih hrest fun h => by rw [hput, if_neg (hid ▸ h), hdb h], hput, hid, hcolumn]
        by_cases hother : other = taskId <;> simp [hother, Row.key, hid]
      · have hsame : columnOf other (db.apply (.put (.task t))) = columnOf other db := by
          rw [hput]
          split
          · rename_i h
            subst h
            rw [hdb hid, hcolumn]
          · rfl
        rw [ih hrest fun h => hsame.trans (hdb h), hsame]
        have hne : (⟨.task, taskId⟩ : Key) ≠ ⟨.task, t.id⟩ := fun h => hid (congrArg Key.id h).symm
        simp [Row.key, hne]
    · have hsame : columnOf other (db.apply w) = columnOf other db :=
        columnOf_congr (rows_apply_of_ne htable) other
      have hne : (⟨.task, taskId⟩ : Key) ≠ w.key := fun h => htable (by rw [← h])
      rw [ih hrest fun h => hsame.trans (hdb h), hsame]
      simp [hne]

end PutsInto

/-! ## What has changed in a row -/

/-- The fields of a task an entry can list, by their names, each with whether two rows agree there. -/
def taskFields : List (String × (TaskRow → TaskRow → Bool)) :=
  [("title", fun a b => a.title = b.title),
    ("description", fun a b => a.description = b.description),
    ("priority", fun a b => a.priority = b.priority),
    ("dueDate", fun a b => a.dueDate = b.dueDate),
    ("estimatedMinutes", fun a b => a.estimatedMinutes = b.estimatedMinutes)]

def editedFields (before after : TaskRow) : List JsString :=
  taskFields.flatMap fun f => if f.2 before after then [] else [js f.1]

/-- The fields a patch changes of a row. When it is written is none of them. -/
def TaskPatch.edits (data : TaskPatch) (t : TaskRow) : List JsString :=
  editedFields t (data.apply t.updatedAt t)

theorem editedFields_apply (data : TaskPatch) (now : Instant) (t : TaskRow) :
    editedFields t (data.apply now t) = data.edits t := rfl

theorem Field.names_change {α : Type} [DecidableEq α] (name : String) (json : α → Json)
    (stored : Option α) (sent : Field α) :
    (sent.change name json stored).map Prod.fst =
      if decide (stored = sent.over stored) = true then [] else [js name] := by
  cases sent with
  | absent => simp [Field.change, Field.over]
  | null => by_cases h : stored = none <;> simp [Field.change, Field.over, h]
  | value a => by_cases h : stored = some a <;> simp [Field.change, Field.over, h]

/-- A plan lists what its patch changes of the row it was made for. -/
theorem names_changes {rt : Runtime} {t : TaskRow} {dto : UpdateTaskDto} {plan : TaskUpdatePlan}
    (h : planTaskUpdate rt t dto = .ok plan) : plan.changes.map Prod.fst = plan.data.edits t := by
  have hsent : ∀ {α : Type} [DecidableEq α] (name : String) (text : JsString) (v stored : α),
      (if v = stored then [] else [field name text]).map Prod.fst =
        if stored = v then [] else [js name] := by
    intro α _ name text v stored
    by_cases h : v = stored
    · simp [h]
    · simp [h, Ne.symm h, field]
  simp only [planTaskUpdate] at h
  cases hdue : parseDueDate rt dto.dueDate with
  | error e =>
    rw [hdue] at h
    cases h
  | ok due =>
    rw [hdue] at h
    cases h
    simp only [List.map_append, Field.names_change, TaskPatch.edits, editedFields, taskFields,
      TaskPatch.apply]
    cases dto.title <;> cases dto.priority <;> simp [hsent]

theorem ofOption_injective : Function.Injective Json.ofOption := by
  intro a b h
  cases a <;> cases b <;> simp [Json.ofOption] at h ⊢
  exact h

/-- Two reports of what was put into a row agree when they start from the same values. -/
theorem fieldChanges_eq_iff {R : Type} {before before' after : R} {fields : List (AuditField R)}
    (hnd : (fields.map fun f => js f.1).Nodup) :
    fieldChanges before after fields = fieldChanges before' after fields ↔
      ∀ f ∈ fields, f.2 before = f.2 before' := by
  have hname : ∀ (fs : List (AuditField R)) (r : R) (name : JsString) (change : Json) (rest),
      fieldChanges r after fs = (name, change) :: rest → name ∈ fs.map fun f => js f.1 := by
    intro fs r name change rest h
    obtain ⟨f, hf, hc⟩ := List.mem_flatMap.mp (h ▸ List.mem_cons_self : _ ∈ fieldChanges r after fs)
    split at hc
    · cases hc
    · cases List.mem_singleton.mp hc
      exact List.mem_map_of_mem hf
  constructor
  · intro h
    induction fields with
    | nil => intro f hf; cases hf
    | cons f fs ih =>
      rw [List.map_cons, List.nodup_cons] at hnd
      simp only [fieldChanges, List.flatMap_cons] at h
      have hfirst : f.2 before = f.2 before' ∧
          fieldChanges before after fs = fieldChanges before' after fs := by
        split at h
        · rename_i h₁
          split at h
          · rename_i h₂
            exact ⟨h₁.trans h₂.symm, h⟩
          · -- only the second report lists the field, which has no other name
            exact absurd (hname fs before _ _ _ h) hnd.1
        · split at h
          · exact absurd (hname fs before' _ _ _ h.symm) hnd.1
          · simp only [List.cons_append, List.nil_append, List.cons.injEq, Prod.mk.injEq, true_and,
              Json.obj.injEq, and_true] at h
            exact ⟨ofOption_injective h.1, h.2⟩
      intro f' hf'
      rcases List.mem_cons.mp hf' with rfl | hf'
      · exact hfirst.1
      · exact ih hnd.2 hfirst.2 f' hf'
  · intro h
    refine List.flatMap_congr fun f hf => ?_
    rw [h f hf]

end Kurul
