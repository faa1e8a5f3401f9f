import Kurul.Audit.Entries

/-!
# Kurul.Audit.Trail

Moves and updates of tasks, columns and boards, interleaved, against the audit rows committed with
them.

* `Describes`  — the entry says what the commit has replaced and what it has stored.
* `Current`    — what the call read first is still so when it commits, as far as the entry tells.
* `Accounted`  — what a commit answers for: the two are the same, and where it has put tasks.
* `audit_trail` — along every run; the entries of one task's moves, when current, follow each other.
-/

namespace Kurul
namespace Audit

open Sql

inductive EditOp where
  | moveTask (workspaceId taskId userId : Id) (dto : MoveTaskDto)
  | updateTask (workspaceId taskId userId : Id) (dto : UpdateTaskDto)
  | updateColumn (workspaceId columnId actorId : Id) (dto : UpdateColumnDto)
  | updateBoard (workspaceId boardId actorId : Id) (dto : UpdateBoardDto)

def EditOp.call (rt : Runtime) : EditOp → Call kurul Unit
  | .moveTask workspaceId taskId userId dto => do
    let _ ← TaskService.move workspaceId taskId userId dto
  | .updateTask workspaceId taskId userId dto => do
    let _ ← TaskService.update rt workspaceId taskId userId dto
  | .updateColumn workspaceId columnId actorId dto => do
    let _ ← ColumnService.update workspaceId columnId actorId dto
  | .updateBoard workspaceId boardId actorId dto => do
    let _ ← BoardService.update workspaceId boardId actorId dto

/-! ## What an entry has to say -/

/-- The entry reports the fields that differ between the two rows, with what they held. -/
def Reports {R : Type} [Model R] (type : ActivityType) (fields : List (AuditField R)) (id : Id)
    (before after : Db) : Prop :=
  ∃ v r r', newEntries before after = [v] ∧ v.type = type ∧ byId R before id = some r ∧
    byId R after id = some r' ∧ v.member "changes" = some (.obj (fieldChanges r r' fields))

/-- One entry is committed with the change, and describes it. -/
def Describes (op : EditOp) (before after : Db) : Prop :=
  match op with
  | .moveTask _ taskId _ _ => ∃ v, newEntries before after = [v] ∧ v.type = .taskMoved ∧
      v.taskId = some taskId ∧ v.text "fromColumnId" = columnOf taskId before ∧
      v.text "toColumnId" = columnOf taskId after
  | .updateTask _ taskId _ _ => ∃ v t t' changes, newEntries before after = [v] ∧
      v.type = .taskUpdated ∧ v.taskId = some taskId ∧ byId TaskRow before taskId = some t ∧
      byId TaskRow after taskId = some t' ∧ v.member "changes" = some (.obj changes) ∧
      changes.map Prod.fst = editedFields t t'
  | .updateColumn _ columnId _ _ =>
      Reports .columnUpdated ColumnService.auditFields columnId before after
  | .updateBoard _ boardId _ _ =>
      Reports .boardUpdated BoardService.auditFields boardId before after

/-- A row holds the same in the reported fields in two states. -/
def Agrees {R : Type} [Model R] (fields : List (AuditField R)) (id : Id) (first before : Db) : Prop :=
  ∀ r t, byId R first id = some r → byId R before id = some t → ∀ f ∈ fields, f.2 r = f.2 t

/-- What the call read first is so in the committed rows too: the task's column; what the request
changes of it; what is reported on. -/
def Current (rt : Runtime) (op : EditOp) (saw : List Db) (before : Db) : Prop :=
  ∀ first, saw.head? = some first →
    match op with
    | .moveTask _ taskId _ _ => columnOf taskId first = columnOf taskId before
    | .updateTask _ taskId _ dto => ∀ r t plan, byId TaskRow first taskId = some r →
        byId TaskRow before taskId = some t → planTaskUpdate rt r dto = .ok plan →
        plan.data.edits r = plan.data.edits t
    | .updateColumn _ columnId _ _ => Agrees ColumnService.auditFields columnId first before
    | .updateBoard _ boardId _ _ => Agrees BoardService.auditFields boardId first before

/-- The request changes nothing of the task as it is stored. -/
def NothingToDo (rt : Runtime) (taskId : Id) (dto : UpdateTaskDto) (db : Db) : Prop :=
  ∀ t plan, byId TaskRow db taskId = some t → planTaskUpdate rt t dto = .ok plan →
    plan.data.edits t = []

/-- What a commit answers for. -/
structure Accounted (rt : Runtime) (op : EditOp) (saw : List Db) (before after : Db) : Prop where
  described : Describes op before after ↔ Current rt op saw before
  moved : ∀ taskId, (moves taskId before after = [] ∧ columnOf taskId after = columnOf taskId before) ∨
    ∃ source, moves taskId before after = [(source, columnOf taskId after)] ∧
      (Current rt op saw before → source = columnOf taskId before)

/-- An update that has read the task and its attachments, and has answered with what it read. -/
def Unwritten (rt : Runtime) (op : EditOp) (saw : List Db) : Prop :=
  match op with
  | .updateTask _ taskId _ dto => ∀ first last, saw = [first, last] →
      ∃ r plan, byId TaskRow first taskId = some r ∧ planTaskUpdate rt r dto = .ok plan ∧
        plan.data.edits r = []
  | _ => True

/-- Commits are accounted for. -/
def audited {ι : Type} (rt : Runtime) (ops : ι → EditOp) : Sql.Ledger kurul ι (List Db) where
  note := seen
  Within _ _ := True
  Inv _ := True
  Cond _ _ _ _ := True
  Guar i g a db db' :=
    match a with
    | .commit _ => Accounted rt (ops i) g db db'
    | _ => db' = db
  Ends i e g := e = none → Unwritten rt (ops i) g
  note_quiet := seen_quiet
  within_refl := fun _ => trivial
  within_trans := fun _ _ => trivial
  within_exec := fun _ _ _ _ => trivial

/-! ## One row and its entry -/

section Patched

variable {R : Type} [Model R] {r : R} {data : Patch R} {v : ActivityRow} {locks locks' : List (Lock Key)}
  {db₁ db₂ db₃ : Db}

/-- A transaction that has patched a row. -/
abbrev patched (r : R) (data : Patch R) (locks : List (Lock Key)) : Local kurul :=
  Local.empty.add (⟨data.apply r, [.put (Model.row (data.apply r))], locks⟩ : Effect kurul R)

/-- It has written its entry too. -/
abbrev patchedWith (r : R) (data : Patch R) (locks : List (Lock Key)) (v : ActivityRow)
    (locks' : List (Lock Key)) : Local kurul :=
  (patched r data locks).add (⟨v, [.put (.activity v)], locks'⟩ : Effect kurul ActivityRow)

theorem patched_held (hr : r ∈ rows R db₁) (h : (patched r data locks).Held db₁ db₂) :
    byId R db₂ (Model.id r) = some r := by
  have hwrote : (patched r data locks).Wrote ⟨Model.table R, Model.id r⟩ :=
    Local.wrote_add.mpr (.inr (by simp [Model.key_row, data.id_apply]))
  rw [byId_congr (h.wrote hwrote)]
  exact byId_eq_some.mpr ⟨hr, rfl⟩

theorem rows_patchedWith {T : Type} [Model T] (hT : Model.table T ≠ Model.table R)
    (hlog : Model.table T ≠ .activity) (db : Db) :
    rows T ((patchedWith r data locks v locks').view db) = rows T db := by
  refine rows_applyAll_of_ne fun w hw => ?_
  rcases List.mem_cons.mp hw with rfl | hw
  · rw [Write.key_put, keyed_key, Model.key_row]
    exact hT.symm
  · rw [List.mem_singleton.mp hw]
    exact hlog.symm

theorem patched_stored (hR : Model.table R ≠ .activity) (db : Db) :
    byId R ((patchedWith r data locks v locks').view db) (Model.id r) = some (data.apply r) := by
  rw [Local.view_add]
  refine byId_eq_some.mpr ⟨?_, data.id_apply r⟩
  have hlog : rows R ((patched r data locks).view db |>.put (.activity v)) =
      rows R ((patched r data locks).view db) := rows_put_of_ne hR.symm
  show data.apply r ∈ rows R ((patched r data locks).view db |>.put (.activity v))
  rw [hlog]
  exact mem_rows_put.mpr (.inl rfl)

theorem patched_entry (hR : Model.table R ≠ .activity)
    (hnew : insertRefusal (.activity v) ((patched r data locks).view db₂) = none)
    (h : (patchedWith r data locks v locks').Held db₂ db₃) :
    newEntries db₃ ((patchedWith r data locks v locks').view db₃) = [v] := by
  refine newEntries_add (fun w hw => ?_) hnew h
  rw [List.mem_singleton.mp hw, Write.key_put, keyed_key, Model.key_row]
  exact hR

end Patched

theorem moves_of_type {v : ActivityRow} {type : ActivityType} (hv : v.type = type)
    (hne : type ≠ .taskMoved) {before after : Db} (h : newEntries before after = [v]) (taskId : Id) :
    moves taskId before after = [] := by
  simp [moves, h, ActivityRow.moved, hv, hne]

/-- A commit that has patched a column or a board, and written what it reports of it. -/
theorem accounted_reports {R : Type} [Model R] {rt : Runtime} {op : EditOp} {saw : List Db} {id : Id}
    {r t : R} {data : Patch R} {v : ActivityRow} {locks locks' : List (Lock Key)}
    {type : ActivityType} {fields : List (AuditField R)} {first db₁ db₂ db₃ : Db}
    (hR : Model.table R ≠ .activity) (htask : Model.table R ≠ .task)
    (hnd : (fields.map fun f => js f.1).Nodup) (hr : r ∈ rows R db₁ ∧ Model.id r = id)
    (hheld₁ : (patched r data locks).Held db₁ db₂)
    (hnew : insertRefusal (.activity v) ((patched r data locks).view db₂) = none)
    (hheld₂ : (patchedWith r data locks v locks').Held db₂ db₃) (ht : byId R first id = some t)
    (htype : v.type = type) (hne : type ≠ .taskMoved)
    (hchanges : v.member "changes" = some (.obj (fieldChanges t (data.apply r) fields)))
    (hdescribes : ∀ before after, Describes op before after ↔ Reports type fields id before after)
    (hcurrent : ∀ before, Current rt op saw before ↔ Agrees fields id first before) :
    Accounted rt op saw db₃ ((patchedWith r data locks v locks').view db₃) := by
  obtain ⟨hr, rfl⟩ := hr
  have hbefore : byId R db₃ (Model.id r) = some r := patched_held hr (hheld₁.trans hheld₂.of_add)
  have hafter : byId R ((patchedWith r data locks v locks').view db₃) (Model.id r) =
      some (data.apply r) := patched_stored hR db₃
  have hentry := patched_entry hR hnew hheld₂
  refine ⟨?_, fun taskId => .inl ⟨moves_of_type htype hne hentry taskId, ?_⟩⟩
  · rw [hdescribes, hcurrent]
    constructor
    · intro h
      obtain ⟨v', r', r'', hentry', _, hbefore', hafter', hchanges'⟩ := h
      obtain rfl : v' = v := List.singleton_injective (hentry'.symm.trans hentry)
      obtain rfl : r' = r := Option.some.inj (hbefore'.symm.trans hbefore)
      obtain rfl : r'' = data.apply r' := Option.some.inj (hafter'.symm.trans hafter)
      have heq : fieldChanges t (data.apply r') fields = fieldChanges r' (data.apply r') fields := by
        rw [hchanges] at hchanges'
        exact Json.obj.inj (Option.some.inj hchanges')
      intro t' r'' ht' hr'' f hf
      obtain rfl : t' = t := Option.some.inj (ht'.symm.trans ht)
      obtain rfl : r'' = r' := Option.some.inj (hr''.symm.trans hbefore)
      exact (fieldChanges_eq_iff hnd).mp heq f hf
    · intro h
      refine ⟨v, r, data.apply r, hentry, htype, hbefore, hafter, ?_⟩
      rw [hchanges, (fieldChanges_eq_iff hnd).mpr (h t r ht hbefore)]
  · exact columnOf_congr (rows_patchedWith (T := TaskRow) htask.symm (by decide) db₃) taskId

/-- A plan for one row of a task writes what a plan for another does. -/
theorem plan_data {rt : Runtime} {r t : TaskRow} {dto : UpdateTaskDto} {plan plan' : TaskUpdatePlan}
    (h : planTaskUpdate rt r dto = .ok plan) (h' : planTaskUpdate rt t dto = .ok plan') :
    plan.data = plan'.data := by
  simp only [planTaskUpdate] at h h'
  cases hdue : parseDueDate rt dto.dueDate with
  | error e =>
    rw [hdue] at h
    cases h
  | ok due =>
    rw [hdue] at h h'
    cases h
    cases h'
    rfl

theorem plan_exists {rt : Runtime} {r : TaskRow} {dto : UpdateTaskDto} {plan : TaskUpdatePlan}
    (h : planTaskUpdate rt r dto = .ok plan) (t : TaskRow) :
    ∃ plan', planTaskUpdate rt t dto = .ok plan' := by
  simp only [planTaskUpdate] at h ⊢
  cases hdue : parseDueDate rt dto.dueDate with
  | error e =>
    rw [hdue] at h
    cases h
  | ok due => exact ⟨_, rfl⟩

/-- A commit that has written a plan over a task, and listed the plan's changes. -/
theorem accounted_plan {rt : Runtime} {op : EditOp} {workspaceId taskId userId : Id}
    {dto : UpdateTaskDto} {r t : TaskRow} {plan : TaskUpdatePlan} {now : Instant} {v : ActivityRow}
    {locks locks' : List (Lock Key)} {first db₁ db₂ db₃ : Db} {saw : List Db}
    (hop : op = .updateTask workspaceId taskId userId dto) (hsaw : saw.head? = some first)
    (hr : byId TaskRow first taskId = some r) (hplan : planTaskUpdate rt r dto = .ok plan)
    (ht : byId TaskRow db₁ taskId = some t)
    (hheld₁ : (patched t ⟨plan.data.apply now, fun _ => rfl⟩ locks).Held db₁ db₂)
    (hnew : insertRefusal (.activity v)
      ((patched t ⟨plan.data.apply now, fun _ => rfl⟩ locks).view db₂) = none)
    (hheld₂ : (patchedWith t ⟨plan.data.apply now, fun _ => rfl⟩ locks v locks').Held db₂ db₃)
    (htype : v.type = .taskUpdated) (htask : v.taskId = some taskId)
    (hchanges : v.member "changes" = some (.obj plan.changes)) :
    Accounted rt op saw db₃
      ((patchedWith t ⟨plan.data.apply now, fun _ => rfl⟩ locks v locks').view db₃) := by
  obtain ⟨hmem, rfl⟩ := byId_eq_some.mp ht
  have hbefore : byId TaskRow db₃ t.id = some t := patched_held hmem (hheld₁.trans hheld₂.of_add)
  have hafter : byId TaskRow ((patchedWith t ⟨plan.data.apply now, fun _ => rfl⟩ locks v locks').view
      db₃) t.id = some (plan.data.apply now t) := patched_stored (by decide) db₃
  have hentry := patched_entry (by decide) hnew hheld₂
  subst hop
  refine ⟨?_, fun other => .inl ⟨moves_of_type htype (by simp) hentry other, ?_⟩⟩
  · constructor
    · intro h
      obtain ⟨v', t', t'', changes, hentry', _, _, hbefore', hafter', hchanges', hnames⟩ := h
      obtain rfl : v' = v := List.singleton_injective (hentry'.symm.trans hentry)
      obtain rfl : t' = t := Option.some.inj (hbefore'.symm.trans hbefore)
      obtain rfl : t'' = plan.data.apply now t' := Option.some.inj (hafter'.symm.trans hafter)
      obtain rfl : changes = plan.changes := by
        rw [hchanges] at hchanges'
        exact (Json.obj.inj (Option.some.inj hchanges')).symm
      intro first' hfirst r' t'' plan' hr' ht' hplan'
      obtain rfl : first' = first := Option.some.inj (hfirst.symm.trans hsaw)
      obtain rfl : r' = r := Option.some.inj (hr'.symm.trans hr)
      obtain rfl : t'' = t' := Option.some.inj (ht'.symm.trans hbefore)
      obtain rfl : plan' = plan := Except.ok.inj (hplan'.symm.trans hplan)
      rw [← names_changes hplan, hnames, editedFields_apply]
    · intro h
      refine ⟨v, t, plan.data.apply now t, plan.changes, hentry, htype, htask, hbefore, hafter,
        hchanges, ?_⟩
      rw [names_changes hplan, editedFields_apply, h first hsaw r t plan hr hbefore hplan]
  · have hput : columnOf other ((patchedWith t ⟨plan.data.apply now, fun _ => rfl⟩ locks v locks').view
        db₃) = columnOf other (db₃.put (.task (plan.data.apply now t))) :=
      columnOf_congr (rows_put_of_ne (v := .activity v)
        (show Table.activity ≠ .task by decide)) other
    rw [hput, columnOf_put]
    split
    · rename_i h
      rw [h, columnOf, show (plan.data.apply now t).id = t.id from rfl, hbefore]
      rfl
    · rfl

/-- What a move's transaction holds: it has put the task into the column, and has left every other
task in its own. -/
structure PutInto (taskId columnId : Id) (own : Local kurul) (db : Db) : Prop where
  puts : ∀ w ∈ own.delta, PutsInto taskId columnId db w
  tasks : ∀ w ∈ own.delta, w.key.table = .task
  wrote : own.Wrote ⟨.task, taskId⟩

theorem PutInto.of_delta {own : Local kurul} {t : TaskRow} (h : own.delta = [.put (.task t)])
    (db : Db) : PutInto t.id t.columnId own db := by
  refine ⟨fun w hw => ?_, fun w hw => ?_, ?_⟩
  · rw [h, List.mem_singleton] at hw
    exact fun _ => ⟨t, hw, .inl ⟨rfl, rfl⟩⟩
  · rw [h, List.mem_singleton] at hw
    rw [hw]
    rfl
  · rw [Local.Wrote, h]
    exact List.mem_singleton.mpr rfl

theorem PutInto.held {taskId columnId : Id} {own : Local kurul} {db db' : Db}
    (h : PutInto taskId columnId own db) (hheld : own.Held db db') :
    PutInto taskId columnId own db' :=
  ⟨fun w hw => (h.puts w hw).congr fun _ _ => hheld.wrote (List.mem_map_of_mem hw), h.tasks, h.wrote⟩

theorem PutInto.columnOf {taskId columnId : Id} {own : Local kurul} {db : Db}
    (h : PutInto taskId columnId own db) (other : Id) :
    columnOf other (own.view db) = if other = taskId then some columnId else columnOf other db := by
  rw [Local.view, columnOf_applyAll h.puts fun _ => rfl]
  have hwrote : (⟨.task, taskId⟩ : Key) ∈ own.delta.map Write.key := h.wrote
  simp only [hwrote, and_true]

/-- A statement of the bulk write: rows of the column, but not the task itself. -/
theorem PutInto.add {taskId columnId : Id} {own : Local kurul} {db : Db} {β : Type}
    {e : Effect kurul β} (h : PutInto taskId columnId own db)
    (he : ∀ w ∈ e.writes, ∃ t ∈ rows TaskRow (own.view db), t.columnId = columnId ∧ t.id ≠ taskId ∧
      ∃ p, w = .put (.task ((Placed.setPosition p).apply t))) :
    PutInto taskId columnId (own.add e) db := by
  refine ⟨fun w hw => ?_, fun w hw => ?_, Local.wrote_add.mpr (.inl h.wrote)⟩
  · rcases List.mem_append.mp hw with hw | hw
    · exact h.puts w hw
    · obtain ⟨t, ht, hcolumn, hne, p, rfl⟩ := he w hw
      refine fun _ => ⟨_, rfl, .inr ⟨hne, ?_⟩⟩
      have hthere := columnOf_of_mem ht
      rw [h.columnOf, if_neg hne] at hthere
      exact hthere
  · rcases List.mem_append.mp hw with hw | hw
    · exact h.tasks w hw
    · obtain ⟨t, _, _, _, p, rfl⟩ := he w hw
      rfl

/-- A commit that has put a task into a column, and said out of which. -/
theorem accounted_move {rt : Runtime} {op : EditOp} {workspaceId taskId userId columnId : Id}
    {dto : MoveTaskDto} {r : TaskRow} {v : ActivityRow} {own : Local kurul} {locks : List (Lock Key)}
    {first db₁ db₂ : Db} {saw : List Db} (hop : op = .moveTask workspaceId taskId userId dto)
    (hsaw : saw.head? = some first) (hr : byId TaskRow first taskId = some r)
    (hput : PutInto taskId columnId own db₁)
    (hnew : insertRefusal (.activity v) (own.view db₁) = none)
    (hheld : (own.add (⟨v, [.put (.activity v)], locks⟩ : Effect kurul ActivityRow)).Held db₁ db₂)
    (htype : v.type = .taskMoved) (htask : v.taskId = some taskId)
    (hfrom : v.text "fromColumnId" = some r.columnId) (hto : v.text "toColumnId" = some columnId) :
    Accounted rt op saw db₂
      ((own.add (⟨v, [.put (.activity v)], locks⟩ : Effect kurul ActivityRow)).view db₂) := by
  have hentry := newEntries_add (fun w hw => by rw [hput.tasks w hw]; decide) hnew hheld
  have hfirst : columnOf taskId first = some r.columnId := by rw [columnOf, hr, Option.map_some]
  have hafter : ∀ other, columnOf other ((own.add (⟨v, [.put (.activity v)], locks⟩ :
      Effect kurul ActivityRow)).view db₂) =
        if other = taskId then some columnId else columnOf other db₂ := by
    intro other
    rw [← (hput.held hheld.of_add).columnOf other, Local.view_add]
    exact columnOf_congr (rows_put_of_ne (v := .activity v) (show Table.activity ≠ .task by decide)) _
  subst hop
  have hcurrent : Current rt (.moveTask workspaceId taskId userId dto) saw db₂ ↔
      some r.columnId = columnOf taskId db₂ := by
    rw [← hfirst]
    exact ⟨fun h => h first hsaw, fun h first' hfirst' => Option.some.inj (hsaw.symm.trans hfirst') ▸ h⟩
  refine ⟨?_, fun other => ?_⟩
  · rw [hcurrent]
    constructor
    · intro h
      obtain ⟨v', hentry', _, _, hfrom', _⟩ := h
      obtain rfl : v' = v := List.singleton_injective (hentry'.symm.trans hentry)
      rw [← hfrom, hfrom']
    · intro h
      refine ⟨v, hentry, htype, htask, by rw [hfrom, h], ?_⟩
      rw [hto, hafter, if_pos rfl]
  · by_cases hother : other = taskId
    · subst hother
      refine .inr ⟨some r.columnId, ?_, hcurrent.mp⟩
      rw [hafter, if_pos rfl]
      simp [moves, hentry, ActivityRow.moved, htype, htask, hfrom, hto]
    · refine .inl ⟨?_, by rw [hafter, if_neg hother]⟩
      simp [moves, hentry, ActivityRow.moved, htype, htask, Ne.symm hother]

/-! ## The calls -/

section Kept

variable {ι : Type} {rt : Runtime} {ops : ι → EditOp} {i : ι} {db : Db}

theorem updateColumn_kept {workspaceId columnId actorId : Id} {dto : UpdateColumnDto}
    {Q : ColumnDto → List Db → Prop} (hQ : ∀ column g, Q column g)
    (hop : ops i = .updateColumn workspaceId columnId actorId dto) :
    (ColumnService.updateBody workspaceId columnId actorId dto).Kept (audited rt ops) i
      (CommitKept (audited rt ops) i .transaction Q) [] .empty db := by
  simp only [ColumnService.updateBody, ColumnService.withCount, Tx.Kept_bind]
  refine Kept_query fun first _ => Kept_orThrow fun t ht => Kept_update fun db₁ _ r hr => ?_
  refine Kept_query fun db₂ hheld₁ => Kept_record fun v db₃ hheld₂ _ _ htype hpayload hnew => ?_
  intro db₄ hheld₃
  refine ⟨⟨trivial, .inr ?_⟩, hQ _ _⟩
  simp only [audited, hop]
  refine accounted_reports (by decide) (by decide) (by decide)
    (byId_eq_some.mp (of_columnScope hr)) (hheld₁.1.trans hheld₂.1) hnew
    hheld₃.1 (of_columnScope ht) htype (by simp) (by rw [member_of_payload hpayload]; rfl)
    (fun _ _ => Iff.rfl) fun before => ?_
  simp [Current, seen]

theorem updateBoard_kept {workspaceId boardId actorId : Id} {dto : UpdateBoardDto}
    {Q : BoardRow → List Db → Prop} (hQ : ∀ board g, Q board g)
    (hop : ops i = .updateBoard workspaceId boardId actorId dto) :
    (BoardService.updateBody workspaceId boardId actorId dto).Kept (audited rt ops) i
      (CommitKept (audited rt ops) i .transaction Q) [] .empty db := by
  simp only [BoardService.updateBody, Tx.Kept_bind]
  refine Kept_query fun first _ => Kept_orThrow fun t ht => Kept_update fun db₁ _ r hr => ?_
  refine Kept_record fun v db₂ hheld₁ _ _ htype hpayload hnew => ?_
  intro db₃ hheld₂
  refine ⟨⟨trivial, .inr ?_⟩, hQ _ _⟩
  simp only [audited, hop]
  refine accounted_reports (by decide) (by decide) (by decide)
    (byId_eq_some.mp (of_boardScope hr)) hheld₁.1 hnew hheld₂.1 (of_boardScope ht) htype (by simp) (by rw [member_of_payload hpayload]; rfl)
    (fun _ _ => Iff.rfl) fun before => ?_
  simp [Current, seen]

theorem updateTaskBody_kept {workspaceId taskId userId : Id} {dto : UpdateTaskDto} {r : TaskRow}
    {plan : TaskUpdatePlan} {first last : Db} {Q : TaskDto → List Db → Prop}
    (hQ : ∀ task g, g.length ≠ 2 → Q task g)
    (hop : ops i = .updateTask workspaceId taskId userId dto) (hr : byId TaskRow first taskId = some r)
    (hplan : planTaskUpdate rt r dto = .ok plan) :
    (TaskService.updateBody workspaceId taskId userId plan).Kept (audited rt ops) i
      (CommitKept (audited rt ops) i .transaction Q) [first, last] .empty db := by
  simp only [TaskService.updateBody, countAttachments, Tx.Kept_bind]
  refine Kept_query fun db₁ _ => Kept_orThrow fun _ _ now => Kept_update fun db₂ _ t ht => ?_
  refine Kept_query fun db₃ hheld₁ => ?_
  refine Kept_record fun v db₄ hheld₂ _ htask htype hpayload hnew => ?_
  refine Kept_query fun db₅ hheld₃ => fun db₆ hheld₄ => ?_
  refine ⟨⟨trivial, .inr ?_⟩, hQ _ _ (by simp [audited, seen])⟩
  exact accounted_plan hop rfl hr hplan (of_taskScope ht) (hheld₁.1.trans hheld₂.1) hnew
    (hheld₃.1.trans hheld₄.1) htype htask (by rw [member_of_payload hpayload]; rfl)

theorem writeMove_kept {workspaceId taskId columnId : Id} {position : Position} {g : List Db}
    {first : Db} {own : Local kurul} {Q : TaskRow → List Db → Local kurul → Db → Prop}
    (hfirst : g.head? = some first) (hown : own.delta = [])
    (hQ : ∀ t g own db, g.head? = some first → PutInto taskId columnId own db → Q t g own db) :
    (TaskService.writeMove workspaceId taskId columnId position).Kept (audited rt ops) i Q g own db := by
  intro now
  refine Kept_update fun db' _ t ht => hQ _ _ _ _ (by simp [audited, seen, hfirst]) ?_
  obtain ⟨_, hid⟩ := byId_eq_some.mp (of_taskScope ht)
  subst hid
  refine PutInto.of_delta (t := { t with columnId, position, updatedAt := now }) ?_ _
  rw [Local.delta_add, hown]
  rfl

theorem place_kept {workspaceId taskId columnId : Id} {task : TaskDetailRow}
    {remaining : List Sibling} {slot : InsertionSlot Sibling} {n : Nat} {g : List Db} (first : Db)
    {own : Local kurul} {Q : TaskDto → List Db → Local kurul → Db → Prop}
    (hfirst : g.head? = some first) (hown : own.delta = [])
    (hQ : ∀ task g own db, g.head? = some first → PutInto taskId columnId own db →
      Q task g own db) :
    (TaskService.place workspaceId taskId task columnId remaining slot n).Kept (audited rt ops) i
      Q g own db := by
  simp only [TaskService.place]
  split
  · simp only [batchUpdateTaskPositions, Tx.Kept_bind]
    refine writeMove_kept hfirst hown fun _ g₁ own₁ db₁ hfirst₁ hput₁ => ?_
    refine batchUpdatePositions_kept (R := TaskRow)
      (J := fun g own db => g.head? = some first ∧ PutInto taskId columnId own db)
      (fun e g own db db' l hheld h he => ?_) (fun g own db h now => hQ _ _ _ _ h.1 h.2)
      ⟨hfirst₁, hput₁⟩
    refine ⟨by simp [audited, seen, h.1], (h.2.held hheld).add fun w hw => ?_⟩
    obtain ⟨u, hu, t, ht, hlist, hid, rfl⟩ := he w hw
    refine ⟨t, ht, hlist, ?_, u.position, rfl⟩
    -- the task itself is not among the others that are respread
    rw [moveUpdates_eq] at hu
    have hne : u.id ≠ taskId := of_decide_eq_true (List.mem_filter.mp hu).2
    exact fun heq => hne (hid.symm.trans heq)
  · simp only [Tx.Kept_bind]
    refine writeMove_kept hfirst hown fun t g₁ own₁ db₁ hfirst₁ hput₁ => ?_
    refine Kept_query fun db₂ hheld => ?_
    exact hQ _ _ _ _ (by simp [audited, seen, hfirst₁]) (hput₁.held hheld.1)

theorem moveBody_kept {workspaceId taskId userId : Id} {dto : MoveTaskDto}
    {Q : TaskDto → List Db → Prop} (hQ : ∀ task g, Q task g)
    (hop : ops i = .moveTask workspaceId taskId userId dto) :
    (TaskService.moveBody workspaceId taskId userId dto).Kept (audited rt ops) i
      (CommitKept (audited rt ops) i .transaction Q) [] .empty db := by
  simp only [TaskService.moveBody, countAttachments, findSiblings, Tx.Kept_bind]
  refine Kept_query fun first _ => Kept_orThrow fun task htask => Kept_throwIf fun _ => ?_
  obtain ⟨r, hr, rfl⟩ := Option.map_eq_some_iff.mp htask
  refine Kept_query fun db₂ _ => Kept_orThrow fun column _ => Kept_throwIf fun _ => ?_
  have hfrom : ∀ {g : List Db} {Q : Option ColumnRow → List Db → Local kurul → Db → Prop},
      g.head? = some first → (∀ x g db, g.head? = some first → Q x g .empty db) →
      (TaskService.fromColumn r column).Kept (audited rt ops) i Q g .empty db₂ := by
    intro g Q hg hQ
    simp only [TaskService.fromColumn]
    split
    · exact hQ _ _ _ hg
    · exact Kept_query fun db₃ _ => hQ _ _ _ (by simp [audited, seen, hg])
  refine hfrom rfl fun x g₃ db₃ hg₃ => Kept_lockRow fun db₄ _ own₄ hown₄ => ?_
  refine Kept_query fun db₅ _ => Kept_ofExcept fun slot _ => Kept_query fun db₆ _ => ?_
  refine place_kept first (by simp [audited, seen, hg₃]) hown₄
    fun result g₇ own₇ db₇ hg₇ hput => ?_
  refine Kept_record fun v db₈ hheld₈ _ htask' htype hpayload hnew => fun db₉ hheld₉ => ?_
  refine ⟨⟨trivial, .inr ?_⟩, hQ _ _⟩
  exact accounted_move hop (by simp [audited, seen, hg₇]) (of_taskScope hr) (hput.held hheld₈.1)
    hnew hheld₉.1 htype htask' (text_of_payload hpayload rfl) (text_of_payload hpayload rfl)

theorem call_kept : ((ops i).call rt).Kept (audited rt ops) i
    (fun _ => (audited rt ops).Ends i none) (fun e => (audited rt ops).Ends i (some e)) [] := by
  have herr : ∀ (e : ApiError) (g : List Db), (audited rt ops).Ends i (some e) g :=
    fun e g h => by cases h
  cases hop : ops i with
  | moveTask workspaceId taskId userId dto =>
    have hend : ∀ g, (audited rt ops).Ends i none g := fun g _ => by rw [hop]; trivial
    simp only [EditOp.call, TaskService.move, Call.Kept_bind]
    refine Call.Kept_transaction (fun e g' _ => herr e g') fun db _ => moveBody_kept (fun task g => ?_) hop
    exact fun db _ => hend _
  | updateColumn workspaceId columnId actorId dto =>
    have hend : ∀ g, (audited rt ops).Ends i none g := fun g _ => by rw [hop]; trivial
    simp only [EditOp.call, ColumnService.update, Call.Kept_bind]
    refine Call.Kept_transaction (fun e g' _ => herr e g') fun db _ => updateColumn_kept (fun column g => ?_) hop
    exact fun db _ => hend _
  | updateBoard workspaceId boardId actorId dto =>
    have hend : ∀ g, (audited rt ops).Ends i none g := fun g _ => by rw [hop]; trivial
    simp only [EditOp.call, BoardService.update, Call.Kept_bind]
    refine Call.Kept_transaction (fun e g' _ => herr e g') fun db _ => updateBoard_kept (fun board g => ?_) hop
    exact hend _
  | updateTask workspaceId taskId userId dto =>
    simp only [EditOp.call, TaskService.update, TaskReadService.findTask, countAttachments,
      Call.auto_bind, Call.Kept_bind]
    refine Kept_auto_query (herr · _) fun first _ _ => Kept_auto_orThrow (herr _ _) fun found hfound => ?_
    obtain ⟨r, hr, rfl⟩ := Option.map_eq_some_iff.mp hfound
    refine Kept_auto_query (herr · _) fun last _ _ => Kept_auto_ofExcept (herr · _) fun plan hplan => ?_
    split
    · rename_i hempty
      refine fun _ => ?_
      rw [hop]
      intro first' last' hsaw
      obtain rfl : first = first' := (List.cons.inj hsaw).1
      have hplan : planTaskUpdate rt r dto = .ok plan := hplan
      refine ⟨r, plan, of_taskScope hr, hplan, ?_⟩
      rw [← names_changes hplan, List.isEmpty_iff.mp hempty]
      rfl
    · rw [Call.Kept_bind]
      refine Call.Kept_transaction (fun e g' _ => herr e g') fun db _ =>
        updateTaskBody_kept (fun task g hlength => ?_) hop (of_taskScope hr) hplan
      intro db' _ _
      rw [hop]
      intro first' last' hsaw
      refine absurd ?_ hlength
      have hsaw : g = [first', last'] := hsaw
      rw [hsaw]
      rfl

end Kept

/-! ## Runs -/

theorem nothingToDo_iff {rt : Runtime} {op : EditOp} {saw : List Db} {first last : Db}
    {workspaceId taskId userId : Id} {dto : UpdateTaskDto}
    (hop : op = .updateTask workspaceId taskId userId dto) (hsaw : saw = [first, last])
    (h : Unwritten rt op saw) : NothingToDo rt taskId dto last ↔ Current rt op saw last := by
  subst hop hsaw
  obtain ⟨r, plan, hr, hplan, hnothing⟩ := h first last rfl
  constructor
  · intro hdone first' hfirst r' t plan' hr' ht hplan'
    cases hfirst
    obtain rfl : r' = r := Option.some.inj (hr'.symm.trans hr)
    obtain rfl : plan' = plan := Except.ok.inj (hplan'.symm.trans hplan)
    obtain ⟨plan'', hplan''⟩ := plan_exists hplan t
    rw [hnothing, plan_data hplan hplan'', hdone t plan'' ht hplan'']
  · intro hcurrent t plan' ht hplan'
    rw [← plan_data hplan hplan', ← hcurrent first rfl r t plan hr ht hplan, hnothing]

section Runs

variable {ι : Type} [DecidableEq ι] {rt : Runtime} {ops : ι → EditOp}

/-- All the recorded moves of a task, oldest first. -/
def trail (taskId : Id) (past : List (Past kurul ι (List Db))) : List (Option Id × Option Id) :=
  past.flatMap fun p => moves taskId p.before p.after

omit [DecidableEq ι] in
/-- Where one step takes a task, and what the log has of it. -/
theorem moves_step {p : Past kurul ι (List Db)}
    (h : (audited rt ops).Commits p.who p.noted p.act p.before p.after)
    (hcurrent : ∀ l, p.act = .commit l → Current rt (ops p.who) p.noted p.before) (taskId : Id) :
    (moves taskId p.before p.after = [] ∧ columnOf taskId p.after = columnOf taskId p.before) ∨
      moves taskId p.before p.after = [(columnOf taskId p.before, columnOf taskId p.after)] := by
  have hsame : p.after = p.before → moves taskId p.before p.after = [] ∧
      columnOf taskId p.after = columnOf taskId p.before := by
    intro heq
    rw [heq, moves, newEntries_self]
    exact ⟨rfl, rfl⟩
  rcases h.2 with ⟨heq, _⟩ | hguar
  · exact .inl (hsame heq)
  · cases hact : p.act with
    | commit l =>
      rw [hact] at hguar
      refine (hguar.moved taskId).imp id fun hmoved => ?_
      obtain ⟨source, hmoves, hsource⟩ := hmoved
      rw [hmoves, hsource (hcurrent l hact)]
    | _ =>
      rw [hact] at hguar
      exact .inl (hsame hguar)

/-- While the moves read what they replace, each recorded move of a task starts where the one before
it ended, and the last ended where the task is. -/
theorem trail_chain {Ok : ι → List Db → Act kurul → Db → Prop} {σ₀ σ : Config kurul ι}
    {g : ι → List Db} {past : List (Past kurul ι (List Db))} (h : Booked seen [] Ok σ₀ σ g past)
    (hcommits : ∀ p ∈ past, (audited rt ops).Commits p.who p.noted p.act p.before p.after)
    (hcurrent : ∀ p ∈ past, ∀ l, p.act = .commit l → Current rt (ops p.who) p.noted p.before)
    (taskId : Id) :
    (trail taskId past).IsChain (fun m m' => m'.1 = m.2) ∧
      ∀ m ∈ (trail taskId past).getLast?, m.2 = columnOf taskId σ.db := by
  induction h with
  | refl => exact ⟨List.isChain_nil, fun m hm => by cases hm⟩
  | @step σ σ' g past i a _ _ _ ih =>
    obtain ⟨hchain, hlast⟩ := ih (fun p hp => hcommits p (List.mem_append_left _ hp))
      fun p hp => hcurrent p (List.mem_append_left _ hp)
    have hnew : (⟨i, g i, a, σ.db, σ'.db⟩ : Past kurul ι (List Db)) ∈
        past ++ [⟨i, g i, a, σ.db, σ'.db⟩] := List.mem_append_right _ List.mem_cons_self
    have htrail : trail taskId (past ++ [⟨i, g i, a, σ.db, σ'.db⟩]) =
        trail taskId past ++ moves taskId σ.db σ'.db := by simp [trail]
    rw [htrail]
    rcases moves_step (hcommits _ hnew) (hcurrent _ hnew) taskId with ⟨hmoves, hstays⟩ | hmoves
    · have hmoves : moves taskId σ.db σ'.db = [] := hmoves
      rw [hmoves, List.append_nil]
      exact ⟨hchain, fun m hm => (hlast m hm).trans hstays.symm⟩
    · have hmoves : moves taskId σ.db σ'.db = [(columnOf taskId σ.db, columnOf taskId σ'.db)] := hmoves
      rw [hmoves]
      refine ⟨List.isChain_append.mpr ⟨hchain, List.isChain_singleton _, ?_⟩, ?_⟩
      · intro m hm m' hm'
        cases hm'
        exact (hlast m hm).symm
      · intro m hm
        rw [List.getLast?_concat] at hm
        cases hm
        rfl

/-- Along every run of moves and updates a commit's entry describes the change exactly when what the
call read first still is so at the commit; while that is so the moves of a task follow each other, and
an update left out as changing nothing changes nothing. -/
theorem audit_trail (rt : Runtime) (db₀ : Db) (ops : ι → EditOp) {σ : Config kurul ι}
    {g : ι → List Db} {past : List (Past kurul ι (List Db))}
    (h : Booked seen [] (fun _ _ _ _ => True) (Config.start db₀ fun i => (ops i).call rt) σ g past) :
    (∀ p ∈ past, ∀ l, p.act = .commit l →
      (Describes (ops p.who) p.before p.after ↔ Current rt (ops p.who) p.noted p.before)) ∧
    ((∀ p ∈ past, ∀ l, p.act = .commit l → Current rt (ops p.who) p.noted p.before) →
      ∀ taskId, (trail taskId past).IsChain fun m m' => m'.1 = m.2) ∧
    ∀ i workspaceId taskId userId dto first last,
      ops i = .updateTask workspaceId taskId userId dto → σ.returned i = true → g i = [first, last] →
      (NothingToDo rt taskId dto last ↔ Current rt (ops i) (g i) last) := by
  have hstart : (Config.start db₀ fun i => (ops i).call rt).Kept (audited rt ops) fun _ => [] :=
    .start trivial fun i => call_kept
  obtain ⟨hkept, hpast⟩ := Booked.good (L := audited rt ops) hstart (fun _ _ _ _ _ => trivial) h
  refine ⟨fun p hp l hl => ?_, fun hcurrent taskId => (trail_chain h hpast hcurrent taskId).1, ?_⟩
  · rcases (hpast p hp).2 with ⟨_, hnot⟩ | hguar
    · exact absurd hl (hnot l)
    · rw [hl] at hguar
      exact hguar.described
  · intro i workspaceId taskId userId dto first last hop hdone hsaw
    exact nothingToDo_iff hop hsaw (hkept.returned hdone rfl)

end Runs

/-- A task and three columns for it. -/
def oneTask : Db where
  rows := [
    .user ⟨js "u", js "u@x", js "U", true, none, none, none⟩,
    .workspace ⟨js "w", js "W", js "w"⟩,
    .board ⟨js "b", js "w", js "B", none, 0⟩,
    .column ⟨js "c", js "b", js "C", 1000, none, .unstarted⟩,
    .column ⟨js "d", js "b", js "D", 2000, none, .started⟩,
    .column ⟨js "e", js "b", js "E", 3000, none, .completed⟩,
    .task ⟨js "t", js "b", js "c", js "T", none, .medium, 5, none, none, js "u", 0, 0⟩]
  nodup := by decide +kernel

/-- Two moves of the task, its renaming, and another colour for a column. -/
def edits : Fin 4 → EditOp
  | 0 => .moveTask (js "w") (js "t") (js "u") ⟨js "d", none, none⟩
  | 1 => .moveTask (js "w") (js "t") (js "u") ⟨js "e", none, none⟩
  | 2 => .updateTask (js "w") (js "t") (js "u") ⟨some (js "T2"), .absent, none, .absent, .absent⟩
  | 3 => .updateColumn (js "w") (js "c") (js "u") ⟨none, .value (js "red"), none⟩

theorem audit_trail_in_turn : ∃ (σ : Config kurul (Fin 4)) (g : Fin 4 → List Db)
    (past : List (Past kurul (Fin 4) (List Db))),
    Booked seen [] (fun _ _ _ _ => True)
      (Config.start oneTask fun i => (edits i).call .bare) σ g past ∧
    (∀ i, σ.returned i = true) ∧
    trail (js "t") past = [(some (js "c"), some (js "d")), (some (js "d"), some (js "e"))] ∧
    ∀ p ∈ past, ∀ l, p.act = .commit l →
      (Describes (edits p.who) p.before p.after ↔ Current .bare (edits p.who) p.noted p.before) := by
  have hgoes : ((Config.start (S := kurul) oneTask fun i => (edits i).call .bare).booked seen
      (0 : Instant) (fun _ _ _ _ => true) (List.replicate 15 (0, js "x") ++
        List.replicate 15 (1, js "y") ++ List.replicate 13 (2, js "z") ++
        List.replicate 9 (3, js "v")) (fun _ => []) []).any
        (fun (r : Config kurul (Fin 4) × (Fin 4 → List Db) × List (Past kurul (Fin 4) (List Db))) =>
          (∀ i, r.1.returned i = true) ∧ trail (js "t") r.2.2 =
            [(some (js "c"), some (js "d")), (some (js "d"), some (js "e"))]) = true := by
    decide +kernel
  obtain ⟨⟨σ, g, past⟩, hσ, hend⟩ := (Option.any_eq_true _ _).mp hgoes
  obtain ⟨hdone, htrail⟩ := of_decide_eq_true hend
  have hrun : Booked seen [] (fun _ _ _ _ => True) _ σ g past :=
    booked_of_schedule (fun _ _ _ _ _ => trivial) .refl hσ
  exact ⟨σ, g, past, hrun, hdone, htrail, (audit_trail .bare oneTask edits hrun).1⟩

/-- One move reads the task before the other has committed: both say it came out of the same column. -/
theorem moved_twice_from_one_column :
    ¬ ∀ (db₀ : Db) (ops : Fin 4 → EditOp) (σ : Config kurul (Fin 4)) (g : Fin 4 → List Db)
      (past : List (Past kurul (Fin 4) (List Db))),
      Booked seen [] (fun _ _ _ _ => True) (Config.start db₀ fun i => (ops i).call .bare) σ g past →
      (∀ p ∈ past, ∀ l, p.act = .commit l → Describes (ops p.who) p.before p.after) ∨
        ∀ taskId, (trail taskId past).IsChain fun m m' => m'.1 = m.2 := by
  intro h
  let commits : Act kurul → Bool := fun a =>
    match a with
    | .commit _ => true
    | _ => false
  have hgoes : ((Config.start (S := kurul) oneTask fun i => (edits i).call .bare).booked seen
      (0 : Instant) (fun _ _ _ _ => true) (List.replicate 2 (0, js "x") ++
        List.replicate 15 (1, js "y") ++ List.replicate 13 (0, js "x")) (fun _ => []) []).any
        (fun (r : Config kurul (Fin 4) × (Fin 4 → List Db) × List (Past kurul (Fin 4) (List Db))) =>
          trail (js "t") r.2.2 = [(some (js "c"), some (js "e")), (some (js "c"), some (js "d"))] ∧
          ∃ p ∈ r.2.2, p.who = 0 ∧ commits p.act = true ∧
            ∀ v ∈ newEntries p.before p.after,
              v.text "fromColumnId" ≠ columnOf (js "t") p.before) = true := by
    decide +kernel
  obtain ⟨⟨σ, g, past⟩, hσ, hend⟩ := (Option.any_eq_true _ _).mp hgoes
  obtain ⟨htrail, p, hp, hwho, hcommit, hnot⟩ := of_decide_eq_true hend
  have hrun : Booked seen [] (fun _ _ _ _ => True) _ σ g past :=
    booked_of_schedule (fun _ _ _ _ _ => trivial) .refl hσ
  rcases h oneTask edits σ g past hrun with hdescribes | hchain
  · cases hact : p.act with
    | commit l =>
      have hdescribed := hdescribes p hp l hact
      rw [hwho] at hdescribed
      obtain ⟨v, hentry, _, _, hfrom, _⟩ := hdescribed
      exact hnot v (by rw [hentry]; exact List.mem_cons_self) hfrom
    | _ =>
      rw [hact] at hcommit
      cases hcommit
  · have hstarts := hchain (js "t")
    rw [htrail, List.isChain_pair] at hstarts
    exact absurd hstarts (by decide)

end Audit
end Kurul
