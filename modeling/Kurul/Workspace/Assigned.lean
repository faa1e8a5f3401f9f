import Kurul.Db.Kept
import Kurul.Notification.DueSoon
import Kurul.Task.TaskAssignee
import Kurul.Workspace.Ownership

/-!
# Kurul.Workspace.Assigned

Who is assigned to a task and who is reminded of it, while people are put on tasks and taken off them,
and leave workspaces.

* `AssigneesAreMembers` — every assignee of a task is a member of its workspace.
* `DeletesAsAsked`      — what is assumed of the organization plugin.
* `Timely`              — the steps along which it is kept: nobody leaves between the lookup of their
  membership and the assignment, while still assigned, or between a scan's read and its insert.
* `only_members`        — along every run of such steps, the scans included.
-/

namespace Kurul

open Sql

/-! ## Members and assignees -/

def IsMember (db : Db) (workspaceId userId : Id) : Prop :=
  ∃ m ∈ rows WorkspaceMemberRow db, m.workspaceId = workspaceId ∧ m.userId = userId

/-- The user is assigned to a task of the workspace. -/
def Assigned (db : Db) (workspaceId userId : Id) : Prop :=
  ∃ a ∈ rows TaskAssigneeRow db, a.userId = userId ∧ onTaskOf db workspaceId a.taskId = true

def AssigneesAreMembers (db : Db) : Prop :=
  ∀ workspaceId userId, Assigned db workspaceId userId → IsMember db workspaceId userId

/-- What stays of the first state: tasks stay where they are, nobody joins, and every assignee is a
member. -/
structure Peopled (db₀ db : Db) : Prop where
  tasks : rows TaskRow db = rows TaskRow db₀
  boards : rows BoardRow db = rows BoardRow db₀
  members : ∀ m ∈ rows WorkspaceMemberRow db, m ∈ rows WorkspaceMemberRow db₀
  assigned : AssigneesAreMembers db

theorem onTaskOf_congr {db db' : Db} (ht : rows TaskRow db' = rows TaskRow db)
    (hb : rows BoardRow db' = rows BoardRow db) (workspaceId taskId : Id) :
    onTaskOf db' workspaceId taskId = onTaskOf db workspaceId taskId := by
  simp only [onTaskOf, onBoardOf, byId, ht, hb]

theorem assigned_congr {db db' : Db} (ht : rows TaskRow db' = rows TaskRow db)
    (hb : rows BoardRow db' = rows BoardRow db)
    (ha : ∀ a ∈ rows TaskAssigneeRow db', a ∈ rows TaskAssigneeRow db) {workspaceId userId : Id}
    (h : Assigned db' workspaceId userId) : Assigned db workspaceId userId := by
  obtain ⟨a, hmem, hu, hon⟩ := h
  exact ⟨a, ha a hmem, hu, by rwa [onTaskOf_congr ht hb] at hon⟩

/-- A task is in one workspace. -/
theorem onTaskOf_inj {db : Db} {workspaceId workspaceId' taskId : Id}
    (h : onTaskOf db workspaceId taskId = true) (h' : onTaskOf db workspaceId' taskId = true) :
    workspaceId = workspaceId' := by
  simp only [onTaskOf, onBoardOf, Option.any_eq_true, decide_eq_true_eq] at h h'
  obtain ⟨t, ht, b, hb, rfl⟩ := h
  obtain ⟨t', ht', b', hb', rfl⟩ := h'
  obtain rfl : t = t' := Option.some.inj (ht.symm.trans ht')
  obtain rfl : b = b' := Option.some.inj (hb.symm.trans hb')
  rfl

theorem onTaskOf_of_scope {db : Db} {workspaceId taskId : Id} {t : TaskRow}
    (h : (rows TaskRow db).find? (taskScope workspaceId taskId db) = some t) :
    t.id = taskId ∧ onTaskOf db workspaceId taskId = true := by
  have hp := List.find?_some h
  simp only [taskScope, Bool.and_eq_true, decide_eq_true_eq] at hp
  refine ⟨hp.1, ?_⟩
  rw [onTaskOf, byId_eq_some.mpr ⟨List.mem_of_find?_eq_some h, hp.1⟩]
  exact hp.2

section Writes

variable {db₀ db : Db} {departing : WorkspaceMemberRow → Prop}

/-- A write that puts nobody on a task, moves no task, and takes nobody out of a workspace but whom it
is to take out. -/
def Allowed (db : Db) (departing : WorkspaceMemberRow → Prop) (w : Write Key Row) : Prop :=
  (w.key.table ≠ .task ∧ w.key.table ≠ .board ∧ w.key.table ≠ .workspaceMember ∧
    (w.key.table = .taskAssignee → ∃ k, w = .del k)) ∨
  ∃ id, w = .del ⟨.workspaceMember, id⟩ ∧
    ∀ m ∈ rows WorkspaceMemberRow db, m.id = id → departing m

theorem assignees_apply {w : Write Key Row} (hw : w.key.table = .taskAssignee → ∃ k, w = .del k) :
    ∀ a ∈ rows TaskAssigneeRow (db.apply w), a ∈ rows TaskAssigneeRow db := by
  intro a ha
  by_cases htable : w.key.table = .taskAssignee
  · obtain ⟨k, rfl⟩ := hw htable
    obtain ⟨table, id⟩ := k
    obtain rfl : table = .taskAssignee := htable
    exact ((mem_rows_erase (R := TaskAssigneeRow)).mp ha).1
  · rwa [rows_apply_of_ne htable] at ha

theorem Allowed.mono {db' : Db} {w : Write Key Row} (hw : Allowed db departing w)
    (hm : ∀ m ∈ rows WorkspaceMemberRow db', m ∈ rows WorkspaceMemberRow db) :
    Allowed db' departing w := by
  rcases hw with hother | ⟨id, rfl, hid⟩
  · exact .inl hother
  · exact .inr ⟨id, rfl, fun m hm' => hid m (hm m hm')⟩

theorem Allowed.tables {w : Write Key Row} (hw : Allowed db departing w) :
    w.key.table ≠ .task ∧ w.key.table ≠ .board ∧
      (w.key.table = .taskAssignee → ∃ k, w = .del k) := by
  rcases hw with ⟨ht, hb, _, ha⟩ | ⟨id, rfl, _⟩
  · exact ⟨ht, hb, ha⟩
  · exact ⟨show Table.workspaceMember ≠ .task by decide,
      show Table.workspaceMember ≠ .board by decide, fun _ => ⟨_, rfl⟩⟩

/-- One such write, of somebody who is assigned to nothing there: nobody joins, or is assigned. -/
theorem Peopled.apply {w : Write Key Row} (h : Peopled db₀ db) (hw : Allowed db departing w)
    (hnot : ∀ m, departing m → ¬ Assigned db m.workspaceId m.userId) :
    Peopled db₀ (db.apply w) ∧
      (∀ m ∈ rows WorkspaceMemberRow (db.apply w), m ∈ rows WorkspaceMemberRow db) ∧
      ∀ workspaceId userId, Assigned (db.apply w) workspaceId userId →
        Assigned db workspaceId userId := by
  have ht : rows TaskRow (db.apply w) = rows TaskRow db := rows_apply_of_ne hw.tables.1
  have hb : rows BoardRow (db.apply w) = rows BoardRow db := rows_apply_of_ne hw.tables.2.1
  have hassigned : ∀ workspaceId userId, Assigned (db.apply w) workspaceId userId →
      Assigned db workspaceId userId :=
    fun _ _ => assigned_congr ht hb (assignees_apply hw.tables.2.2)
  rcases hw with ⟨_, _, hmember, _⟩ | ⟨id, rfl, hid⟩
  · have hms : rows WorkspaceMemberRow (db.apply w) = rows WorkspaceMemberRow db :=
      rows_apply_of_ne hmember
    refine ⟨⟨ht.trans h.tasks, hb.trans h.boards, hms ▸ h.members, ?_⟩, fun m hm => hms ▸ hm,
      hassigned⟩
    intro workspaceId userId ha
    obtain ⟨m, hm, hof⟩ := h.assigned _ _ (hassigned _ _ ha)
    exact ⟨m, hms ▸ hm, hof⟩
  · have hms : ∀ m, m ∈ rows WorkspaceMemberRow (db.erase ⟨.workspaceMember, id⟩) ↔
        m ∈ rows WorkspaceMemberRow db ∧ m.id ≠ id := fun m => mem_rows_erase (R := WorkspaceMemberRow)
    refine ⟨⟨ht.trans h.tasks, hb.trans h.boards, fun m hm => h.members m ((hms m).mp hm).1, ?_⟩,
      fun m hm => ((hms m).mp hm).1, hassigned⟩
    intro workspaceId userId ha
    obtain ⟨m, hm, hws, hu⟩ := h.assigned _ _ (hassigned _ _ ha)
    refine ⟨m, (hms m).mpr ⟨hm, fun heq => ?_⟩, hws, hu⟩
    -- the row that goes is this member's: then nobody is assigned for it
    refine hnot m (hid m hm heq) ?_
    rw [hws, hu]
    exact hassigned _ _ ha

theorem Peopled.applyAll {ws : List (Write Key Row)} :
    ∀ {db : Db}, Peopled db₀ db → (∀ w ∈ ws, Allowed db departing w) →
      (∀ m, departing m → ¬ Assigned db m.workspaceId m.userId) → Peopled db₀ (db.applyAll ws) := by
  induction ws with
  | nil => intro db h _ _; exact h
  | cons w ws ih =>
    intro db h hws hnot
    obtain ⟨happly, hms, hassigned⟩ := h.apply (hws w List.mem_cons_self) hnot
    exact ih happly (fun w' hw' => (hws w' (List.mem_cons_of_mem w hw')).mono hms)
      fun m hm ha => hnot m hm (hassigned _ _ ha)

/-- Writes that take nobody out of any workspace. -/
theorem Peopled.allowed {ws : List (Write Key Row)}
    (hws : ∀ w ∈ ws, Allowed db (fun _ => False) w) (h : Peopled db₀ db) :
    Peopled db₀ (db.applyAll ws) :=
  h.applyAll hws fun _ hm => hm.elim

/-- A member is put on a task. -/
theorem Peopled.assign {workspaceId : Id} {a : TaskAssigneeRow} (h : Peopled db₀ db)
    (hon : onTaskOf db₀ workspaceId a.taskId = true) (hm : IsMember db workspaceId a.userId) :
    Peopled db₀ (db.put (.taskAssignee a)) := by
  have ht : rows TaskRow (db.put (.taskAssignee a)) = rows TaskRow db :=
    rows_put_of_ne (show Table.taskAssignee ≠ .task by decide)
  have hb : rows BoardRow (db.put (.taskAssignee a)) = rows BoardRow db :=
    rows_put_of_ne (show Table.taskAssignee ≠ .board by decide)
  have hms : rows WorkspaceMemberRow (db.put (.taskAssignee a)) = rows WorkspaceMemberRow db :=
    rows_put_of_ne (show Table.taskAssignee ≠ .workspaceMember by decide)
  refine ⟨ht.trans h.tasks, hb.trans h.boards, hms ▸ h.members, fun workspaceId' userId ha => ?_⟩
  obtain ⟨a', ha', hu, hon'⟩ := ha
  rw [onTaskOf_congr ht hb] at hon'
  have hmember : IsMember db workspaceId' userId := by
    rcases mem_rows_put.mp ha' with rfl | ⟨hold, _⟩
    · rw [onTaskOf_congr h.tasks h.boards] at hon'
      rw [← onTaskOf_inj hon hon', ← hu]
      exact hm
    · exact h.assigned _ _ ⟨a', hold, hu, hon'⟩
  obtain ⟨m, hmem, hof⟩ := hmember
  exact ⟨m, hms ▸ hmem, hof⟩

theorem allowed_activity {a : ActivityRow} : Allowed db departing (.put (.activity a)) :=
  .inl ⟨show Table.activity ≠ .task by decide, show Table.activity ≠ .board by decide,
    show Table.activity ≠ .workspaceMember by decide,
    fun h => absurd (show Table.activity = .taskAssignee from h) (by decide)⟩

theorem allowed_notification {n : NotificationRow} :
    Allowed db departing (.put (.notification n)) :=
  .inl ⟨show Table.notification ≠ .task by decide, show Table.notification ≠ .board by decide,
    show Table.notification ≠ .workspaceMember by decide,
    fun h => absurd (show Table.notification = .taskAssignee from h) (by decide)⟩

end Writes

/-! ## What runs -/

open TaskAssigneeService WorkspaceMemberService

inductive StaffOp where
  | addAssignee (workspaceId taskId actorId : Id) (dto : AddAssigneeDto)
  | removeAssignee (workspaceId taskId actorId assigneeUserId : Id)
  | removeMember (workspaceId targetUserId : Id) (actor : WorkspaceMembership) (sessionUserId : Id)
  | leave (workspaceId : Id) (actor : WorkspaceMembership) (sessionUserId : Id)
  | runScan (pages : Nat)

def StaffOp.call (auth : OrganizationApi) : StaffOp → Call kurul Unit
  | .addAssignee workspaceId taskId actorId dto => do
    let _ ← TaskAssigneeService.addAssignee workspaceId taskId actorId dto
  | .removeAssignee workspaceId taskId actorId assigneeUserId => do
    let _ ← TaskAssigneeService.removeAssignee workspaceId taskId actorId assigneeUserId
  | .removeMember workspaceId targetUserId actor sessionUserId =>
    WorkspaceMemberService.removeMember auth workspaceId targetUserId actor sessionUserId
  | .leave workspaceId actor sessionUserId =>
    WorkspaceMemberService.leave auth workspaceId actor sessionUserId
  | .runScan pages => do
    let _ ← DueSoonWorker.runScan pages

/-- Where tasks are, who is assigned and who is told. -/
def staffTables : List Table := [.task, .board, .workspaceMember, .taskAssignee, .notification]

/-- A call that deletes no membership but one it is asked to delete, and has nothing to do with tasks,
assignments and notifications. -/
def DeletesOnly (asked : WorkspaceMemberRow → Prop) : Call kurul Unit → Prop
  | .ret _ => True
  | .throw _ => True
  | .stmt s k =>
    (∀ db e, s.eval db = .ok e → ∀ w ∈ e.writes,
      w.key.table ∉ staffTables ∨
        (s.label = .delete .workspaceMember ∧ ∃ id, w = .del ⟨.workspaceMember, id⟩ ∧
          ∀ m ∈ rows WorkspaceMemberRow db, m.id = id → asked m)) ∧
    ∀ r, DeletesOnly asked (k r)
  | .tx _ b k =>
    b.Writes (fun w : Write Key Row => w.key.table ∉ staffTables) ∧ ∀ r, DeletesOnly asked (k r)
  | .draw k => ∀ i, DeletesOnly asked (k i)
  | .clock k => ∀ t, DeletesOnly asked (k t)
  | .emit _ k => DeletesOnly asked k

/-- The plugin deletes the membership it is asked to delete. -/
structure DeletesAsAsked (auth : OrganizationApi) : Prop where
  removeMember : ∀ sessionUserId memberId organizationId,
    DeletesOnly (fun m => m.id = memberId)
      (auth.removeMember sessionUserId memberId organizationId)
  leaveOrganization : ∀ sessionUserId organizationId,
    DeletesOnly (fun m => m.workspaceId = organizationId ∧ m.userId = sessionUserId)
      (auth.leaveOrganization sessionUserId organizationId)

/-! ## When they may take their steps -/

/-- A reminder of the task that the user has not read. -/
def Reminded (db : Db) (taskId userId : Id) : Prop :=
  ∃ n ∈ rows NotificationRow db, n.type = .dueSoon ∧ n.readAt = none ∧ n.taskId = some taskId ∧
    n.userId = userId

/-- Everyone who was assigned to a task with a due date when a scan read its page, and was not reminded
of it yet, is a member now. -/
def StillMembers (page told db : Db) : Prop :=
  ∀ t ∈ rows TaskRow page, t.dueDate.isSome = true →
    ∀ b ∈ rows BoardRow page, b.id = t.boardId →
      ∀ userId ∈ DueSoonWorker.assigneesOf page t.id, ¬ Reminded told t.id userId →
        IsMember db b.workspaceId userId

/-- When an assignment commits the assignee is a member still; when a membership goes its user is
assigned to nothing in the workspace; when reminders are inserted those a scan has read of and found
not reminded are members still. -/
def Timely {ι : Type} (ops : ι → StaffOp) (i : ι) (saw : List Db) (a : Act kurul) (db : Db) : Prop :=
  match ops i, a with
  | .addAssignee workspaceId _ _ dto, .commit _ => IsMember db workspaceId dto.userId
  | .removeMember workspaceId targetUserId _ _, .exec (.delete .workspaceMember) =>
    ¬ Assigned db workspaceId targetUserId
  | .leave workspaceId _ sessionUserId, .exec (.delete .workspaceMember) =>
    ¬ Assigned db workspaceId sessionUserId
  | .runScan _, .exec (.insert .notification) =>
    ∀ page ∈ saw.dropLast.getLast?, ∀ told ∈ saw.getLast?, StillMembers page told db
  | _, _ => True

/-- Nobody but members is reminded. -/
def RemindsMembers (db db' : Db) : Prop :=
  ∀ n ∈ rows NotificationRow db', n ∉ rows NotificationRow db → IsMember db' n.workspaceId n.userId

/-- What is kept: from the first state on every assignee is a member, and a scan reminds members. -/
def staffed {ι : Type} (ops : ι → StaffOp) (db₀ : Db) : Sql.Ledger kurul ι (List Db) where
  note := seen
  Within _ _ := True
  Inv := Peopled db₀
  Cond := Timely ops
  Guar i _ _ db db' := ∀ pages, ops i = .runScan pages → RemindsMembers db db'
  Ends _ _ _ := True
  note_quiet := seen_quiet
  within_refl _ := trivial
  within_trans _ _ := trivial
  within_exec _ _ _ _ := trivial

section Kept

variable {ι α β : Type} {ops : ι → StaffOp} {db₀ : Db} {i : ι} {g : List Db}

/-- Rows that are neither notifications nor to do with who is where. -/
theorem commits_of_other {a : Act kurul} {db : Db} {ws : List (Write Key Row)}
    (h : Peopled db₀ db)
    (hws : ∀ w ∈ ws, w.key.table ∉ staffTables) :
    (staffed ops db₀).Commits i g a db (db.applyAll ws) := by
  refine ⟨h.allowed fun w hw => ?_, .inr fun pages _ n hn hnew => ?_⟩
  · have hnot := hws w hw
    simp only [staffTables, List.mem_cons, List.not_mem_nil, or_false, not_or] at hnot
    exact .inl ⟨hnot.1, hnot.2.1, hnot.2.2.1, fun heq => absurd heq hnot.2.2.2.1⟩
  · refine absurd ?_ hnew
    have htable : ∀ w ∈ ws, w.key.table ≠ Model.table NotificationRow :=
      fun w hw heq => hws w hw (by rw [heq]; decide)
    rwa [rows_applyAll_of_ne htable] at hn

/-- A session that is no scan answers for nothing. -/
theorem commits_of_peopled {a : Act kurul} {db db' : Db} (h : Peopled db₀ db')
    (hops : ∀ pages, ops i ≠ .runScan pages) : (staffed ops db₀).Commits i g a db db' :=
  ⟨h, .inr fun pages hpages => absurd hpages (hops pages)⟩

theorem record_kept {input : RecordActivityInput} {Q : ActivityRow → List Db → Prop}
    {E : ApiError → List Db → Prop} (hE : ∀ x g, E x g) (hQ : ∀ v g, Q v g) :
    (Call.auto (ActivityService.record input)).Kept (staffed ops db₀) i Q E g := by
  refine Kept_auto_record (fun x => hE x g) fun v db hinv _ _ => ⟨?_, hQ _ _⟩
  have hother : ∀ w ∈ [Write.put (Row.activity v)], w.key.table ∉ staffTables := by
    intro w hw
    rw [List.mem_singleton.mp hw]
    exact show Table.activity ∉ staffTables by decide
  exact commits_of_other hinv hother

theorem emitUpdated_kept {workspaceId taskId actorId : Id} {Q : TaskDto → List Db → Prop}
    {E : ApiError → List Db → Prop} (hE : ∀ x g, E x g) (hQ : ∀ d g, Q d g) :
    (TaskEventsService.emitUpdated workspaceId taskId actorId).Kept (staffed ops db₀) i Q E g := by
  rw [TaskEventsService.emitUpdated, Call.Kept_bind]
  exact Call.Kept_auto_read (TaskReadService.readOnly_findTask _ _) (fun found g db _ => hQ _ _) hE g

/-! ### Putting on a task and taking off it -/

variable {auth : OrganizationApi} {workspaceId taskId actorId : Id}

theorem addAssigneeBody_kept {dto : AddAssigneeDto} {task : TaskRow} {l : Label}
    {Q : Bool → List Db → Prop} (hop : ops i = .addAssignee workspaceId taskId actorId dto)
    (hon : onTaskOf db₀ workspaceId task.id = true) (hQ : ∀ b g, Q b g) {db : Db} :
    (addAssigneeBody workspaceId actorId task dto).Kept (staffed ops db₀) i
      (CommitKept (staffed ops db₀) i l Q) g .empty db := by
  have hscan : ∀ pages, ops i ≠ .runScan pages := by
    intro pages heq
    rw [hop] at heq
    cases heq
  simp only [addAssigneeBody, Tx.Kept_bind]
  intro id
  refine Kept_create fun db₁ _ _ => Kept_record fun v db₂ _ _ _ _ _ _ => ?_
  -- what is committed: the assignment, of somebody who is a member then, and rows beside it
  have hcommit : ∀ {g' : List Db} {db' : Db} (ws : List (Write Key Row)), Peopled db₀ db' →
      Timely ops i g' (.commit l) db' → (∀ db w, w ∈ ws → Allowed db (fun _ => False) w) →
      Peopled db₀ (((db'.put (.taskAssignee ⟨id, task.id, dto.userId⟩)).put (.activity v)).applyAll ws) := by
    intro g' db' ws hinv hc hws
    have hm : IsMember db' workspaceId dto.userId := by
      simp only [Timely, hop] at hc
      exact hc
    have hput : Peopled db₀ (db'.put (.taskAssignee ⟨id, task.id, dto.userId⟩)) :=
      hinv.assign hon hm
    have hlogged : Peopled db₀ ((db'.put (.taskAssignee ⟨id, task.id, dto.userId⟩)).applyAll
        [.put (.activity v)]) := by
      refine Peopled.allowed (fun w hw => ?_) hput
      rw [List.mem_singleton.mp hw]
      exact allowed_activity
    exact Peopled.allowed (hws _) hlogged
  simp only [NotificationService.createAssignment, NotificationService.create]
  split
  · intro db' hn
    refine ⟨commits_of_peopled ?_ hscan, hQ _ _⟩
    exact hcommit [] hn.2.1 hn.2.2 fun _ w hw => by cases hw
  · simp only [Tx.Kept_bind]
    intro id' now
    refine Kept_create fun db₃ _ _ db' hn => ⟨commits_of_peopled ?_ hscan, hQ _ _⟩
    refine hcommit [.put (.notification _)] hn.2.1 hn.2.2 fun _ w hw => ?_
    rw [List.mem_singleton.mp hw]
    exact allowed_notification

theorem emitEach_kept {Q : Unit → List Db → Prop} {E : ApiError → List Db → Prop} (hQ : ∀ g, Q () g)
    (userIds : List Id) :
    ∀ g, (NotificationService.emitEach workspaceId userIds).Kept (staffed ops db₀) i Q E g := by
  induction userIds with
  | nil => exact hQ
  | cons u rest ih => exact fun g db _ => ih _

theorem signalIf_kept {Q : Unit → List Db → Prop} {E : ApiError → List Db → Prop} (hQ : ∀ g, Q () g)
    (changed : Bool) (userId : Id) :
    (NotificationService.signalIf changed workspaceId userId).Kept (staffed ops db₀) i Q E g := by
  cases changed with
  | true => exact emitEach_kept hQ _ g
  | false => exact hQ g

theorem findTaskBasic_kept {Q : TaskRow → List Db → Prop} {E : ApiError → List Db → Prop}
    (hE : ∀ x g, E x g)
    (hQ : ∀ t g, t.id = taskId → onTaskOf db₀ workspaceId taskId = true → Q t g) :
    (Call.auto (TaskReadService.findTaskBasic workspaceId taskId)).Kept (staffed ops db₀) i Q E g := by
  rw [TaskReadService.findTaskBasic, findFirst, Call.auto_bind, Call.Kept_bind]
  refine Kept_auto_query (fun x => hE x g) fun db hinv _ => ?_
  refine Kept_auto_orThrow (hE _ _) fun t ht => ?_
  obtain ⟨hid, hon⟩ := onTaskOf_of_scope ht
  exact hQ _ _ hid (by rwa [onTaskOf_congr hinv.tasks hinv.boards] at hon)

theorem addAssignee_kept {dto : AddAssigneeDto}
    (hop : ops i = .addAssignee workspaceId taskId actorId dto) :
    ((StaffOp.addAssignee workspaceId taskId actorId dto).call auth).Kept (staffed ops db₀) i
      (fun _ _ => True) (fun _ _ => True) g := by
  simp only [StaffOp.call, addAssignee, addAssigneeChecks, Call.Kept_bind, Call.auto_bind]
  refine findTaskBasic_kept (fun _ _ => trivial) fun task g₁ hid hon => ?_
  refine Kept_auto_query (fun _ => trivial) fun db _ _ => ?_
  refine Kept_auto_orThrow trivial fun member _ => ?_
  show (conflictOnUniqueViolation _ _).Kept _ _ _ _ _
  rw [conflictOnUniqueViolation, Call.Kept_tryCatch]
  refine Call.Kept_transaction (fun x g₂ _ => ?_) fun db₁ _ => ?_
  · split <;> trivial
  · refine addAssigneeBody_kept hop (by rw [hid]; exact hon) fun notified g₂ => ?_
    exact signalIf_kept (fun g₃ => emitUpdated_kept (fun _ _ => trivial) fun _ _ => trivial) _ _

theorem removeAssigneeBody_kept {assigneeUserId : Id} {task : TaskRow} {l : Label}
    {Q : Unit → List Db → Prop} (hscan : ∀ pages, ops i ≠ .runScan pages) (hQ : ∀ b g, Q b g)
    {db : Db} :
    (removeAssigneeBody workspaceId taskId actorId assigneeUserId task).Kept (staffed ops db₀) i
      (CommitKept (staffed ops db₀) i l Q) g .empty db := by
  simp only [removeAssigneeBody, Tx.Kept_bind]
  refine Kept_deleteMany fun db₁ _ ws hws => Kept_throwIf fun _ => ?_
  refine Kept_record fun v db₂ _ _ _ _ _ _ db' hn => ⟨commits_of_peopled ?_ hscan, hQ _ _⟩
  have hclosed : ∀ (v : Row) (k : Key), (k, OnDelete.cascade) ∈ v.refs →
      decide (k.table = Table.taskAssignee) = true → decide (v.key.table = Table.taskAssignee) = true := by
    intro v k hr hk
    rw [decide_eq_true_eq] at hk
    cases v <;> simp only [Row.refs, List.mem_cons, List.mem_append, List.mem_map] at hr <;> grind
  have hallowed : ∀ w ∈ ws ++ [.put (.activity v)], Allowed db' (fun _ => False) w := by
    intro w hw
    rcases List.mem_append.mp hw with hw | hw
    · rcases mem_deletion_closed (T := fun t => decide (t = .taskAssignee)) hclosed rfl hws hw with
        ⟨k, hk, rfl⟩ | ⟨v', hv', rfl⟩
      · rw [decide_eq_true_eq] at hk
        exact .inl ⟨by simp [hk], by simp [hk], by simp [hk], fun _ => ⟨k, rfl⟩⟩
      · cases v' with
        | activity a => exact allowed_activity
        | notification n => exact allowed_notification
        | _ => simp [Row.key] at hv'
    · rw [List.mem_singleton.mp hw]
      exact allowed_activity
  exact Peopled.allowed hallowed hn.2.1

theorem removeAssignee_kept {assigneeUserId : Id}
    (hop : ops i = .removeAssignee workspaceId taskId actorId assigneeUserId) :
    ((StaffOp.removeAssignee workspaceId taskId actorId assigneeUserId).call auth).Kept
      (staffed ops db₀) i (fun _ _ => True) (fun _ _ => True) g := by
  have hscan : ∀ pages, ops i ≠ .runScan pages := by
    intro pages heq
    rw [hop] at heq
    cases heq
  simp only [StaffOp.call, removeAssignee, Call.Kept_bind]
  refine findTaskBasic_kept (fun _ _ => trivial) fun task g₁ _ _ => ?_
  refine Call.Kept_transaction (fun _ _ _ => trivial) fun db _ => ?_
  refine removeAssigneeBody_kept hscan fun _ g₂ => ?_
  exact emitUpdated_kept (fun _ _ => trivial) fun _ _ => trivial

/-! ### Leaving -/

/-- A call of the plugin, by a session whose user to go is assigned to nothing there when it
deletes. -/
theorem deletes_kept {asked : WorkspaceMemberRow → Prop} {Q : Unit → List Db → Prop}
    {E : ApiError → List Db → Prop} (hscan : ∀ pages, ops i ≠ .runScan pages)
    (hnot : ∀ saw db, Timely ops i saw (.exec (.delete .workspaceMember)) db →
      ∀ m ∈ rows WorkspaceMemberRow db₀, asked m → ¬ Assigned db m.workspaceId m.userId)
    (hQ : ∀ b g, Q b g) (hE : ∀ x g, E x g) {c : Call kurul Unit} (hc : DeletesOnly asked c) :
    ∀ g, c.Kept (staffed ops db₀) i Q E g := by
  induction c with
  | ret b => exact hQ b
  | throw e => exact hE e
  | stmt s k ih =>
    refine fun g => ⟨fun db hinv hcond e he => ⟨?_, ih _ (hc.2 _) _⟩, fun x => ih _ (hc.2 _) _⟩
    refine commits_of_peopled ?_ hscan
    have hwrites := hc.1 db e he
    have hother : ∀ w ∈ e.writes, w.key.table ∉ staffTables → ∀ departing, Allowed db departing w := by
      intro w _ htable departing
      simp only [staffTables, List.mem_cons, List.not_mem_nil, or_false, not_or] at htable
      exact .inl ⟨htable.1, htable.2.1, htable.2.2.1, fun heq => absurd heq htable.2.2.2.1⟩
    by_cases hl : s.label = .delete .workspaceMember
    · have hallowed : ∀ w ∈ e.writes,
          Allowed db (fun m => m ∈ rows WorkspaceMemberRow db₀ ∧ asked m) w := by
        intro w hw
        rcases hwrites w hw with htable | ⟨_, id, rfl, hid⟩
        · exact hother w hw htable _
        · exact .inr ⟨id, rfl, fun m hm heq => ⟨hinv.members m hm, hid m hm heq⟩⟩
      refine Peopled.applyAll hinv hallowed fun m hm => hnot g db ?_ m hm.1 hm.2
      rw [← hl]
      exact hcond
    · refine Peopled.allowed (fun w hw => ?_) hinv
      rcases hwrites w hw with htable | ⟨hlabel, _⟩
      · exact hother w hw htable _
      · exact absurd hlabel hl
  | tx l b k ih =>
    refine fun g => ⟨fun db _ => ?_, fun x g' _ => ih _ (hc.2 _) _⟩
    refine hc.1.kept (fun r g' own db₁ hown db' hn => ⟨?_, ih _ (hc.2 _) _⟩) fun w hw => by cases hw
    exact commits_of_other hn.2.1 hown
  | draw k ih => exact fun g x => ih x (hc x) g
  | clock k ih => exact fun g t => ih t (hc t) g
  | emit e k ih => exact fun g db _ => ih hc _

theorem memberWrite_kept {asked : WorkspaceMemberRow → Prop} {message lastOwnerMessage : JsString}
    {Q : Unit → List Db → Prop} (hscan : ∀ pages, ops i ≠ .runScan pages)
    (hnot : ∀ saw db, Timely ops i saw (.exec (.delete .workspaceMember)) db →
      ∀ m ∈ rows WorkspaceMemberRow db₀, asked m → ¬ Assigned db m.workspaceId m.userId)
    (hQ : ∀ b g, Q b g) {c : Call kurul Unit} (hc : DeletesOnly asked c) :
    (memberWrite c message lastOwnerMessage).Kept (staffed ops db₀) i Q (fun _ _ => True) g := by
  rw [memberWrite, Call.Kept_tryCatch]
  exact deletes_kept hscan hnot hQ (fun _ _ => trivial) hc g

theorem requireMember_kept {userId : Id} {Q : MemberRow → List Db → Prop}
    (hQ : ∀ target g, (∃ m ∈ rows WorkspaceMemberRow db₀, m.id = target.id ∧
      m.workspaceId = workspaceId ∧ m.userId = userId) → Q target g) :
    (Call.auto (requireMember workspaceId userId)).Kept (staffed ops db₀) i Q (fun _ _ => True) g := by
  rw [requireMember, Call.auto_bind, Call.Kept_bind]
  refine Kept_auto_query (fun _ => trivial) fun db hinv _ => ?_
  refine Kept_auto_orThrow trivial fun target htarget => hQ _ _ ?_
  simp only [findMember, Option.bind_eq_bind, Option.bind_eq_some_iff] at htarget
  obtain ⟨m, hm, user, _, htarget⟩ := htarget
  obtain rfl := Option.some.inj htarget
  exact ⟨m, hinv.members m (List.mem_of_find?_eq_some hm), rfl,
    memberWhere_iff.mp (List.find?_some hm)⟩

theorem removeMember_kept (hauth : DeletesAsAsked auth) {targetUserId sessionUserId : Id}
    {actor : WorkspaceMembership}
    (hop : ops i = .removeMember workspaceId targetUserId actor sessionUserId) :
    ((StaffOp.removeMember workspaceId targetUserId actor sessionUserId).call auth).Kept
      (staffed ops db₀) i (fun _ _ => True) (fun _ _ => True) g := by
  have hscan : ∀ pages, ops i ≠ .runScan pages := by
    intro pages heq
    rw [hop] at heq
    cases heq
  simp only [StaffOp.call, WorkspaceMemberService.removeMember, removeMemberWrite, Call.Kept_bind,
    Call.auto_bind]
  refine Kept_auto_throwIf trivial fun _ => requireMember_kept fun target g₁ hm => ?_
  obtain ⟨m, hmem, hid, hws, hu⟩ := hm
  refine Call.Kept_auto_read readOnly_removalGuard (fun _ g₂ => ?_) (fun _ _ => trivial) g₁
  refine memberWrite_kept hscan (fun saw db hc m' hm' hid' => ?_) (fun _ g₃ => ?_)
    (hauth.removeMember _ _ _)
  · -- the row under the id that was read is the target's
    obtain rfl : m' = m := eq_of_id hm' hmem (hid'.trans hid.symm)
    simp only [Timely, hop] at hc
    rw [hws, hu]
    exact hc
  · exact record_kept (fun _ _ => trivial) fun _ _ => trivial

theorem leave_kept (hauth : DeletesAsAsked auth) {sessionUserId : Id} {actor : WorkspaceMembership}
    (hop : ops i = .leave workspaceId actor sessionUserId) :
    ((StaffOp.leave workspaceId actor sessionUserId).call auth).Kept (staffed ops db₀) i
      (fun _ _ => True) (fun _ _ => True) g := by
  have hscan : ∀ pages, ops i ≠ .runScan pages := by
    intro pages heq
    rw [hop] at heq
    cases heq
  simp only [StaffOp.call, WorkspaceMemberService.leave, leaveWrite, Call.Kept_bind, Call.auto_bind]
  refine requireMember_kept fun membership g₁ _ => ?_
  refine Call.Kept_auto_read readOnly_departureGuard (fun _ g₂ => ?_) (fun _ _ => trivial) g₁
  refine memberWrite_kept hscan (fun saw db hc m hm hasked => ?_) (fun _ g₃ => ?_)
    (hauth.leaveOrganization _ _)
  · simp only [Timely, hop] at hc
    rw [hasked.1, hasked.2]
    exact hc
  · exact record_kept (fun _ _ => trivial) fun _ _ _ _ => trivial

/-! ### Reminding -/

open DueSoonWorker

theorem insertReminders_kept {pages : Nat} {page told : Db} {reminders : List Reminder}
    {Q : Batch → List Db → Prop} (hop : ops i = .runScan pages)
    (hpage : g.dropLast.getLast? = some page) (htold : g.getLast? = some told)
    (hremind : ∀ db, StillMembers page told db → ∀ r ∈ reminders, IsMember db r.workspaceId r.userId)
    (hQ : ∀ b g, Q b g) :
    (insertReminders reminders).Kept (staffed ops db₀) i Q (fun _ _ => True) g := by
  simp only [insertReminders]
  split
  · exact hQ _ _
  · simp only [Call.Kept_bind, Call.auto_bind]
    intro now
    refine Kept_auto_withIds fun data hdata => ?_
    rw [createManySkipping, Call.auto_exec]
    refine Call.Kept_exec (fun _ => trivial) fun db hinv hc e he => ⟨⟨?_, .inr ?_⟩, ?_⟩
    · obtain ⟨kept, _, _, hwrites⟩ := eval_createManySkipping he
      refine Peopled.allowed (fun w hw => ?_) hinv
      rw [hwrites] at hw
      obtain ⟨n, _, rfl⟩ := List.mem_map.mp hw
      exact allowed_notification
    · obtain ⟨kept, hkept, _, hwrites⟩ := eval_createManySkipping he
      intro _ _ n hn hnew
      -- a new row is one of those to remind, who are members still
      have hput := (mem_rows_applyAll hn).resolve_right hnew
      rw [hwrites] at hput
      obtain ⟨n', hn', heq⟩ := List.mem_map.mp hput
      obtain rfl : n' = n := row_injective (Write.put.inj heq)
      obtain ⟨id, r, hr, rfl⟩ := hdata _ (mem_of_insertable hkept _ hn')
      simp only [staffed, Timely, hop] at hc
      obtain ⟨m, hm, hof⟩ := hremind db (hc page hpage told htold) r hr
      refine ⟨m, ?_, hof⟩
      have htable : ∀ w ∈ e.writes, w.key.table ≠ Model.table WorkspaceMemberRow := by
        intro w hw
        rw [hwrites] at hw
        obtain ⟨n, _, rfl⟩ := List.mem_map.mp hw
        exact show Table.notification ≠ .workspaceMember by decide
      rwa [rows_applyAll_of_ne htable]
    · split <;> exact hQ _ _

theorem notifyBatch_kept {pages : Nat} {now till since : Instant} {cursor : Option Cursor} {page : Db}
    {Q : Batch → List Db → Prop} (hop : ops i = .runScan pages) (hQ : ∀ b g, Q b g) :
    (notifyBatch (scanPage now till cursor page) since).Kept (staffed ops db₀) i Q (fun _ _ => True)
      (g ++ [page]) := by
  simp only [notifyBatch]
  split
  · exact hQ _ _
  · rw [Call.Kept_bind]
    refine Kept_auto_query (fun _ => trivial) fun told _ _ => ?_
    have hpage : (g ++ [page] ++ [told]).dropLast.getLast? = some page := by simp
    have htold : (g ++ [page] ++ [told]).getLast? = some told := by simp
    refine insertReminders_kept hop hpage htold (fun db hstill r hr => ?_) hQ
    obtain ⟨task, htask, hr⟩ := List.mem_flatMap.mp hr
    obtain ⟨hws, _, hu, hskip⟩ := mem_remindersOf hr
    obtain ⟨t, ht, hdue, hid, hdue', hassignees, b, hb, hbid, hbws⟩ := mem_scanPage htask
    rw [hws, ← hbws]
    refine hstill t ht hdue b hb hbid _ (hassignees ▸ hu) fun hreminded => hskip ?_
    obtain ⟨n, hn, htype, hread, htaskId, huser⟩ := hreminded
    rw [← huser]
    exact mem_alreadyNotified htask (by rw [hdue', hdue]) (huser ▸ hu) hn htype hread
      (by rw [htaskId, hid])

theorem scanPages_kept {pages : Nat} {now till since : Instant} {Q : Nat × Recipients → List Db → Prop}
    (hop : ops i = .runScan pages) (hQ : ∀ b g, Q b g) (left : Nat) :
    ∀ cursor total recipients g, (scanPages now till since left cursor total recipients).Kept
      (staffed ops db₀) i Q (fun _ _ => True) g := by
  induction left with
  | zero => exact fun _ _ _ _ => trivial
  | succ left ih =>
    intro cursor total recipients g
    rw [scanPages, Call.Kept_bind]
    refine Kept_auto_query (fun _ => trivial) fun page _ _ => ?_
    split
    · exact hQ _ _
    · rw [Call.Kept_bind]
      refine notifyBatch_kept hop fun batch g' => ?_
      split
      · exact hQ _ _
      · split
        · exact hQ _ _
        · exact ih _ _ _ _

theorem emitRecipients_kept {Q : Unit → List Db → Prop} {E : ApiError → List Db → Prop}
    (hQ : ∀ g, Q () g) (recipients : List (Id × List Id)) :
    ∀ g, (emitRecipients recipients).Kept (staffed ops db₀) i Q E g := by
  induction recipients with
  | nil => exact hQ
  | cons r rest ih =>
    intro g
    rw [emitRecipients, Call.Kept_bind]
    exact emitEach_kept ih _ g

theorem runScan_kept {pages : Nat} (hop : ops i = .runScan pages) :
    ((StaffOp.runScan pages).call auth).Kept (staffed ops db₀) i (fun _ _ => True) (fun _ _ => True)
      g := by
  simp only [StaffOp.call, runScan, Call.Kept_bind]
  intro now
  refine scanPages_kept hop (fun done g₁ => ?_) _ _ _ _ _
  exact emitRecipients_kept (fun _ => trivial) _ _

theorem call_kept (hauth : DeletesAsAsked auth) :
    ((ops i).call auth).Kept (staffed ops db₀) i (fun _ _ => True) (fun _ _ => True) g := by
  cases hop : ops i with
  | addAssignee workspaceId taskId actorId dto => exact addAssignee_kept hop
  | removeAssignee workspaceId taskId actorId assigneeUserId => exact removeAssignee_kept hop
  | removeMember workspaceId targetUserId actor sessionUserId => exact removeMember_kept hauth hop
  | leave workspaceId actor sessionUserId => exact leave_kept hauth hop
  | runScan pages => exact runScan_kept hop

end Kept

/-- Along every run whose steps are timely, every assignee is a member of the workspace of the task,
and a scan reminds nobody else. -/
theorem only_members {ι : Type} [DecidableEq ι] {auth : OrganizationApi}
    (hauth : DeletesAsAsked auth) {db₀ : Db} (h₀ : AssigneesAreMembers db₀) (ops : ι → StaffOp)
    {σ : Config kurul ι} {g : ι → List Db} {past : List (Past kurul ι (List Db))}
    (h : Booked seen [] (Timely ops) (Config.start db₀ fun i => (ops i).call auth) σ g past) :
    AssigneesAreMembers σ.db ∧
      ∀ p ∈ past, ∀ pages, ops p.who = .runScan pages → RemindsMembers p.before p.after := by
  have hstart : (Config.start db₀ fun i => (ops i).call auth).Kept (staffed ops db₀) fun _ => [] :=
    .start ⟨rfl, rfl, fun _ hm => hm, h₀⟩ fun i => call_kept hauth
  obtain ⟨hkept, hpast⟩ := Booked.good (L := staffed ops db₀) hstart (fun _ _ _ _ hc => hc) h
  refine ⟨hkept.inv.assigned, fun p hp pages hop => ?_⟩
  rcases (hpast p hp).2 with ⟨heq, _⟩ | hguar
  · rw [heq]
    exact fun n hn hnew => absurd hn hnew
  · exact hguar pages hop

theorem plainPlugin_deletes : DeletesAsAsked plainPlugin where
  removeMember _ memberId _ := by
    refine ⟨fun db e he w hw => .inr ⟨rfl, memberId, ?_, fun m _ hid => hid⟩, fun r => ?_⟩
    · rw [← Except.ok.inj he, List.mem_singleton] at hw
      exact hw
    · cases r <;> trivial
  leaveOrganization sessionUserId organizationId := by
    refine ⟨fun db e he w hw => ?_, fun r => by cases r <;> trivial⟩
    simp only at he
    split at he
    · cases he
    · rename_i m hfound
      rw [← Except.ok.inj he, List.mem_singleton] at hw
      refine .inr ⟨rfl, m.id, hw, fun m' hm' hid => ?_⟩
      obtain rfl : m' = m := eq_of_id hm' (List.mem_of_find?_eq_some hfound) hid
      exact memberWhere_iff.mp (List.find?_some hfound)

/-- An owner and a member, and a task due in an hour. -/
def dueTaskRows : List Row := [
  .user ⟨js "ada", js "ada@example.org", js "Ada", true, none, none, none⟩,
  .user ⟨js "bo", js "bo@example.org", js "Bo", true, none, none, none⟩,
  .workspace ⟨js "w", js "Workspace", js "workspace"⟩,
  .workspaceMember ⟨js "m", js "w", js "ada", .owner⟩,
  .workspaceMember ⟨js "n", js "w", js "bo", .member⟩,
  .board ⟨js "b", js "w", js "Board", none, 0⟩,
  .column ⟨js "c", js "b", js "To do", 1000, none, .unstarted⟩,
  .task ⟨js "t", js "b", js "c", js "Task", none, .medium, 5, some 3600000, none, js "ada", 0, 0⟩]

theorem dueTaskRows_nodup : (dueTaskRows.map Keyed.key).Nodup := by decide +kernel

def dueTask : Db := ⟨dueTaskRows, dueTaskRows_nodup⟩

def ada : WorkspaceMembership := ⟨js "m", js "w", js "ada", .owner⟩

/-- The member is assigned, reminded, taken off the task, and removed. -/
def comeAndGo : Fin 4 → StaffOp
  | 0 => .addAssignee (js "w") (js "t") (js "ada") ⟨js "bo"⟩
  | 1 => .runScan 1
  | 2 => .removeAssignee (js "w") (js "t") (js "ada") (js "bo")
  | 3 => .removeMember (js "w") (js "bo") ada (js "ada")

instance (db : Db) (workspaceId userId : Id) : Decidable (IsMember db workspaceId userId) :=
  inferInstanceAs (Decidable (∃ m ∈ rows WorkspaceMemberRow db, _))

instance (db : Db) (workspaceId userId : Id) : Decidable (Assigned db workspaceId userId) :=
  inferInstanceAs (Decidable (∃ a ∈ rows TaskAssigneeRow db, _))

instance (db : Db) (taskId userId : Id) : Decidable (Reminded db taskId userId) :=
  inferInstanceAs (Decidable (∃ n ∈ rows NotificationRow db, _))

instance (page told db : Db) : Decidable (StillMembers page told db) :=
  inferInstanceAs (Decidable (∀ t ∈ rows TaskRow page, _))

/-- The assignment commits while the member is one, the reminder goes to those who still are, and the
member is removed when no longer assigned. -/
def inTime (i : Fin 4) (saw : List Db) (a : Act kurul) (db : Db) : Bool :=
  match i, a with
  | 0, .commit _ => decide (IsMember db (js "w") (js "bo"))
  | 1, .exec (.insert .notification) => saw.dropLast.getLast?.all fun page =>
      saw.getLast?.all fun told => decide (StillMembers page told db)
  | 3, .exec (.delete .workspaceMember) => !decide (Assigned db (js "w") (js "bo"))
  | _, _ => true

theorem timely_of_inTime (i : Fin 4) (saw : List Db) (a : Act kurul) (db : Db)
    (h : inTime i saw a db = true) : Timely comeAndGo i saw a db := by
  match i with
  | 0 =>
    cases a with
    | commit l =>
      have hm : IsMember db (js "w") (js "bo") := of_decide_eq_true h
      exact hm
    | _ => trivial
  | 1 =>
    cases a with
    | exec l =>
      cases l with
      | insert table =>
        cases table with
        | notification =>
          intro page hpage told htold
          have h : (saw.dropLast.getLast?.all fun page =>
            saw.getLast?.all fun told => decide (StillMembers page told db)) = true := h
          rw [Option.mem_def.mp hpage, Option.all_some, Option.mem_def.mp htold,
            Option.all_some] at h
          exact of_decide_eq_true h
        | _ => trivial
      | _ => trivial
    | _ => trivial
  | 2 => trivial
  | 3 =>
    cases a with
    | exec l =>
      cases l with
      | delete table =>
        cases table with
        | workspaceMember =>
          have h : (!decide (Assigned db (js "w") (js "bo"))) = true := h
          rw [Bool.not_eq_true'] at h
          exact of_decide_eq_false h
        | _ => trivial
      | _ => trivial
    | _ => trivial

theorem dueTask_assignees : AssigneesAreMembers dueTask := by
  intro workspaceId userId h
  obtain ⟨a, ha, _⟩ := h
  have hnone : rows TaskAssigneeRow dueTask = [] := rfl
  rw [hnone] at ha
  cases ha

theorem only_members_come_and_go : ∃ (σ : Config kurul (Fin 4)) (g : Fin 4 → List Db)
    (past : List (Past kurul (Fin 4) (List Db))),
    Booked seen [] (Timely comeAndGo)
      (Config.start dueTask fun i => (comeAndGo i).call plainPlugin) σ g past ∧
    (∀ i, σ.returned i = true) ∧ (rows NotificationRow σ.db).length = 2 ∧ AssigneesAreMembers σ.db ∧
      ∀ p ∈ past, ∀ pages, comeAndGo p.who = .runScan pages → RemindsMembers p.before p.after := by
  have hgoes : ((Config.start (S := kurul) dueTask fun i => (comeAndGo i).call plainPlugin).booked seen
      (0 : Instant) inTime (List.replicate 16 (0, js "x") ++ List.replicate 7 (1, js "y") ++
        List.replicate 10 (2, js "z") ++ List.replicate 5 (3, js "v")) (fun _ => []) []).any
        (fun r => (∀ i, r.1.returned i = true) ∧ (rows NotificationRow r.1.db).length = 2) = true := by
    decide +kernel
  obtain ⟨⟨σ, g, past⟩, hσ, hend⟩ := (Option.any_eq_true _ _).mp hgoes
  obtain ⟨hdone, hlength⟩ := of_decide_eq_true hend
  have hrun := booked_of_schedule timely_of_inTime .refl hσ
  exact ⟨σ, g, past, hrun, hdone, hlength, only_members plainPlugin_deletes dueTask_assignees comeAndGo hrun⟩

/-- A member is removed who is assigned to a task, and is reminded of it afterwards. -/
theorem removed_and_assigned :
    ¬ ∀ (db₀ : Db) (ops : Fin 4 → StaffOp) (σ : Config kurul (Fin 4)) (g : Fin 4 → List Db)
      (past : List (Past kurul (Fin 4) (List Db))), AssigneesAreMembers db₀ →
      Booked seen [] (fun _ _ _ _ => True)
        (Config.start db₀ fun i => (ops i).call plainPlugin) σ g past →
      AssigneesAreMembers σ.db ∨
        ∀ n ∈ rows NotificationRow σ.db, IsMember σ.db n.workspaceId n.userId := by
  intro h
  have hgoes : ((Config.start (S := kurul) dueTask fun i => (comeAndGo i).call plainPlugin).booked seen
      (0 : Instant) (fun _ _ _ _ => true) (List.replicate 16 (0, js "x") ++
        List.replicate 5 (3, js "v") ++ List.replicate 7 (1, js "y")) (fun _ => []) []).any
        (fun (r : Config kurul (Fin 4) × (Fin 4 → List Db) × List (Past kurul (Fin 4) (List Db))) =>
          decide (Assigned r.1.db (js "w") (js "bo") ∧ ¬ IsMember r.1.db (js "w") (js "bo") ∧
            ∃ n ∈ rows NotificationRow r.1.db, ¬ IsMember r.1.db n.workspaceId n.userId)) = true := by
    decide +kernel
  obtain ⟨⟨σ, g, past⟩, hσ, hend⟩ := (Option.any_eq_true _ _).mp hgoes
  obtain ⟨hassigned, hnot, n, hn, hout⟩ := of_decide_eq_true hend
  have hrun : Booked seen [] (fun _ _ _ _ => True) _ σ g past :=
    booked_of_schedule (fun _ _ _ _ _ => trivial) .refl hσ
  rcases h dueTask comeAndGo σ g past dueTask_assignees hrun with hmembers | hreminded
  · exact hnot (hmembers _ _ hassigned)
  · exact hout (hreminded n hn)

end Kurul
