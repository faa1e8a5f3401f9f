import Kurul.Board.BoardService
import Kurul.Board.ColumnService
import Kurul.Comment.CommentService
import Kurul.Notification.DueSoon
import Kurul.Notification.Unread
import Kurul.Task.TaskAssignee
import Kurul.Task.TaskService

/-!
# Kurul.Notification.Announced

Whether everybody hears of a change of their number of unread notifications, while people are assigned,
mentioned and reminded, read what they were sent, and tasks, columns and boards are removed.

* `TakesNothingUnread` — a `DELETE` is run while no unread notification is about a task that goes with
  it.
* `announcing`         — a call owes a signal to whoever's number it moves.
* `unread_announced`   — along every run of such steps a call that has ended has sent its signals, if
  no scan has failed after an insert.
-/

namespace Kurul
namespace Announced

open Sql NotificationService

inductive UnreadOp where
  | addAssignee (workspaceId taskId actorId : Id) (dto : TaskAssigneeService.AddAssigneeDto)
  | createComment (workspaceId taskId userId : Id) (dto : CreateCommentDto)
  /-- One attempt at a scan; a retry is another. -/
  | runScan (pages : Nat)
  | markRead (workspaceId userId notificationId : Id)
  | markAllRead (workspaceId userId : Id)
  | removeTask (workspaceId taskId userId : Id)
  | removeColumn (workspaceId columnId actorId : Id)
  | removeBoard (workspaceId boardId actorId : Id)

def UnreadOp.call : UnreadOp → Call kurul Unit
  | .addAssignee workspaceId taskId actorId dto => do
    let _ ← TaskAssigneeService.addAssignee workspaceId taskId actorId dto
  | .createComment workspaceId taskId userId dto => do
    let _ ← CommentService.create workspaceId taskId userId dto
  | .runScan pages => do
    let _ ← DueSoonWorker.runScan pages
  | .markRead workspaceId userId notificationId => do
    let _ ← NotificationService.markRead workspaceId userId notificationId
  | .markAllRead workspaceId userId => do
    let _ ← NotificationService.markAllRead workspaceId userId
  | .removeTask workspaceId taskId userId => TaskService.remove workspaceId taskId userId
  | .removeColumn workspaceId columnId actorId => ColumnService.remove workspaceId columnId actorId
  | .removeBoard workspaceId boardId actorId => BoardService.remove workspaceId boardId actorId

/-! ## What goes with a removed row -/

/-- The row an operation removes. -/
def UnreadOp.target : UnreadOp → Option Key
  | .removeTask _ taskId _ => some ⟨.task, taskId⟩
  | .removeColumn _ columnId _ => some ⟨.column, columnId⟩
  | .removeBoard _ boardId _ => some ⟨.board, boardId⟩
  | _ => none

def ColumnGoes (target : Key) (db : Db) (columnId : Id) : Prop :=
  target = ⟨.column, columnId⟩ ∨
    ∃ c ∈ rows ColumnRow db, c.id = columnId ∧ target = ⟨.board, c.boardId⟩

def TaskGoes (target : Key) (db : Db) (taskId : Id) : Prop :=
  target = ⟨.task, taskId⟩ ∨ ∃ t ∈ rows TaskRow db, t.id = taskId ∧
    (target = ⟨.board, t.boardId⟩ ∨ ColumnGoes target db t.columnId)

/-- No unread notification is about a task that goes. -/
def NothingUnreadGoes (target : Key) (db : Db) : Prop :=
  ∀ n ∈ rows NotificationRow db, n.readAt = none → ∀ t, n.taskId = some t → ¬ TaskGoes target db t

/-- No unread notification goes with what a `DELETE` removes. -/
def TakesNothingUnread {ι : Type} (ops : ι → UnreadOp) (i : ι) (_ : List (Id × Id)) (a : Act kurul)
    (db : Db) : Prop :=
  match a with
  | .exec (.delete _) => ∀ target, (ops i).target = some target → NothingUnreadGoes target db
  | _ => True

/-- Who is told by an event. -/
def told : Event → Option (Id × Id)
  | .toUser workspaceId userId => some (workspaceId, userId)
  | _ => none

/-- Who is told by a step. -/
def signalled : Act kurul → Option (Id × Id)
  | .publish e => told e
  | _ => none

/-- A signal is owed to whoever's number has moved. A scan that fails may owe some. -/
def announcing {ι : Type} (ops : ι → UnreadOp) : Debts kurul ι (Id × Id) where
  incurs := changed
  pays := told
  Cond := TakesNothingUnread ops
  Excused i r := r.isSome = true ∧ ∃ pages, ops i = .runScan pages
  incurs_self := changed_self

/-- The keys a `DELETE` can reach from a task, a column or a board. -/
def Reached (target : Key) (db : Db) (k : Key) : Prop :=
  match k.table with
  | .board => target = k
  | .column => ColumnGoes target db k.id
  | .task => TaskGoes target db k.id
  | .notification => ∃ n ∈ rows NotificationRow db, n.id = k.id ∧ ∃ t, n.taskId = some t ∧
      TaskGoes target db t
  | .user | .workspace | .activity => False
  | _ => True

theorem reached_closed {target : Key} {db : Db} {v : Row} (hv : v ∈ db.rows) {k : Key}
    (hr : (k, OnDelete.cascade) ∈ v.refs) (hk : Reached target db k) : Reached target db v.key := by
  cases v with
  | user u => cases hr
  | workspace w => cases hr
  | board b =>
    simp only [Row.refs, List.mem_singleton, Prod.mk.injEq, and_true] at hr
    subst hr
    cases hk
  | activity a =>
    simp only [Row.refs, List.mem_cons, List.mem_map, Prod.mk.injEq, and_true, reduceCtorEq,
      and_false, exists_false, or_false] at hr
    subst hr
    cases hk
  | column c =>
    simp only [Row.refs, List.mem_singleton, Prod.mk.injEq, and_true] at hr
    subst hr
    exact .inr ⟨c, mem_rows.mpr hv, rfl, hk⟩
  | task t =>
    simp only [Row.refs, List.mem_cons, Prod.mk.injEq, and_true, reduceCtorEq, and_false, or_false,
      List.not_mem_nil] at hr
    rcases hr with rfl | rfl
    · exact .inr ⟨t, mem_rows.mpr hv, rfl, .inl hk⟩
    · exact .inr ⟨t, mem_rows.mpr hv, rfl, .inr hk⟩
  | notification n =>
    simp only [Row.refs, List.mem_cons, List.mem_append, List.mem_map, Prod.mk.injEq, and_true,
      reduceCtorEq, and_false, exists_false, or_false, Option.mem_toList] at hr
    rcases hr with (rfl | rfl | ⟨t, ht, rfl⟩)
    · cases hk
    · cases hk
    · exact ⟨n, mem_rows.mpr hv, rfl, t, ht, hk⟩
  | _ => trivial

/-- A `DELETE` with which nothing unread goes moves nobody's number. -/
theorem concerns_deletion {target : Key} {db : Db} {ks : List Key} {ws : List (Write Key Row)}
    (htarget : target.table = .task ∨ target.table = .column ∨ target.table = .board)
    (hks : ∀ k ∈ ks, k = target) (hunread : NothingUnreadGoes target db)
    (hws : db.deletion references ks = some ws) : ∀ w ∈ ws, Concerns [] db w := by
  have hseed : Reached target db target := by
    rcases htarget with h | h | h
    · rw [Reached, h]
      exact .inl (by rw [← h])
    · rw [Reached, h]
      exact .inl (by rw [← h])
    · rw [Reached, h]
  have hdoomed : ∀ k ∈ db.doomed references ks, Reached target db k :=
    Store.doomed_subset (fun k hk => hks k hk ▸ hseed) fun v hv k hr hk => reached_closed hv hr hk
  intro w hw
  rcases Store.mem_deletion hws hw with ⟨v, hv, hgone, rfl⟩ | ⟨v, _, _, hn, rfl⟩
  · by_cases htable : v.key.table = .notification
    · obtain ⟨n, rfl⟩ := exists_row_of_table (R := NotificationRow) htable
      obtain ⟨n', hn', hid, t, ht, hgoes⟩ := hdoomed _ hgone
      obtain rfl : n' = n := eq_of_id hn' (mem_rows.mpr hv) hid
      refine concerns_del hn' ?_
      cases hread : n'.readAt with
      | some _ => rfl
      | none => exact absurd hgoes (hunread n' hn' hread t ht)
    · exact concerns_of_ne htable
  · -- only an activity that goes is cleared out of a notification, and none does
    obtain ⟨k, hk, hr⟩ := references.names_iff.mp hn
    refine concerns_of_ne fun htable => ?_
    rw [Write.key_put, references.key_clear, keyed_key] at htable
    obtain ⟨n, rfl⟩ := exists_row_of_table (R := NotificationRow) htable
    have hr : (k, OnDelete.setNull) ∈ (Row.notification n).refs := hr
    simp only [Row.refs, List.mem_cons, List.mem_append, List.mem_map, Prod.mk.injEq, reduceCtorEq,
      and_false, exists_false, false_or, and_true] at hr
    obtain ⟨a, _, rfl⟩ := hr
    exact hdoomed _ hk

/-! ## The calls -/

section Kept

variable {ι : Type} {ops : ι → UnreadOp} {i : ι} {own : Local kurul} {db : Db}
  {g : List (Id × Id)}

/-- What moves the number of these users only is owed to nobody else. -/
theorem commit_kept {β : Type} {l : Label} {Q : β → List (Id × Id) → Prop} {b : β}
    {U : List (Id × Id)} (h : Telling U own db) (hQ : ∀ g, (∀ p ∈ g, p ∈ U) → Q b g) :
    CommitKept (owing (announcing ops)) i l Q b [] own db :=
  owing_commit fun _ hheld => hQ _ (by rw [List.nil_append]; exact (h.held hheld).changed)

theorem quiet_commit {β : Type} {l : Label} {Q : β → List (Id × Id) → Prop} {b : β}
    (h : Telling [] own db) (hQ : Q b []) : CommitKept (owing (announcing ops)) i l Q b [] own db :=
  commit_kept h fun g hg => by
    rwa [List.eq_nil_iff_forall_not_mem.mpr fun p hp => List.not_mem_nil (hg p hp)]

theorem query_kept {α : Type} {f : Db → α} {Q : α → List (Id × Id) → Local kurul → Db → Prop}
    (h : ∀ db', own.Held db db' → Q (f (own.view db')) g own db') :
    (query f).Kept (owing (announcing ops)) i Q g own db :=
  Kept_query fun db' hn => by
    rw [owing_note_exec]
    exact h db' hn.1

theorem create_kept {R : Type} [Model R] {r : R} {Q : R → List (Id × Id) → Local kurul → Db → Prop}
    (h : ∀ db' locks, insertRefusal (Model.row r) (own.view db') = none → own.Held db db' →
      Q r g (own.add (⟨r, [.put (Model.row r)], locks⟩ : Effect kurul R)) db') :
    (create r).Kept (owing (announcing ops)) i Q g own db :=
  Kept_create fun db' hn hnew => by
    rw [owing_note_exec]
    exact h db' _ hnew hn.1

/-- Recording tells nobody. -/
theorem record_kept {input : RecordActivityInput}
    {Q : ActivityRow → List (Id × Id) → Local kurul → Db → Prop} (hown : Untold own)
    (h : ∀ v own' db', Untold own' → (∀ w ∈ own'.delta, w ∈ own.delta ∨ w.key.table = .activity) →
      Q v g own' db') :
    (ActivityService.record input).Kept (owing (announcing ops)) i Q g own db := by
  intro id now
  refine create_kept fun db' locks _ _ => h _ _ _ (hown.add fun w hw => ?_) fun w hw => ?_
  · rw [List.mem_singleton.mp hw]
    exact show Table.activity ≠ .notification by decide
  · rcases List.mem_append.mp hw with hw | hw
    · exact .inl hw
    · rw [List.mem_singleton.mp hw]
      exact .inr rfl

/-! ### Removing -/

/-- A `DELETE` that takes nothing unread, after an entry at most. -/
theorem deleteMany_kept {R : Type} [Model R] {p : Db → R → Bool} {target : Key}
    {Q : Nat → List (Id × Id) → Local kurul → Db → Prop} (hop : (ops i).target = some target)
    (htarget : target.table = .task ∨ target.table = .column ∨ target.table = .board)
    (hp : ∀ db r, p db r = true → (⟨Model.table R, Model.id r⟩ : Key) = target)
    (hown : ∀ w ∈ own.delta, w.key.table = .activity)
    (hQ : ∀ n own' db', Telling [] own' db' → Q n [] own' db') :
    (deleteMany p).Kept (owing (announcing ops)) i Q [] own db := by
  refine Kept_deleteMany fun db' hn ws hws => ?_
  rw [owing_note_exec]
  have huntold : Untold own := fun w hw => by rw [hown w hw]; decide
  refine hQ _ _ _ ((huntold.telling _ _).add fun w hw => ?_)
  have hrows : ∀ {T : Type} [Model T], Model.table T ≠ .activity → rows T (own.view db') = rows T db' :=
    fun hT => rows_applyAll_of_ne fun w hw => by rw [hown w hw]; exact hT.symm
  have hunread : NothingUnreadGoes target (own.view db') := by
    have hcond := hn.2.2 target hop
    simp only [NothingUnreadGoes, TaskGoes, ColumnGoes] at hcond ⊢
    rw [hrows (T := NotificationRow) (by decide), hrows (T := TaskRow) (by decide),
      hrows (T := ColumnRow) (by decide)]
    exact hcond
  have hks : ∀ k ∈ ((rows R (own.view db')).filter (p (own.view db'))).map
      (fun r => (⟨Model.table R, Model.id r⟩ : Key)), k = target := by
    intro k hk
    obtain ⟨r, hr, rfl⟩ := List.mem_map.mp hk
    exact hp _ r (List.mem_filter.mp hr).2
  refine (concerns_deletion htarget hks hunread hws w hw).congr fun htable => ?_
  have hkey : w.key = ⟨.notification, w.key.id⟩ := by rw [← htable]
  rw [hkey]
  exact (huntold.get?_view db' _).symm

theorem removed_kept {R : Type} [Model R] {p : Db → R → Bool} {target : Key}
    {input : RecordActivityInput} {β : Type} {f : Nat → Tx kurul β}
    {Q : β → List (Id × Id) → Local kurul → Db → Prop} (hop : (ops i).target = some target)
    (htarget : target.table = .task ∨ target.table = .column ∨ target.table = .board)
    (hp : ∀ db r, p db r = true → (⟨Model.table R, Model.id r⟩ : Key) = target)
    (hQ : ∀ n own' db', Telling [] own' db' → (f n).Kept (owing (announcing ops)) i Q [] own' db') :
    (ActivityService.record input >>= fun _ => deleteMany p >>= f).Kept (owing (announcing ops)) i
      Q [] .empty db := by
  simp only [Tx.Kept_bind]
  refine record_kept untold_empty fun _ own' db' _ hown => ?_
  refine deleteMany_kept hop htarget hp (fun w hw => ?_) hQ
  exact (hown w hw).resolve_left List.not_mem_nil

theorem removeTask_kept {workspaceId taskId userId : Id}
    (hop : ops i = .removeTask workspaceId taskId userId) :
    (TaskService.remove workspaceId taskId userId).Kept (owing (announcing ops)) i
      (fun _ g => g = []) (fun _ g => g = []) [] := by
  simp only [TaskService.remove, TaskService.removeBody, Call.Kept_bind]
  refine owing_transaction (fun _ => rfl) fun db => ?_
  rw [Tx.Kept_bind]
  refine query_kept fun db₁ _ => ?_
  rw [Tx.Kept_bind]
  refine Kept_orThrow fun row _ => ?_
  have htarget : (ops i).target = some ⟨.task, taskId⟩ := by
    rw [hop]
    rfl
  refine removed_kept htarget (.inl rfl) (fun db t ht => ?_)
    fun n own' db' htelling => ?_
  · simp only [taskScope, Bool.and_eq_true, decide_eq_true_eq] at ht
    rw [← ht.1]
    rfl
  · rw [Tx.Kept_bind]
    refine Kept_throwIf fun _ => ?_
    exact quiet_commit htelling (owing_publish rfl)

theorem removeColumn_kept {workspaceId columnId actorId : Id}
    (hop : ops i = .removeColumn workspaceId columnId actorId) :
    (ColumnService.remove workspaceId columnId actorId).Kept (owing (announcing ops)) i
      (fun _ g => g = []) (fun _ g => g = []) [] := by
  simp only [ColumnService.remove, ColumnService.removeBody, Call.Kept_bind]
  refine owing_transaction (fun _ => rfl) fun db => ?_
  rw [Tx.Kept_bind]
  refine query_kept fun db₁ _ => ?_
  rw [Tx.Kept_bind]
  refine Kept_orThrow fun row _ => ?_
  rw [Tx.Kept_bind]
  refine query_kept fun db₂ _ => ?_
  rw [Tx.Kept_bind]
  refine Kept_throwIf fun _ => ?_
  have htarget : (ops i).target = some ⟨.column, columnId⟩ := by
    rw [hop]
    rfl
  refine removed_kept htarget (.inr (.inl rfl))
    (fun db c hc => ?_) fun n own' db' htelling => ?_
  · simp only [columnScope, Bool.and_eq_true, decide_eq_true_eq] at hc
    rw [← hc.1]
    rfl
  · rw [Tx.Kept_bind]
    refine Kept_throwIf fun _ => ?_
    exact quiet_commit htelling (owing_publish rfl)

theorem removeBoard_kept {workspaceId boardId actorId : Id}
    (hop : ops i = .removeBoard workspaceId boardId actorId) :
    (BoardService.remove workspaceId boardId actorId).Kept (owing (announcing ops)) i
      (fun _ g => g = []) (fun _ g => g = []) [] := by
  simp only [BoardService.remove, BoardService.removeBody, count]
  refine owing_transaction (fun _ => rfl) fun db => ?_
  rw [Tx.Kept_bind]
  refine query_kept fun db₁ _ => ?_
  rw [Tx.Kept_bind]
  refine Kept_orThrow fun row _ => ?_
  rw [Tx.Kept_bind]
  refine query_kept fun db₂ _ => ?_
  have htarget : (ops i).target = some ⟨.board, boardId⟩ := by
    rw [hop]
    rfl
  refine removed_kept htarget (.inr (.inr rfl))
    (fun db b hb => ?_) fun n own' db' htelling => ?_
  · simp only [boardScope, Bool.and_eq_true, decide_eq_true_eq] at hb
    rw [← hb.1]
    rfl
  · exact Kept_throwIf fun _ => quiet_commit htelling rfl

/-! ### Telling -/

theorem emitEach_kept {workspaceId : Id} {E : ApiError → List (Id × Id) → Prop}
    {Q : Unit → List (Id × Id) → Prop} {userIds : List Id}
    (hQ : ∀ g', (∀ p ∈ g', p ∈ g ∧ ¬ (p.1 = workspaceId ∧ p.2 ∈ userIds)) → Q () g') :
    (emitEach workspaceId userIds).Kept (owing (announcing ops)) i Q E g := by
  induction userIds generalizing g with
  | nil => exact hQ g fun p hp => ⟨hp, fun h => List.not_mem_nil h.2⟩
  | cons u rest ih =>
    rw [emitEach, Call.Kept_bind]
    refine owing_publish (ih fun g' hg' => hQ g' fun p hp => ?_)
    obtain ⟨hmem, hrest⟩ := hg' p hp
    obtain ⟨hmem, hne⟩ := List.mem_filter.mp hmem
    refine ⟨hmem, fun h => ?_⟩
    rcases List.mem_cons.mp h.2 with hu | hu
    · exact of_decide_eq_true hne (by rw [← h.1, ← hu]; rfl)
    · exact hrest ⟨h.1, hu⟩

/-- Whoever is owed a signal gets one. -/
theorem emitUnreadChanged_kept {workspaceId : Id} {E : ApiError → List (Id × Id) → Prop}
    {Q : Unit → List (Id × Id) → Prop} {userIds : List Id}
    (hQ : ∀ g', (∀ p ∈ g', p ∈ g ∧ ¬ (p.1 = workspaceId ∧ p.2 ∈ userIds)) → Q () g') :
    (emitUnreadChanged workspaceId userIds).Kept (owing (announcing ops)) i Q E g :=
  emitEach_kept fun g' hg' => hQ g' fun p hp =>
    ⟨(hg' p hp).1, fun h => (hg' p hp).2 ⟨h.1, List.mem_eraseDups.mpr h.2⟩⟩

theorem signalIf_kept {workspaceId userId : Id} {E : ApiError → List (Id × Id) → Prop}
    {Q : Unit → List (Id × Id) → Prop} {moved : Bool}
    (hg : ∀ p ∈ g, moved = true ∧ p = (workspaceId, userId)) (hQ : Q () []) :
    (signalIf moved workspaceId userId).Kept (owing (announcing ops)) i Q E g := by
  have hnil : ∀ g' : List (Id × Id), (∀ p ∈ g', False) → g' = [] :=
    fun g' h => List.eq_nil_iff_forall_not_mem.mpr h
  cases moved with
  | true =>
    refine emitUnreadChanged_kept fun g' hg' => ?_
    rw [hnil g' fun p hp => ?_]
    · exact hQ
    · refine (hg' p hp).2 ?_
      rw [(hg p (hg' p hp).1).2]
      exact ⟨rfl, List.mem_cons_self⟩
  | false =>
    rw [hnil g fun p hp => by cases (hg p hp).1]
    exact hQ

/-- A row of the user's own marked read is a row of that user's still. -/
theorem concerns_readNow {workspaceId userId : Id} {now : Instant} {n : NotificationRow}
    (hn : n ∈ rows NotificationRow db) (hof : n.workspaceId = workspaceId ∧ n.userId = userId) :
    Concerns [(workspaceId, userId)] db (.put (Model.row ((readNow now).apply n))) := by
  obtain ⟨rfl, rfl⟩ := hof
  refine concerns_put (n := (readNow now).apply n) List.mem_cons_self fun n' hget => ?_
  have hget' : db.get? ⟨.notification, n.id⟩ = some (.notification n) := get?_row hn
  rw [show ((readNow now).apply n).id = n.id from rfl, hget'] at hget
  cases hget
  exact List.mem_cons_self

theorem markReadBody_kept {workspaceId userId notificationId : Id} {l : Label}
    {Q : NotificationRow × Bool → List (Id × Id) → Prop}
    (hQ : ∀ done g, (∀ p ∈ g, done.2 = true ∧ p = (workspaceId, userId)) → Q done g) :
    (markReadBody workspaceId userId notificationId).Kept (owing (announcing ops)) i
      (CommitKept (owing (announcing ops)) i l Q) [] .empty db := by
  simp only [markReadBody, Tx.Kept_bind]
  refine query_kept fun db₁ _ => Kept_orThrow fun existing _ => ?_
  split
  · exact quiet_commit (telling_empty _) (hQ _ _ fun p hp => by cases hp)
  · simp only [Tx.Kept_bind]
    intro now
    refine Kept_update fun db₂ _ n hn => ?_
    rw [owing_note_exec]
    have hof : n.workspaceId = workspaceId ∧ n.userId = userId := by
      have hp := List.find?_some hn
      simp only [ownWhere, Bool.and_eq_true, decide_eq_true_eq] at hp
      exact ⟨hp.1.2, hp.2⟩
    refine commit_kept (U := [(workspaceId, userId)]) ((telling_empty _).add fun w hw => ?_)
      fun g hg => hQ _ _ fun p hp => ⟨rfl, List.mem_singleton.mp (hg p hp)⟩
    rw [List.mem_singleton.mp hw]
    exact concerns_readNow (List.mem_of_find?_eq_some hn) hof

theorem markRead_kept {workspaceId userId notificationId : Id} :
    (markRead workspaceId userId notificationId).Kept (owing (announcing ops)) i
      (fun _ g => g = []) (fun _ g => g = []) [] := by
  simp only [markRead, Call.Kept_bind]
  refine owing_transaction (fun _ => rfl) fun db => markReadBody_kept fun done g hg => ?_
  exact signalIf_kept hg rfl

theorem markAllRead_kept {workspaceId userId : Id} :
    (markAllRead workspaceId userId).Kept (owing (announcing ops)) i
      (fun _ g => g = []) (fun _ g => g = []) [] := by
  simp only [markAllRead, Call.auto_bind, Call.Kept_bind]
  intro now
  simp only [updateMany, Call.auto_exec]
  refine owing_auto (fun _ => rfl) fun db e he => ?_
  obtain ⟨hcount, hwrites⟩ := eval_updateMany he
  refine signalIf_kept (fun p hp => ?_) rfl
  rw [List.nil_append, hwrites] at hp
  have hconcerns : ∀ w ∈ ((rows NotificationRow db).filter (unreadWhere workspaceId userId)).map
      fun n => Write.put (Model.row ((readNow now).apply n)),
      Concerns [(workspaceId, userId)] db w := by
    intro w hw
    obtain ⟨n, hn, rfl⟩ := List.mem_map.mp hw
    obtain ⟨hn, hunread⟩ := List.mem_filter.mp hn
    simp only [unreadWhere, Bool.and_eq_true, decide_eq_true_eq] at hunread
    exact concerns_readNow hn hunread.1
  refine ⟨decide_eq_true ?_, List.mem_singleton.mp (changed_applyAll hconcerns p hp)⟩
  -- a number that has moved is of rows that were found
  rw [hcount]
  by_contra hzero
  have hnone : (rows NotificationRow db).filter (unreadWhere workspaceId userId) = [] :=
    List.eq_nil_of_length_eq_zero (by omega)
  rw [hnone, List.map_nil, Store.applyAll_nil, (announcing ops).incurs_self] at hp
  cases hp

theorem addAssigneeBody_kept {workspaceId actorId : Id} {task : TaskRow}
    {dto : TaskAssigneeService.AddAssigneeDto} {l : Label} {Q : Bool → List (Id × Id) → Prop}
    (hQ : ∀ notified g, (∀ p ∈ g, notified = true ∧ p = (workspaceId, dto.userId)) → Q notified g) :
    (TaskAssigneeService.addAssigneeBody workspaceId actorId task dto).Kept (owing (announcing ops)) i
      (CommitKept (owing (announcing ops)) i l Q) [] .empty db := by
  simp only [TaskAssigneeService.addAssigneeBody, Tx.Kept_bind]
  intro id
  refine create_kept fun db₁ locks _ _ => ?_
  refine record_kept (untold_empty.add fun w hw => ?_) fun v own₂ db₂ huntold₂ _ => ?_
  · rw [List.mem_singleton.mp hw]
    exact show Table.taskAssignee ≠ .notification by decide
  simp only [createAssignment, NotificationService.create]
  split
  · exact quiet_commit (huntold₂.telling _ _) (hQ _ _ fun p hp => by cases hp)
  · simp only [Tx.Kept_bind]
    intro id' now
    refine create_kept fun db₃ locks' hnew _ => ?_
    refine commit_kept (U := [(workspaceId, dto.userId)])
      ((huntold₂.telling _ _).add fun w hw => ?_)
      fun g hg => hQ _ _ fun p hp => ⟨rfl, List.mem_singleton.mp (hg p hp)⟩
    rw [List.mem_singleton.mp hw]
    exact huntold₂.concerns List.mem_cons_self (get?_of_insertRefusal hnew)

theorem addAssignee_kept {workspaceId taskId actorId : Id}
    {dto : TaskAssigneeService.AddAssigneeDto} :
    (TaskAssigneeService.addAssignee workspaceId taskId actorId dto).Kept (owing (announcing ops)) i
      (fun _ g => g = []) (fun _ g => g = []) [] := by
  have hchecks : (TaskAssigneeService.addAssigneeChecks workspaceId taskId dto).ReadOnly :=
    ((readOnly_query _).bind fun _ => readOnly_orThrow _ _).bind fun _ =>
      (readOnly_query _).bind fun _ => (readOnly_orThrow _ _).bind fun _ => trivial
  simp only [TaskAssigneeService.addAssignee, Call.Kept_bind]
  refine owing_read hchecks (fun task => ?_) fun _ => rfl
  rw [conflictOnUniqueViolation, Call.Kept_tryCatch]
  refine owing_transaction (fun x => ?_) fun db => addAssigneeBody_kept fun notified g hg => ?_
  · split <;> rfl
  · refine signalIf_kept hg ?_
    rw [TaskEventsService.emitUpdated, Call.Kept_bind]
    exact owing_read (TaskReadService.readOnly_findTask _ _) (fun found _ _ => rfl) fun _ => rfl

theorem createMentionBatch_kept {input : MentionBatchInput}
    {Q : Nat → List (Id × Id) → Local kurul → Db → Prop} (hown : Untold own)
    (hQ : ∀ n own' db', Telling (input.userIds.map fun u => (input.workspaceId, u)) own' db' →
      Q n g own' db') :
    (createMentionBatch input).Kept (owing (announcing ops)) i Q g own db := by
  simp only [createMentionBatch]
  split
  · exact hQ _ _ _ (hown.telling _ _)
  · simp only [Tx.Kept_bind]
    intro now
    refine Kept_withIds fun data hdata => owing_exec fun db' _ _ e he => ?_
    obtain ⟨hnew, rfl⟩ := eval_createMany he
    refine hQ _ _ _ ((hown.telling _ _).add fun w hw => ?_)
    obtain ⟨n, hn, rfl⟩ := List.mem_map.mp hw
    obtain ⟨id, userId, huser, rfl⟩ := hdata n hn
    have hmem : userId ∈ input.userIds :=
      List.mem_eraseDups.mp (List.mem_filter.mp huser).1
    refine hown.concerns (n := mentionRow input now id userId)
      (List.mem_map.mpr ⟨userId, hmem, rfl⟩) ?_
    exact get?_of_insertManyRefusal hnew _ (List.mem_map_of_mem hn)

theorem createComment_kept {workspaceId taskId userId : Id} {dto : CreateCommentDto} :
    (CommentService.create workspaceId taskId userId dto).Kept (owing (announcing ops)) i
      (fun _ g => g = []) (fun _ g => g = []) [] := by
  have hfind : (TaskReadService.findTaskBasic workspaceId taskId).ReadOnly :=
    (readOnly_query _).bind fun _ => readOnly_orThrow _ _
  simp only [CommentService.create, Call.Kept_bind]
  refine owing_read hfind (fun task => ?_) fun _ => rfl
  refine owing_transaction (fun _ => rfl) fun db => ?_
  simp only [CommentService.createBody, Tx.Kept_bind]
  intro id now
  refine create_kept fun db₁ locks _ _ => query_kept fun db₂ _ => Kept_orThrow fun user _ => ?_
  have hmentioned : ∀ {own : Local kurul} {db : Db} {ids : List Id}
      {Q : List Id → List (Id × Id) → Local kurul → Db → Prop}, (∀ ids db', Q ids [] own db') →
      (CommentService.mentionedMembers workspaceId ids).Kept (owing (announcing ops)) i Q [] own db := by
    intro own db ids Q hQ
    simp only [CommentService.mentionedMembers]
    split
    · exact hQ _ _
    · rw [Tx.Kept_bind]
      exact query_kept fun db' _ => hQ _ _
  refine hmentioned fun memberIds db₃ => ?_
  refine record_kept (untold_empty.add fun w hw => ?_) fun activity own₄ db₄ huntold _ => ?_
  · rw [List.mem_singleton.mp hw]
    exact show Table.comment ≠ .notification by decide
  · have hcommit : ∀ {comment : CommentDto} {own : Local kurul} {db : Db},
        Telling (memberIds.map fun u => (workspaceId, u)) own db →
        CommitKept (owing (announcing ops)) i .transaction
          (fun created => (do
            emitUnreadChanged workspaceId created.2
            Call.publish (.toBoard task.boardId workspaceId userId
              (.commentAdded taskId created.1.id))
            return created.1 : Call kurul CommentDto).Kept (owing (announcing ops)) i
              (fun _ g => g = []) (fun _ g => g = [])) (comment, memberIds) [] own db := by
      intro comment own db htelling
      refine commit_kept htelling fun g hg => ?_
      simp only [Call.Kept_bind]
      refine emitUnreadChanged_kept fun g' hg' => ?_
      have hnil : g' = [] := by
        refine List.eq_nil_iff_forall_not_mem.mpr fun p hp => (hg' p hp).2 ?_
        obtain ⟨u, hu, rfl⟩ := List.mem_map.mp (hg p (hg' p hp).1)
        exact ⟨rfl, hu⟩
      rw [hnil]
      exact owing_publish rfl
    simp only [Call.Kept_bind] at hcommit
    simp only [CommentService.notifyMentioned]
    split
    · exact hcommit (huntold.telling _ _)
    · rw [Tx.Kept_bind]
      exact createMentionBatch_kept huntold fun n own₅ db₅ htelling => hcommit htelling

/-! ### Reminding -/

section Scan

open DueSoonWorker

theorem all_add (m : Recipients) (r p : Id × Id) :
    p.2 ∈ (Recipients.add m r).all p.1 ↔ p.2 ∈ m.all p.1 ∨ p = r := by
  obtain ⟨w, u⟩ := p
  obtain ⟨w', u'⟩ := r
  simp only [Recipients.add, JsMap.all, JsMap.get_set, Prod.mk.injEq]
  by_cases hw : w = w'
  · subst hw
    rw [if_pos rfl, Option.getD_some]
    split
    · rename_i hmem
      constructor
      · exact .inl
      · intro h
        rcases h with h | ⟨_, rfl⟩
        · exact h
        · exact hmem
    · simp
  · rw [if_neg hw]
    simp [hw]

theorem all_foldl_add (rs : List (Id × Id)) (m : Recipients) (p : Id × Id) :
    p.2 ∈ (rs.foldl Recipients.add m).all p.1 ↔ p.2 ∈ m.all p.1 ∨ p ∈ rs := by
  induction rs generalizing m with
  | nil => simp
  | cons r rs ih => rw [List.foldl_cons, ih, all_add, List.mem_cons, or_assoc]

theorem insertReminders_kept {reminders : List Reminder} {Q : Batch → List (Id × Id) → Prop}
    (hQ : ∀ b g', (∀ p ∈ g', p ∈ g ∨ p ∈ b.recipients) → Q b g') :
    (insertReminders reminders).Kept (owing (announcing ops)) i Q (fun _ _ => True) g := by
  simp only [insertReminders]
  split
  · exact hQ _ _ fun p hp => .inl hp
  · simp only [Call.Kept_bind, Call.auto_bind]
    intro now
    refine Kept_auto_withIds fun data hdata => ?_
    rw [createManySkipping, Call.auto_exec]
    refine owing_auto (fun _ => trivial) fun db e he => ?_
    obtain ⟨kept, hkept, hcount, hwrites⟩ := eval_createManySkipping he
    split
    · rename_i hzero
      -- no row was new
      have hnone : e.writes = [] := by
        rw [hwrites, List.eq_nil_of_length_eq_zero (hcount.symm.trans hzero), List.map_nil]
      rw [hnone, Store.applyAll_nil, (announcing ops).incurs_self, List.append_nil]
      exact hQ _ _ fun p hp => .inl hp
    · refine hQ _ _ fun p hp => (List.mem_append.mp hp).imp id fun hmoved => ?_
      refine changed_applyAll (fun w hw => ?_) p hmoved
      rw [hwrites] at hw
      obtain ⟨n, hn, rfl⟩ := List.mem_map.mp hw
      have hnew := get?_of_insertable hkept n hn
      obtain ⟨id, r, hr, rfl⟩ := hdata n (mem_of_insertable hkept n hn)
      refine concerns_put (n := Reminder.row now id r) (List.mem_map.mpr ⟨r, hr, rfl⟩)
        fun n' hget => ?_
      have hnew : db.get? ⟨.notification, id⟩ = none := hnew
      rw [show (Reminder.row now id r).id = id from rfl, hnew] at hget
      cases hget

theorem notifyBatch_kept {tasks : List ScanTaskRow} {since : Instant}
    {Q : Batch → List (Id × Id) → Prop}
    (hQ : ∀ b g', (∀ p ∈ g', p ∈ g ∨ p ∈ b.recipients) → Q b g') :
    (notifyBatch tasks since).Kept (owing (announcing ops)) i Q (fun _ _ => True) g := by
  simp only [notifyBatch]
  split
  · exact hQ _ _ fun p hp => .inl hp
  · rw [Call.Kept_bind]
    exact owing_read (readOnly_query _) (fun skip => insertReminders_kept hQ) fun _ => trivial

/-- The loop: whoever is owed a signal is among the recipients gathered. -/
theorem scanPages_kept {now till since : Instant} {Q : Nat × Recipients → List (Id × Id) → Prop}
    (hQ : ∀ done g', (∀ p ∈ g', p.2 ∈ done.2.all p.1) → Q done g') (left : Nat) :
    ∀ cursor total (recipients : Recipients) g, (∀ p ∈ g, p.2 ∈ recipients.all p.1) →
      (scanPages now till since left cursor total recipients).Kept (owing (announcing ops)) i Q
        (fun _ _ => True) g := by
  induction left with
  | zero => exact fun _ _ _ _ _ => trivial
  | succ left ih =>
    intro cursor total recipients g hg
    rw [scanPages, Call.Kept_bind]
    refine owing_read (readOnly_query _) (fun tasks => ?_) fun _ => trivial
    split
    · exact hQ _ _ hg
    · rw [Call.Kept_bind]
      refine notifyBatch_kept fun batch g' hg' => ?_
      have hgathered : ∀ p ∈ g', p.2 ∈ (batch.recipients.foldl Recipients.add recipients).all p.1 :=
        fun p hp => (all_foldl_add _ _ p).mpr ((hg' p hp).imp (hg p) id)
      split
      · exact hQ _ _ hgathered
      · split
        · exact hQ _ _ hgathered
        · exact ih _ _ _ _ hgathered

theorem emitRecipients_kept {Q : Unit → List (Id × Id) → Prop} {E : ApiError → List (Id × Id) → Prop}
    {recipients : List (Id × List Id)}
    (hQ : ∀ g', (∀ p ∈ g', p ∈ g ∧ ∀ r ∈ recipients, ¬ (p.1 = r.1 ∧ p.2 ∈ r.2)) → Q () g') :
    (emitRecipients recipients).Kept (owing (announcing ops)) i Q E g := by
  induction recipients generalizing g with
  | nil => exact hQ g fun p hp => ⟨hp, fun r hr => by cases hr⟩
  | cons r rest ih =>
    rw [emitRecipients, Call.Kept_bind]
    refine emitUnreadChanged_kept fun g₁ hg₁ => ih fun g₂ hg₂ => hQ g₂ fun p hp => ?_
    obtain ⟨hp₁, hrest⟩ := hg₂ p hp
    refine ⟨(hg₁ p hp₁).1, fun r' hr' => ?_⟩
    rcases List.mem_cons.mp hr' with rfl | hr'
    · exact (hg₁ p hp₁).2
    · exact hrest r' hr'

theorem runScan_kept {pages : Nat} : (runScan pages).Kept (owing (announcing ops)) i
    (fun _ g => g = []) (fun _ _ => True) [] := by
  simp only [runScan, Call.Kept_bind]
  intro now
  refine scanPages_kept (fun done g hg => ?_) _ _ _ _ _ fun p hp => by cases hp
  refine emitRecipients_kept fun g' hg' => List.eq_nil_iff_forall_not_mem.mpr fun p hp => ?_
  obtain ⟨hmem, hnot⟩ := hg' p hp
  have hall := hg p hmem
  cases hget : done.2.get p.1 with
  | none =>
    rw [JsMap.all, hget] at hall
    cases hall
  | some users =>
    rw [JsMap.all, hget] at hall
    exact hnot _ (JsMap.get_eq_some.mp hget) ⟨rfl, hall⟩

end Scan

theorem call_kept : ((ops i).call).Kept (owing (announcing ops)) i
    (fun _ => (owing (announcing ops)).Ends i none)
    (fun e => (owing (announcing ops)).Ends i (some e)) [] := by
  have paid : ∀ {p : Call kurul Unit}, p.Kept (owing (announcing ops)) i (fun _ g => g = [])
      (fun _ g => g = []) [] → p.Kept (owing (announcing ops)) i
        (fun _ => (owing (announcing ops)).Ends i none)
        (fun e => (owing (announcing ops)).Ends i (some e)) [] :=
    fun h => h.mono (fun _ _ hg => .inr hg) fun _ _ hg => .inr hg
  cases hop : ops i with
  | addAssignee workspaceId taskId actorId dto =>
    refine paid ?_
    rw [UnreadOp.call, Call.Kept_bind]
    exact addAssignee_kept
  | createComment workspaceId taskId userId dto =>
    refine paid ?_
    rw [UnreadOp.call, Call.Kept_bind]
    exact createComment_kept
  | runScan pages =>
    rw [UnreadOp.call, Call.Kept_bind]
    exact runScan_kept.mono (fun _ _ hg => .inr hg) fun _ _ _ => .inl ⟨rfl, pages, hop⟩
  | markRead workspaceId userId notificationId =>
    refine paid ?_
    rw [UnreadOp.call, Call.Kept_bind]
    exact markRead_kept
  | markAllRead workspaceId userId =>
    refine paid ?_
    rw [UnreadOp.call, Call.Kept_bind]
    exact markAllRead_kept
  | removeTask workspaceId taskId userId => exact paid (removeTask_kept hop)
  | removeColumn workspaceId columnId actorId => exact paid (removeColumn_kept hop)
  | removeBoard workspaceId boardId actorId => exact paid (removeBoard_kept hop)

end Kept

/-! ## Runs -/

section Runs

variable {ι : Type} [DecidableEq ι]

/-- Along every run in which no `DELETE` takes an unread notification with it: a call that has ended
has told everybody whose number it had moved, unless it is a scan that failed after an insert. -/
theorem unread_announced {db₀ : Db} {ops : ι → UnreadOp} {σ : Config kurul ι}
    {g : ι → List (Id × Id)} {past : List (Past kurul ι (List (Id × Id)))}
    (hrun : Booked (owe changed told) [] (TakesNothingUnread ops)
      (Config.start db₀ fun i => (ops i).call) σ g past)
    (hscans : ∀ i pages e, ops i = .runScan pages → σ.ended i = some (some e) → ∀ p ∈ past,
      p.who = i → ∀ workspaceId userId,
        unreadOf p.before workspaceId userId = unreadOf p.after workspaceId userId) :
    ∀ pre post p, past = pre ++ p :: post → ∀ r, σ.ended p.who = some r →
      ∀ workspaceId userId,
        unreadOf p.before workspaceId userId ≠ unreadOf p.after workspaceId userId →
        ∃ q ∈ post, q.who = p.who ∧ q.act = .publish (.toUser workspaceId userId) := by
  intro pre post p hsplit r hend workspaceId userId hmoved
  have hstart : (Config.start db₀ fun i => (ops i).call).Kept (owing (announcing ops)) fun _ => [] :=
    .start trivial fun i => call_kept
  have hmem : p ∈ past := by rw [hsplit]; simp
  obtain ⟨q, hq, hwho, e, hact, hpays⟩ := owing_paid hstart (fun _ _ _ _ h => h) hrun hsplit
    (mem_changed.mpr hmoved) hend fun hexcused => by
      obtain ⟨hfailed, pages, hop⟩ := hexcused
      obtain ⟨x, rfl⟩ := Option.isSome_iff_exists.mp hfailed
      exact hmoved (hscans p.who pages x hop hend p hmem rfl workspaceId userId)
  refine ⟨q, hq, hwho, ?_⟩
  rw [hact]
  cases e with
  | toUser w u =>
    simp only [announcing, told, Option.some.injEq, Prod.mk.injEq] at hpays
    rw [hpays.1, hpays.2]
  | _ => cases hpays

/-- A member, and a task due in an hour. -/
def dueInAnHour : Db where
  rows := [
    .user ⟨js "ada", js "ada@example.org", js "Ada", true, none, none, none⟩,
    .user ⟨js "bo", js "bo@example.org", js "Bo", true, none, none, none⟩,
    .workspace ⟨js "w", js "Workspace", js "workspace"⟩,
    .workspaceMember ⟨js "m", js "w", js "ada", .owner⟩,
    .workspaceMember ⟨js "n", js "w", js "bo", .member⟩,
    .board ⟨js "b", js "w", js "Board", none, 0⟩,
    .column ⟨js "c", js "b", js "To do", 1000, none, .unstarted⟩,
    .task ⟨js "t", js "b", js "c", js "Task", none, .medium, 5, some 3600000, none, js "ada", 0, 0⟩]
  nodup := by decide +kernel

/-- The member is assigned and reminded, and reads it; the task is removed. -/
def readAndRemoved : Fin 4 → UnreadOp
  | 0 => .addAssignee (js "w") (js "t") (js "ada") ⟨js "bo"⟩
  | 1 => .runScan 1
  | 2 => .markAllRead (js "w") (js "bo")
  | 3 => .removeTask (js "w") (js "t") (js "ada")

/-- The task is deleted when everything is read. -/
def deletesRead (i : Fin 4) (_ : List (Id × Id)) (a : Act kurul) (db : Db) : Bool :=
  match i, a with
  | 3, .exec (.delete _) => (rows NotificationRow db).all fun n => n.readAt.isSome
  | _, _ => true

theorem takesNothingUnread_of_deletesRead (i : Fin 4) (g : List (Id × Id)) (a : Act kurul) (db : Db)
    (h : deletesRead i g a db = true) : TakesNothingUnread readAndRemoved i g a db := by
  cases a with
  | exec l =>
    cases l with
    | delete table =>
      match i with
      | 3 =>
        intro target _ n hn hunread
        have hread : n.readAt.isSome = true := List.all_eq_true.mp h n hn
        rw [hunread] at hread
        cases hread
      | 0 | 1 | 2 => exact fun _ htarget => by cases htarget
    | _ => trivial
  | _ => trivial

theorem all_read_and_announced : ∃ (σ : Config kurul (Fin 4)) (g : Fin 4 → List (Id × Id))
    (past : List (Past kurul (Fin 4) (List (Id × Id)))),
    Booked (owe changed told) [] (TakesNothingUnread readAndRemoved)
      (Config.start dueInAnHour fun i => (readAndRemoved i).call) σ g past ∧
    (∀ i, σ.returned i = true) ∧
    (past.filter fun p => changed p.before p.after ≠ []).map Past.who = [0, 1, 2] ∧
    ∀ pre post p, past = pre ++ p :: post → ∀ r, σ.ended p.who = some r →
      ∀ workspaceId userId,
        unreadOf p.before workspaceId userId ≠ unreadOf p.after workspaceId userId →
        ∃ q ∈ post, q.who = p.who ∧ q.act = .publish (.toUser workspaceId userId) := by
  have hgoes : ((Config.start (S := kurul) dueInAnHour fun i => (readAndRemoved i).call).booked
      (owe changed told) (0 : Instant) deletesRead (List.replicate 16 (0, js "x") ++
        List.replicate 7 (1, js "y") ++ List.replicate 3 (2, js "z") ++ List.replicate 8 (3, js "v"))
      (fun _ => []) []).any
        (fun r => (∀ i, r.1.returned i = true) ∧
          (r.2.2.filter fun p => changed p.before p.after ≠ []).map Past.who = [0, 1, 2]) = true := by
    decide +kernel
  obtain ⟨⟨σ, g, past⟩, hσ, hend⟩ := (Option.any_eq_true _ _).mp hgoes
  obtain ⟨hdone, hmoved⟩ := of_decide_eq_true hend
  have hrun := booked_of_schedule takesNothingUnread_of_deletesRead .refl hσ
  refine ⟨σ, g, past, hrun, hdone, hmoved, unread_announced hrun fun i pages e _ hfailed => ?_⟩
  rw [Config.ended_of_returned (hdone i)] at hfailed
  cases hfailed

/-- The member has not read that the task is due. -/
def unreadReminder : Db where
  rows := dueInAnHour.rows ++ [
    .notification ⟨js "n", js "w", js "bo", .dueSoon, some (js "t"), none, .obj [], none, 0⟩]
  nodup := by decide +kernel

/-- A task is removed with the notification about it, and nobody is told. -/
theorem removed_and_not_told :
    ¬ ∀ (db₀ : Db) (ops : Fin 1 → UnreadOp) (σ : Config kurul (Fin 1)) (g : Fin 1 → List (Id × Id))
      (past : List (Past kurul (Fin 1) (List (Id × Id)))),
      Booked (owe changed told) [] (fun _ _ _ _ => True)
        (Config.start db₀ fun i => (ops i).call) σ g past →
      ∀ pre post p, past = pre ++ p :: post → ∀ r, σ.ended p.who = some r →
        ∀ workspaceId userId,
          unreadOf p.before workspaceId userId ≠ unreadOf p.after workspaceId userId →
          ∃ q ∈ post, q.act = .publish (.toUser workspaceId userId) := by
  intro h
  have hgoes : ((Config.start (S := kurul) unreadReminder fun (_ : Fin 1) =>
      (UnreadOp.removeTask (js "w") (js "t") (js "ada")).call).booked (owe changed told) (0 : Instant)
        (fun _ _ _ _ => true) (List.replicate 8 (0, js "x")) (fun _ => []) []).any
        (fun (r : Config kurul (Fin 1) × (Fin 1 → List (Id × Id)) ×
            List (Past kurul (Fin 1) (List (Id × Id)))) =>
          decide (r.1.returned 0 = true ∧ ∃ p ∈ r.2.2,
            unreadOf p.before (js "w") (js "bo") ≠ unreadOf p.after (js "w") (js "bo") ∧
            ∀ q ∈ r.2.2, signalled q.act ≠ some (js "w", js "bo"))) = true := by
    decide +kernel
  obtain ⟨⟨σ, g, past⟩, hσ, hend⟩ := (Option.any_eq_true _ _).mp hgoes
  obtain ⟨hdone, p, hp, hmoved, hnot⟩ := of_decide_eq_true hend
  have hrun : Booked (owe changed told) [] (fun _ _ _ _ => True) _ σ g past :=
    booked_of_schedule (fun _ _ _ _ _ => trivial) .refl hσ
  obtain ⟨pre, post, hsplit⟩ := List.append_of_mem hp
  have hend : σ.ended p.who = some none := Config.ended_of_returned (by rw [Subsingleton.elim p.who 0]; exact hdone)
  obtain ⟨q, hq, hact⟩ := h unreadReminder (fun _ => .removeTask (js "w") (js "t") (js "ada")) σ g past
    hrun pre post p hsplit none hend (js "w") (js "bo") hmoved
  refine hnot q ?_ (by rw [hact]; rfl)
  rw [hsplit]
  exact List.mem_append_right _ (List.mem_cons_of_mem _ hq)

end Runs

end Announced
end Kurul
