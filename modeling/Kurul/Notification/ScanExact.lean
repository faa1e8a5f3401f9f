import Kurul.Notification.ScanRun
import Kurul.Sql.RelyGuarantee
import Kurul.Sql.Schedule

/-!
# Kurul.Notification.ScanExact

A scan reminds everybody it should, once: alone, and among other scans and users who read.

* `ReminderOp` — the calls that write reminders or mark them read.
* `unrepeated` — what each of them keeps: a pair has at most one unread reminder.
* `scan_exact` — a scan that completes visits the tasks due, tells whom they are assigned to and
  nobody twice, and no interleaving leaves a pair two unread reminders.
-/

namespace Kurul

open Sql NotificationService DueSoonWorker

inductive ReminderOp where
  | runScan (pages : Nat)
  | markRead (workspaceId userId notificationId : Id)
  | markAllRead (workspaceId userId : Id)

def ReminderOp.call : ReminderOp → Call kurul Unit
  | .runScan pages => do
    let _ ← DueSoonWorker.runScan pages
  | .markRead workspaceId userId notificationId => do
    let _ ← NotificationService.markRead workspaceId userId notificationId
  | .markAllRead workspaceId userId => do
    let _ ← NotificationService.markAllRead workspaceId userId

namespace DueSoonWorker

/-! ## One unread reminder a pair -/

section OneUnread

variable {db : Db}

/-- A notification that is written read. -/
def PutsRead (w : Write Key Row) : Prop :=
  ∃ n : NotificationRow, w = .put (.notification n) ∧ n.readAt.isSome = true

theorem OneUnread.put_read {n : NotificationRow} (h : OneUnread db) (hn : n.readAt.isSome = true) :
    OneUnread (db.put (.notification n)) := by
  have hunread : ∀ {t u}, unreadFor t u n ≠ true := by
    intro t u hunread
    rw [(unreadFor_iff.mp hunread).2.1] at hn
    cases hn
  rw [oneUnread_iff] at h ⊢
  intro a ha b hb hclash
  obtain ⟨t, u, hunreadA, hunreadB⟩ := clashes_notification.mp hclash
  rcases (mem_rows_put (R := NotificationRow)).mp ha with rfl | ⟨ha, _⟩
  · exact absurd hunreadA hunread
  · rcases (mem_rows_put (R := NotificationRow)).mp hb with rfl | ⟨hb, _⟩
    · exact absurd hunreadB hunread
    · exact h a ha b hb hclash

theorem OneUnread.reads {ws : List (Write Key Row)} (hws : ∀ w ∈ ws, PutsRead w) :
    ∀ {db : Db}, OneUnread db → OneUnread (db.applyAll ws) := by
  induction ws with
  | nil => intro db h; exact h
  | cons w ws ih =>
    intro db h
    obtain ⟨n, rfl, hn⟩ := hws w List.mem_cons_self
    exact ih (fun w hw => hws w (List.mem_cons_of_mem _ hw)) (h.put_read hn)

/-- An insert adds no second unread reminder to a pair. -/
theorem OneUnread.insert {data kept : List NotificationRow} (h : OneUnread db)
    (hkept : insertable data db = .ok kept) :
    OneUnread (db.applyAll (kept.map fun n => .put (Model.row n))) := by
  have hold : ∀ n ∈ kept, ∀ n' ∈ rows NotificationRow db,
      (Row.notification n').clashes (.notification n) = false :=
    fun n hn n' hn' => (insertable_apart hkept).1 n hn _ (mem_rows.mp hn')
  rw [oneUnread_iff] at h ⊢
  intro a ha b hb hclash
  obtain ⟨t, u, hunreadA, hunreadB⟩ := clashes_notification.mp hclash
  have hclash' := clashes_notification.mpr ⟨t, u, hunreadB, hunreadA⟩
  rcases (mem_rows_insertable hkept).mp ha with ha | ha
  · rcases (mem_rows_insertable hkept).mp hb with hb | hb
    · exact h a ha b hb hclash
    · rw [hold b hb a ha] at hclash
      cases hclash
  · rcases (mem_rows_insertable hkept).mp hb with hb | hb
    · rw [hold a ha b hb] at hclash'
      cases hclash'
    · exact single_of_insertable hkept ha hb hunreadA hunreadB

end OneUnread

/-- A pair has at most one unread reminder, whoever writes. -/
def unrepeated (ι : Type) : Protocol kurul ι where
  Inv := OneUnread
  Rely _ _ _ := True
  Guar _ _ _ _ := True
  Cond _ _ _ := True
  guar_refl _ _ _ := trivial
  rely_refl _ _ := trivial
  rely_trans _ _ := trivial

section Safe

variable {ι : Type} {i : ι} {db : Db} {now till since : Instant}

theorem commits_unrepeated {a : Act kurul} {ks : List (Lock Key)} {db' : Db} (h : OneUnread db') :
    (unrepeated ι).Commits i a ks db db' :=
  ⟨h, trivial, fun _ _ => trivial⟩

theorem emitEach_safe {workspaceId : Id} {userIds : List Id} {Q : Unit → Db → Prop}
    (hQ : ∀ db, OneUnread db → Q () db) (h : OneUnread db) :
    (emitEach workspaceId userIds).Safe (unrepeated ι) i Q db := by
  induction userIds with
  | nil => exact hQ db h
  | cons userId rest ih => exact ih

theorem emitRecipients_safe {recipients : List (Id × List Id)} {Q : Unit → Db → Prop}
    (hQ : ∀ db, OneUnread db → Q () db) (h : OneUnread db) :
    (emitRecipients recipients).Safe (unrepeated ι) i Q db := by
  induction recipients generalizing db with
  | nil => exact hQ db h
  | cons r rest ih =>
    rw [emitRecipients, Call.Safe_bind]
    exact emitEach_safe (fun db h => ih h) h

theorem signalIf_safe {changed : Bool} {workspaceId userId : Id} {Q : Unit → Db → Prop}
    (hQ : ∀ db, OneUnread db → Q () db) (h : OneUnread db) :
    (signalIf changed workspaceId userId).Safe (unrepeated ι) i Q db := by
  cases changed with
  | false => exact hQ db h
  | true => exact emitEach_safe hQ h

theorem withIds_safe {T R : Type} {row : Id → T → R} {items : List T} {Q : List R → Db → Prop}
    (hQ : ∀ data, Q data db) : (Call.auto (withIds row items)).Safe (unrepeated ι) i Q db := by
  induction items generalizing Q with
  | nil => exact hQ []
  | cons item rest ih =>
    simp only [withIds, Call.auto_bind, Call.Safe_bind]
    intro id
    exact ih fun data => hQ _

theorem insertReminders_safe {reminders : List Reminder} {Q : Batch → Db → Prop}
    (hQ : ∀ b db, OneUnread db → Q b db) (h : OneUnread db) :
    (insertReminders reminders).Safe (unrepeated ι) i Q db := by
  simp only [insertReminders]
  split
  · exact hQ _ _ h
  · simp only [Call.Safe_bind, Call.auto_bind]
    intro createdAt
    refine withIds_safe fun data => ?_
    rw [createManySkipping, Call.auto_exec]
    refine Call.Safe_exec fun db' hlater _ e he => ?_
    obtain ⟨kept, hkept, _, hwrites⟩ := eval_createManySkipping he
    have hone : OneUnread (db'.applyAll e.writes) := by
      rw [hwrites]
      exact OneUnread.insert hlater.2 hkept
    refine ⟨commits_unrepeated hone, ?_⟩
    split
    · exact hQ _ _ hone
    · exact hQ _ _ hone

theorem notifyBatch_safe {tasks : List ScanTaskRow} {Q : Batch → Db → Prop}
    (hQ : ∀ b db, OneUnread db → Q b db) (h : OneUnread db) :
    (notifyBatch tasks since).Safe (unrepeated ι) i Q db := by
  simp only [notifyBatch]
  split
  · exact hQ _ _ h
  · rw [Call.Safe_bind]
    exact Call.Safe_auto_read (readOnly_query _) (fun _ _ => insertReminders_safe hQ) h

theorem scanPages_safe {Q : Nat × Recipients → Db → Prop} (hQ : ∀ done db, OneUnread db → Q done db)
    (pages : Nat) : ∀ {cursor total recipients db}, OneUnread db →
      (scanPages now till since pages cursor total recipients).Safe (unrepeated ι) i Q db := by
  induction pages with
  | zero => exact fun _ => trivial
  | succ pages ih =>
    intro cursor total recipients db h
    rw [scanPages, Call.Safe_bind]
    refine Call.Safe_auto_read (readOnly_query _) (fun tasks db h => ?_) h
    split
    · exact hQ _ _ h
    · rw [Call.Safe_bind]
      refine notifyBatch_safe (fun batch db h => ?_) h
      split
      · exact hQ _ _ h
      · split
        · exact hQ _ _ h
        · exact ih h

theorem runScan_safe {pages : Nat} {Q : Nat → Db → Prop} (hQ : ∀ n db, OneUnread db → Q n db)
    (h : OneUnread db) : (DueSoonWorker.runScan pages).Safe (unrepeated ι) i Q db := by
  simp only [DueSoonWorker.runScan, Call.Safe_bind]
  intro now
  refine scanPages_safe (fun done db h => ?_) _ h
  exact emitRecipients_safe (fun db h => hQ _ db h) h

theorem writes_markReadBody (workspaceId userId notificationId : Id) :
    (markReadBody workspaceId userId notificationId).Writes PutsRead := by
  refine (writes_query _).bind fun found => (writes_orThrow _ _).bind fun existing => ?_
  split
  · trivial
  · intro now
    have hupdate : (update (fun _ => ownWhere workspaceId userId notificationId)
        (readNow now)).Writes PutsRead := by
      refine ⟨fun db e he w hw => ?_, fun _ => trivial⟩
      obtain ⟨r, _, _, rfl⟩ := eval_update he
      rw [List.mem_singleton.mp hw]
      exact ⟨_, rfl, rfl⟩
    exact hupdate.bind fun _ => trivial

theorem markRead_safe {workspaceId userId notificationId : Id} :
    (NotificationService.markRead workspaceId userId notificationId).Safe (unrepeated ι) i
      (fun _ _ => True) db := by
  simp only [NotificationService.markRead, Call.Safe_bind]
  refine Call.Safe_transaction ?_
  refine Tx.Writes.safe (fun done own db hws db' hlater _ => ?_)
    (writes_markReadBody workspaceId userId notificationId) (fun w hw => by cases hw)
  have hone : OneUnread (own.view db') := OneUnread.reads hws hlater.2
  exact ⟨commits_unrepeated hone, signalIf_safe (fun _ _ => trivial) hone⟩

theorem markAllRead_safe {workspaceId userId : Id} :
    (NotificationService.markAllRead workspaceId userId).Safe (unrepeated ι) i
      (fun _ _ => True) db := by
  simp only [NotificationService.markAllRead, Call.Safe_bind, Call.auto_bind]
  intro now
  simp only [updateMany, Call.auto_exec]
  refine Call.Safe_exec fun db' hlater _ e he => ?_
  have hone : OneUnread (db'.applyAll e.writes) := by
    refine OneUnread.reads (fun w hw => ?_) hlater.2
    rw [(eval_updateMany he).2] at hw
    obtain ⟨n, _, rfl⟩ := List.mem_map.mp hw
    exact ⟨_, rfl, rfl⟩
  exact ⟨commits_unrepeated hone, signalIf_safe (fun _ _ => trivial) hone⟩

theorem call_safe (op : ReminderOp) (h : OneUnread db) :
    op.call.Safe (unrepeated ι) i (fun _ _ => True) db := by
  cases op with
  | runScan pages =>
    rw [ReminderOp.call, Call.Safe_bind]
    exact runScan_safe (fun _ _ _ => trivial) h
  | markRead workspaceId userId notificationId =>
    rw [ReminderOp.call, Call.Safe_bind]
    exact markRead_safe
  | markAllRead workspaceId userId =>
    rw [ReminderOp.call, Call.Safe_bind]
    exact markAllRead_safe

end Safe

/-- The task is due within the window, and somebody is assigned. -/
def IsDueSoon (now : Instant) (db : Db) (t : TaskRow) : Prop :=
  (∃ due, t.dueDate = some due ∧ now < due ∧ due ≤ now + dueWindowMs) ∧ assigneesOf db t.id ≠ []

theorem mem_dueFrom_none {now : Instant} {db : Db} {t : TaskRow} :
    t ∈ dueFrom now (now + dueWindowMs) none db ↔ t ∈ rows TaskRow db ∧ IsDueSoon now db t := by
  rw [mem_dueFrom, dueWhere_iff, IsDueSoon]
  refine and_congr_right fun _ => ⟨?_, ?_⟩
  · rintro ⟨due, hdue, hnow, htill, _, hassigned⟩
    exact ⟨⟨due, hdue, hnow, htill⟩, hassigned⟩
  · rintro ⟨⟨due, hdue, hnow, htill⟩, hassigned⟩
    exact ⟨due, hdue, hnow, htill, rfl, hassigned⟩

/-- A scan that completes visits every task due within the window, once, and no other; tells everybody
assigned to one, unless they are told, and nobody twice. However many scans overlap, and whoever reads
meanwhile, no pair comes to have two unread reminders. -/
theorem scan_exact :
    (∀ (env : Env kurul) (w w' : World kurul) (pages n : Nat), Scannable env w →
      (DueSoonWorker.runScan pages).run env w = (.ok n, w') →
      (((runVisited env pages w).map ScanTaskRow.id).Nodup ∧
        ∀ taskId, taskId ∈ (runVisited env pages w).map ScanTaskRow.id ↔
          ∃ t ∈ rows TaskRow w.db, t.id = taskId ∧ IsDueSoon (env.time w.ticks) w.db t) ∧
      (∀ t ∈ rows TaskRow w.db, IsDueSoon (env.time w.ticks) w.db t →
        ∀ userId ∈ assigneesOf w.db t.id,
          Told (env.time w.ticks - dueWindowMs) w'.db t.id userId) ∧
      (∀ taskId userId, Told (env.time w.ticks - dueWindowMs) w.db taskId userId →
        ∀ n ∈ rows NotificationRow w'.db, n.taskId = some taskId → n.userId = userId →
          n ∈ rows NotificationRow w.db) ∧
      ∀ n ∈ rows NotificationRow w'.db, n ∉ rows NotificationRow w.db →
        ∀ n' ∈ rows NotificationRow w'.db, n' ∉ rows NotificationRow w.db →
          n.taskId = n'.taskId → n.userId = n'.userId → n = n') ∧
    ∀ {ι : Type} [DecidableEq ι] (ops : ι → ReminderOp) (db : Db) (σ : Config kurul ι),
      OneUnread db → Run (fun _ _ _ => True) (Config.start db fun i => (ops i).call) σ →
        OneUnread σ.db := by
  constructor
  · intro env w w' pages n hw hrun
    obtain ⟨hvisited, hins⟩ := runScan_ok hw hrun
    have hids : (runVisited env pages w).map ScanTaskRow.id =
        (dueFrom (env.time w.ticks) (env.time w.ticks + dueWindowMs) none w.db).map TaskRow.id := by
      rw [hvisited, List.map_map]
      rfl
    refine ⟨⟨?_, fun taskId => ?_⟩, fun t ht hdue userId hu => ?_, fun taskId userId htold n hn htask
      huser => ?_, fun n hn hnot n' hn' hnot' htask huser => ?_⟩
    · rw [hids]
      exact ((sortBy_perm _ _).map _).nodup_iff.mpr
        ((nodup_ids TaskRow w.db).sublist (List.filter_sublist.map _))
    · rw [hids, List.mem_map]
      refine exists_congr fun t => ?_
      rw [mem_dueFrom_none]
      tauto
    · have hseen : scanned w.db t ∈ runVisited env pages w := by
        rw [hvisited]
        exact List.mem_map_of_mem (mem_dueFrom_none.mpr ⟨ht, hdue⟩)
      obtain ⟨⟨due, hsome, _⟩, _⟩ := hdue
      exact hins.told (t.id, userId) (mem_batchPairs.mpr
        ⟨_, hseen, Option.isSome_iff_exists.mpr ⟨due, hsome⟩, rfl, hu⟩)
    · by_contra hnot
      obtain ⟨p, _, hunread, huntold⟩ := hins.new n hn hnot
      obtain ⟨_, _, htask', huser'⟩ := unreadFor_iff.mp hunread
      obtain rfl : taskId = p.1 := Option.some.inj (htask.symm.trans htask')
      obtain rfl : userId = p.2 := huser.symm.trans huser'
      exact huntold htold
    · obtain ⟨p, _, hunread, _⟩ := hins.new n hn hnot
      obtain ⟨p', _, hunread', _⟩ := hins.new n' hn' hnot'
      obtain ⟨_, _, hp, hu⟩ := unreadFor_iff.mp hunread
      obtain ⟨htype', hread', _, _⟩ := unreadFor_iff.mp hunread'
      exact hins.single n hn hnot n' hn' hnot' p.1 p.2 hunread
        (unreadFor_iff.mpr ⟨htype', hread', htask ▸ hp, huser ▸ hu⟩)
  · intro ι _ ops db σ hdb hrun
    have hstart : (Config.start db fun i => (ops i).call).Good (unrepeated ι) :=
      .start hdb fun i => call_safe (ops i) hdb
    exact (hrun.good hstart fun _ _ _ _ => trivial).inv

/-- A task due in an hour with two assignees, one of whom has an unread reminder of it. -/
def halfReminded : Db where
  rows := [
    .user ⟨js "ada", js "ada@example.org", js "Ada", true, none, none, none⟩,
    .user ⟨js "bo", js "bo@example.org", js "Bo", true, none, none, none⟩,
    .workspace ⟨js "w", js "Workspace", js "workspace"⟩,
    .board ⟨js "b", js "w", js "Board", none, 0⟩,
    .column ⟨js "c", js "b", js "To do", 1000, none, .unstarted⟩,
    .task ⟨js "t", js "b", js "c", js "Task", none, .medium, 5, some 3600000, none, js "ada", 0, 0⟩,
    .taskAssignee ⟨js "y", js "t", js "ada"⟩,
    .taskAssignee ⟨js "z", js "t", js "bo"⟩,
    .notification ⟨js "n", js "w", js "ada", .dueSoon, some (js "t"), none, .obj [], none, 0⟩]
  nodup := by decide +kernel

/-- A scan alone, and two scans that both read before either inserts. -/
theorem scan_exact_halfReminded :
    (∃ n w', (DueSoonWorker.runScan 1).run calm (World.start halfReminded) = (.ok n, w') ∧
      js "t" ∈ (runVisited calm 1 (World.start halfReminded)).map ScanTaskRow.id ∧
      Told (0 - dueWindowMs) w'.db (js "t") (js "bo") ∧
      (∀ n ∈ rows NotificationRow w'.db, n.taskId = some (js "t") → n.userId = js "ada" →
        n ∈ rows NotificationRow halfReminded)) ∧
    ∃ σ : Config kurul (Fin 2), σ.returned 0 = true ∧ σ.returned 1 = true ∧
      (rows NotificationRow σ.db).length = 2 ∧ OneUnread σ.db := by
  have htask : (⟨js "t", js "b", js "c", js "Task", none, .medium, 5, some 3600000, none, js "ada",
      0, 0⟩ : TaskRow) ∈ rows TaskRow halfReminded := mem_rows.mpr (by simp [halfReminded, Model.row])
  have hdue : IsDueSoon 0 halfReminded ⟨js "t", js "b", js "c", js "Task", none, .medium, 5,
      some 3600000, none, js "ada", 0, 0⟩ :=
    ⟨⟨3600000, rfl, by decide, by decide⟩, by decide +kernel⟩
  have hscan : Scannable calm (World.start halfReminded) := by
    have hid : ∀ n ∈ rows NotificationRow halfReminded, n.id.head? = some 110 := by decide +kernel
    refine ⟨?_, ?_, fun n hn k _ heq => ?_, fun k k' _ _ heq => ?_⟩
    · show ∀ t ∈ rows TaskRow halfReminded, ∃ b ∈ rows BoardRow halfReminded, b.id = t.boardId
      decide +kernel
    · show ∀ a ∈ rows TaskAssigneeRow halfReminded, colon ∉ a.userId
      decide +kernel
    · have hhead := hid n hn
      rw [heq] at hhead
      cases hhead
    · have hlength := congrArg List.length heq
      simpa [calm] using hlength
  have hruns : ((DueSoonWorker.runScan 1).run calm (World.start halfReminded)).1.isOk = true := by
    decide +kernel
  obtain ⟨n, w', hrun⟩ := Call.run_isOk calm _ hruns
  obtain ⟨⟨_, hvisited⟩, htold, hold, _⟩ := scan_exact.1 calm _ w' 1 n hscan hrun
  refine ⟨⟨n, w', hrun, (hvisited _).mpr ⟨_, htask, rfl, hdue⟩,
    htold _ htask hdue (js "bo") (by decide +kernel), hold _ _ ?_⟩, ?_⟩
  · exact told_of_unreadFor (n := ⟨js "n", js "w", js "ada", .dueSoon, some (js "t"), none, .obj [],
      none, 0⟩) (mem_rows.mpr (by simp [World.start, halfReminded, Model.row])) (by decide)
  · have hgoes : ((Config.start (S := kurul) halfReminded fun _ : Fin 2 =>
        (ReminderOp.runScan 1).call).schedule (0 : Instant) (fun _ _ _ => true)
          (List.replicate 3 (0, js "x") ++ List.replicate 3 (1, js "v") ++
            List.replicate 4 (0, js "x") ++ List.replicate 3 (1, js "v"))).any
        (fun (σ : Config kurul (Fin 2)) => σ.returned 0 && σ.returned 1 &&
          decide ((rows NotificationRow σ.db).length = 2)) = true := by
      decide +kernel
    obtain ⟨σ, hσ, hend⟩ := (Option.any_eq_true _ _).mp hgoes
    simp only [Bool.and_eq_true, decide_eq_true_eq] at hend
    have hrunTwo : Run (fun _ _ _ => True) _ σ := run_schedule (fun _ _ _ _ => trivial) .refl hσ
    refine ⟨σ, hend.1.1, hend.1.2, hend.2, scan_exact.2 _ halfReminded σ ?_ hrunTwo⟩
    rw [oneUnread_iff]
    intro n hn n' hn' _
    have hall : ∀ n ∈ rows NotificationRow halfReminded, n.id = js "n" := by decide +kernel
    exact eq_of_id hn hn' ((hall n hn).trans (hall n' hn').symm)

end DueSoonWorker
end Kurul
