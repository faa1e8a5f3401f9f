import Kurul.Notification.DueSoon
import Kurul.Notification.Unread

/-!
# Kurul.Notification.Reminders

What an insert of reminders leaves, given the partial unique index on unread ones.

* `mem_rows_insertable`, `insertable_skipped`, `insertable_apart` — `createMany` with
  `skipDuplicates`, row by row.
* `OneUnread` — no pair of a task and a user has two unread reminders.
* `Told`      — a pair that is not to be reminded.
* `mem_skip`  — the skip set of a batch holds the pairs that are told, and no other of its pairs.
-/

namespace Kurul

open Sql

/-! ## Inserting what can be inserted -/

section Insertable

variable {R : Type} [Model R] {rs kept : List R} {db : Db}

theorem unique_iff {v : Row} :
    v.unique db = true ↔ ∀ u ∈ db.rows, u.key ≠ v.key → u.clashes v = false := by
  simp only [Row.unique, List.all_eq_true, Bool.not_eq_true', Bool.and_eq_false_iff,
    decide_eq_false_iff_not, not_not, ne_eq, or_iff_not_imp_left]

/-- Why a row is skipped: a row under its key, or one it may not stand beside. -/
theorem taken_of_insertRefusal {v : Row} (h : insertRefusal v db = some .p2002) :
    ∃ u ∈ db.rows, u.key = v.key ∨ u.clashes v = true := by
  simp only [insertRefusal] at h
  split at h
  · rename_i hrefused
    rcases Bool.or_eq_true_iff.mp hrefused with hkey | hclash
    · obtain ⟨u, hu⟩ := Option.isSome_iff_exists.mp hkey
      exact ⟨u, Store.mem_of_get? hu, .inl (Store.key_of_get? hu)⟩
    · rw [Bool.not_eq_true', ← Bool.not_eq_true, unique_iff] at hclash
      push Not at hclash
      obtain ⟨u, hu, _, hclash⟩ := hclash
      exact ⟨u, hu, .inr (by simpa using hclash)⟩
  · split at h <;> cases h

/-- What may be inserted may stand beside every row. -/
theorem apart_of_insertRefusal {v : Row} (h : insertRefusal v db = none) :
    ∀ u ∈ db.rows, u.key ≠ v.key ∧ u.clashes v = false := by
  have hnew := Store.get?_eq_none_iff.mp (get?_of_insertRefusal h)
  simp only [insertRefusal] at h
  split at h
  · cases h
  · rename_i hfree
    simp only [Bool.or_eq_true, not_or, Bool.not_eq_true, Bool.not_eq_false'] at hfree
    exact fun u hu => ⟨hnew u hu, unique_iff.mp hfree.2 u hu (hnew u hu)⟩

theorem insertable_cons {r : R} (h : insertable (r :: rs) db = .ok kept) :
    (insertRefusal (Model.row r) db = some .p2002 ∧ insertable rs db = .ok kept) ∨
      ∃ kept', insertRefusal (Model.row r) db = none ∧
        insertable rs (db.put (Model.row r)) = .ok kept' ∧ kept = r :: kept' := by
  simp only [insertable] at h
  split at h
  · rename_i hr
    exact .inl ⟨hr, h⟩
  · cases h
  · rename_i hr
    cases hrest : insertable rs (db.put (Model.row r)) with
    | error f =>
      rw [hrest] at h
      cases h
    | ok kept' =>
      rw [hrest] at h
      cases h
      exact .inr ⟨kept', hr, rfl, rfl⟩

theorem mem_insertable_of_mem (h : insertable rs db = .ok kept) {v : Row} (hv : v ∈ db.rows) :
    v ∈ (db.applyAll (kept.map fun r => .put (Model.row r))).rows := by
  induction rs generalizing db kept with
  | nil =>
    cases h
    exact hv
  | cons x rs ih =>
    rcases insertable_cons h with ⟨_, hrest⟩ | ⟨kept', hx, hrest, rfl⟩
    · exact ih hrest hv
    · have hput : v ∈ (db.put (Model.row x)).rows :=
        Store.mem_rows_put.mpr (.inr ⟨hv, (apart_of_insertRefusal hx v hv).1⟩)
      rw [List.map_cons, Store.applyAll_cons]
      exact ih hrest hput

/-- The rows afterwards are those there were and those inserted. -/
theorem mem_rows_insertable (h : insertable rs db = .ok kept) {r : R} :
    r ∈ rows R (db.applyAll (kept.map fun r => .put (Model.row r))) ↔ r ∈ rows R db ∨ r ∈ kept := by
  induction rs generalizing db kept with
  | nil =>
    cases h
    simp
  | cons x rs ih =>
    rcases insertable_cons h with ⟨_, hrest⟩ | ⟨kept', hx, hrest, rfl⟩
    · exact ih hrest
    · have hnew : r ∈ rows R db → Model.id r ≠ Model.id x :=
        fun hr => not_mem_of_insertRefusal hx r hr
      refine (ih hrest).trans ?_
      rw [mem_rows_put, List.mem_cons]
      tauto

/-- A row that is not inserted meets one under its key, or one it may not stand beside. -/
theorem insertable_skipped (h : insertable rs db = .ok kept) {r : R} (hr : r ∈ rs) :
    r ∈ kept ∨ ∃ v ∈ (db.applyAll (kept.map fun r => .put (Model.row r))).rows,
      v.key = (Model.row r).key ∨ v.clashes (Model.row r) = true := by
  induction rs generalizing db kept with
  | nil => cases hr
  | cons x rs ih =>
    rcases insertable_cons h with ⟨hx, hrest⟩ | ⟨kept', hx, hrest, rfl⟩
    · rcases List.mem_cons.mp hr with rfl | hr
      · obtain ⟨v, hv, htaken⟩ := taken_of_insertRefusal hx
        exact .inr ⟨v, mem_insertable_of_mem hrest hv, htaken⟩
      · exact ih hrest hr
    · rcases List.mem_cons.mp hr with rfl | hr
      · exact .inl List.mem_cons_self
      · exact (ih hrest hr).imp (List.mem_cons_of_mem _) id

/-- What is inserted may stand beside what was there, and beside the rest of it. -/
theorem insertable_apart (h : insertable rs db = .ok kept) :
    (∀ r ∈ kept, ∀ v ∈ db.rows, v.clashes (Model.row r) = false) ∧
      kept.Pairwise fun r r' => (Model.row r).clashes (Model.row r') = false := by
  induction rs generalizing db kept with
  | nil =>
    cases h
    exact ⟨fun r hr => (by cases hr), .nil⟩
  | cons x rs ih =>
    rcases insertable_cons h with ⟨_, hrest⟩ | ⟨kept', hx, hrest, rfl⟩
    · exact ih hrest
    · obtain ⟨hold, hpairs⟩ := ih hrest
      have hfree := apart_of_insertRefusal hx
      refine ⟨fun r hr v hv => ?_, List.pairwise_cons.mpr ⟨fun r hr => ?_, hpairs⟩⟩
      · rcases List.mem_cons.mp hr with rfl | hr
        · exact (hfree v hv).2
        · exact hold r hr v (Store.mem_rows_put.mpr (.inr ⟨hv, (hfree v hv).1⟩))
      · exact hold r hr _ (Store.mem_rows_put.mpr (.inl rfl))

end Insertable

namespace DueSoonWorker

/-! ## Reminders -/

/-- An unread reminder of the pair. -/
def unreadFor (taskId userId : Id) (n : NotificationRow) : Bool :=
  n.type = .dueSoon && n.readAt.isNone && n.taskId = some taskId && n.userId = userId

/-- No pair has two unread reminders. -/
def OneUnread (db : Db) : Prop :=
  ∀ taskId userId, ((rows NotificationRow db).filter (unreadFor taskId userId)).length ≤ 1

/-- A reminder of the pair still stands. -/
def Told (since : Instant) (db : Db) (taskId userId : Id) : Prop :=
  ∃ n ∈ rows NotificationRow db, n.taskId = some taskId ∧ n.userId = userId ∧ stands since n = true

section Reminders

variable {db db' : Db} {since : Instant} {taskId userId : Id}

theorem unreadFor_iff {n : NotificationRow} : unreadFor taskId userId n = true ↔
    n.type = .dueSoon ∧ n.readAt = none ∧ n.taskId = some taskId ∧ n.userId = userId := by
  simp [unreadFor, and_assoc]

/-- The unique index is about unread reminders of one pair. -/
theorem clashes_notification {n n' : NotificationRow} :
    (Row.notification n).clashes (.notification n') = true ↔
      ∃ taskId userId, unreadFor taskId userId n = true ∧
        unreadFor taskId userId n' = true := by
  simp only [Row.clashes, Bool.and_eq_true, decide_eq_true_eq, Option.isNone_iff_eq_none,
    unreadFor_iff]
  constructor
  · rintro ⟨⟨⟨⟨⟨⟨htype, htype'⟩, hread⟩, hread'⟩, hsome⟩, htask⟩, huser⟩
    obtain ⟨t, ht⟩ := Option.isSome_iff_exists.mp hsome
    exact ⟨t, n.userId, ⟨htype, hread, ht, rfl⟩, htype', hread', htask ▸ ht, huser.symm⟩
  · rintro ⟨t, u, ⟨htype, hread, htask, huser⟩, htype', hread', htask', huser'⟩
    simp [htype, htype', hread, hread', htask, htask', huser, huser']

/-- A list without repetitions has at most one entry, or two that differ. -/
theorem length_le_one_iff {α : Type} {l : List α} (h : l.Nodup) :
    l.length ≤ 1 ↔ ∀ a ∈ l, ∀ b ∈ l, a = b := by
  match l, h with
  | [], _ => simp
  | [a], _ => simp
  | a :: b :: l, h =>
    have hne : a ≠ b := fun heq => (List.nodup_cons.mp h).1 (heq ▸ List.mem_cons_self)
    constructor
    · intro hlen
      simp at hlen
    · intro hall
      exact absurd (hall a (by simp) b (by simp)) hne

/-- Two unread reminders of one pair are one. -/
theorem oneUnread_iff : OneUnread db ↔ ∀ n ∈ rows NotificationRow db,
    ∀ n' ∈ rows NotificationRow db, (Row.notification n).clashes (.notification n') = true →
      n = n' := by
  have hnodup : (rows NotificationRow db).Nodup := (nodup_ids NotificationRow db).of_map Model.id
  simp only [OneUnread, length_le_one_iff (hnodup.filter _), List.mem_filter]
  constructor
  · intro h n hn n' hn' hclash
    obtain ⟨t, u, hunread, hunread'⟩ := clashes_notification.mp hclash
    exact h t u n ⟨hn, hunread⟩ n' ⟨hn', hunread'⟩
  · intro h t u n hn n' hn'
    exact h n hn.1 n' hn'.1 (clashes_notification.mpr ⟨t, u, hn.2, hn'.2⟩)

theorem stands_of_unreadFor {n : NotificationRow} (h : unreadFor taskId userId n = true) :
    stands since n = true := by
  obtain ⟨htype, hread, _⟩ := unreadFor_iff.mp h
  simp [stands, htype, hread]

theorem told_of_unreadFor {n : NotificationRow} (hn : n ∈ rows NotificationRow db)
    (h : unreadFor taskId userId n = true) : Told since db taskId userId := by
  obtain ⟨_, _, htask, huser⟩ := unreadFor_iff.mp h
  exact ⟨n, hn, htask, huser, stands_of_unreadFor h⟩

theorem Told.mono (h : Told since db taskId userId)
    (hsub : ∀ n ∈ rows NotificationRow db, n ∈ rows NotificationRow db') :
    Told since db' taskId userId := by
  obtain ⟨n, hn, htold⟩ := h
  exact ⟨n, hsub n hn, htold⟩

/-! ## The skip set -/

/-- The separator of a key. -/
def colon : CodeUnit := 58

/-- A key names one user and one task, where no user's id holds the separator. -/
theorem notifiedKey_inj {user task user' task' : Id} (h : colon ∉ user) (h' : colon ∉ user') :
    notifiedKey user task = notifiedKey user' task' ↔ user = user' ∧ task = task' := by
  constructor
  · intro heq
    have hsplit : ∀ user task : Id, colon ∉ user →
        (notifiedKey user task).takeWhile (· ≠ colon) = user := by
      intro user task hnot
      have hall : ∀ c ∈ user, (decide (c ≠ colon)) = true := fun c hc =>
        decide_eq_true fun heq => hnot (heq ▸ hc)
      rw [notifiedKey, List.append_assoc, List.takeWhile_append_of_pos hall,
        show js ":" = [colon] from by decide, List.singleton_append,
        List.takeWhile_cons_of_neg (by simp), List.append_nil]
    have huser : user = user' := by rw [← hsplit user task h, heq, hsplit user' task' h']
    subst huser
    exact ⟨rfl, List.append_cancel_left heq⟩
  · rintro ⟨rfl, rfl⟩
    rfl

theorem mem_batchPairs {tasks : List ScanTaskRow} {p : Id × Id} : p ∈ batchPairs tasks ↔
    ∃ task ∈ tasks, task.dueDate.isSome = true ∧ task.id = p.1 ∧ p.2 ∈ task.assignees := by
  obtain ⟨t, u⟩ := p
  simp only [batchPairs, List.mem_flatMap]
  refine exists_congr fun task => and_congr_right fun _ => ?_
  cases task.dueDate with
  | none => simp
  | some due => simp [and_comm]

/-- Whoever was told is skipped. -/
theorem mem_skip_of_told {tasks : List ScanTaskRow} {p : Id × Id} (hp : p ∈ batchPairs tasks)
    (h : Told since db p.1 p.2) :
    notifiedKey p.2 p.1 ∈ alreadyNotified (batchPairs tasks) since db := by
  obtain ⟨n, hn, htask, huser, hstands⟩ := h
  refine List.mem_map.mpr ⟨n, List.mem_filter.mpr ⟨hn, ?_⟩, by rw [htask, huser, Option.getD_some]⟩
  rw [Bool.and_eq_true]
  exact ⟨hstands, List.any_eq_true.mpr ⟨p, hp, by simp [htask, huser]⟩⟩

/-- The skip set of a batch holds the pairs of it that were told. -/
theorem mem_skip {tasks : List ScanTaskRow} (hcolon : ∀ p ∈ batchPairs tasks, colon ∉ p.2)
    {p : Id × Id} (hp : p ∈ batchPairs tasks) :
    notifiedKey p.2 p.1 ∈ alreadyNotified (batchPairs tasks) since db ↔ Told since db p.1 p.2 := by
  refine ⟨fun h => ?_, mem_skip_of_told hp⟩
  obtain ⟨n, hn, hkey⟩ := List.mem_map.mp h
  simp only [List.mem_filter, Bool.and_eq_true, List.any_eq_true, decide_eq_true_eq] at hn
  obtain ⟨hn, hstands, q, hq, htask, huser⟩ := hn
  rw [htask, huser, Option.getD_some] at hkey
  obtain ⟨hu, ht⟩ := (notifiedKey_inj (hcolon q hq) (hcolon p hp)).mp hkey
  exact ⟨n, hn, by rw [htask, ht], by rw [huser, hu], hstands⟩

/-! ## The rows to insert -/

theorem pair_of_mem_reminders {tasks : List ScanTaskRow} {skip : List JsString} {r : Reminder}
    (h : r ∈ tasks.flatMap (remindersOf skip)) : (r.taskId, r.userId) ∈ batchPairs tasks ∧
      notifiedKey r.userId r.taskId ∉ skip := by
  obtain ⟨task, htask, hr⟩ := List.mem_flatMap.mp h
  have hdue : task.dueDate.isSome = true := by
    cases hd : task.dueDate with
    | none => simp [remindersOf, hd] at hr
    | some due => rfl
  obtain ⟨_, hid, hmem, hskip⟩ := mem_remindersOf hr
  rw [hid]
  exact ⟨mem_batchPairs.mpr ⟨task, htask, hdue, rfl, hmem⟩, hskip⟩

theorem exists_reminder {tasks : List ScanTaskRow} {skip : List JsString} {p : Id × Id}
    (hp : p ∈ batchPairs tasks) (hskip : notifiedKey p.2 p.1 ∉ skip) :
    ∃ r ∈ tasks.flatMap (remindersOf skip), (r.taskId, r.userId) = p := by
  obtain ⟨t, u⟩ := p
  obtain ⟨task, htask, hdue, hid, hu⟩ := mem_batchPairs.mp hp
  simp only at hid hu hskip
  obtain ⟨due, hd⟩ := Option.isSome_iff_exists.mp hdue
  have hmem : u ∈ task.assignees.filter fun userId => notifiedKey userId task.id ∉ skip :=
    List.mem_filter.mpr ⟨hu, decide_eq_true (by rw [hid]; exact hskip)⟩
  refine ⟨⟨task.workspaceId, u, task.id, [field "title" task.title,
    field "dueDate" (toISOString due), field "type" NotificationType.dueSoon.text]⟩,
    List.mem_flatMap.mpr ⟨task, htask, ?_⟩, Prod.ext hid rfl⟩
  rw [remindersOf, hd]
  exact List.mem_map.mpr ⟨u, hmem, rfl⟩

theorem unreadFor_row (now : Instant) (id : Id) (r : Reminder) :
    unreadFor r.taskId r.userId (Reminder.row now id r) = true := by
  simp [unreadFor, Reminder.row]

end Reminders
end DueSoonWorker
end Kurul
