import Kurul.Notification.Reminders

/-!
# Kurul.Notification.ScanRun

A scan that runs alone.

* `visited`      — the tasks of the pages a scan reads, in order.
* `Inserted`     — what the reminders of some pairs leave, composed along the pages.
* `scanPages_ok` — the loop: the pages are the tasks due from the cursor on, and the reminders those
  of their assignees.
-/

namespace Kurul
namespace DueSoonWorker

open Sql

variable {env : Env kurul} {w w' w₁ : World kurul} {db : Db} {now till since : Instant}

/-! ## The pages of a scan -/

/-- The tasks of the pages from a cursor on, as `scanPages` reads them. -/
def visited (env : Env kurul) (now till since : Instant) :
    (pages : Nat) → Option Cursor → World kurul → List ScanTaskRow
  | 0, _, _ => []
  | pages + 1, cursor, w =>
    let tasks := scanPage now till cursor w.db
    match tasks.getLast? with
    | none => []
    | some last =>
      match last.dueDate with
      | none => tasks
      | some due =>
        if tasks.length < scanBatchSize then tasks
        else
          let read : World kurul := { w with stmts := w.stmts + 1 }
          tasks ++ visited env now till since pages (some ⟨due, last.id⟩)
            ((notifyBatch tasks since).run env read).2

/-- The tasks of the pages `runScan` reads. -/
def runVisited (env : Env kurul) (pages : Nat) (w : World kurul) : List ScanTaskRow :=
  let now := env.time w.ticks
  visited env now (now + dueWindowMs) (now - dueWindowMs) pages none
    { w with ticks := w.ticks + 1 }

/-- The order of the pages. -/
def dueKey (t : TaskRow) : Instant ×ₗ Id := toLex (t.dueDate.getD 0, t.id)

/-- The tasks due from a cursor on. -/
def dueFrom (now till : Instant) (cursor : Option Cursor) (db : Db) : List TaskRow :=
  sortBy dueKey ((rows TaskRow db).filter (dueWhere now till cursor db))

/-- What a page shows of a task whose board is there. -/
def scanned (db : Db) (t : TaskRow) : ScanTaskRow :=
  ⟨t.id, t.title, t.dueDate, ((byId BoardRow db t.boardId).map BoardRow.workspaceId).getD [],
    assigneesOf db t.id⟩

/-- Every task is on a board. -/
def OnBoards (db : Db) : Prop :=
  ∀ t ∈ rows TaskRow db, ∃ b ∈ rows BoardRow db, b.id = t.boardId

theorem mem_dueFrom {cursor : Option Cursor} {t : TaskRow} :
    t ∈ dueFrom now till cursor db ↔ t ∈ rows TaskRow db ∧ dueWhere now till cursor db t = true := by
  rw [dueFrom, mem_sortBy, List.mem_filter]

theorem dueWhere_iff {cursor : Option Cursor} {t : TaskRow} :
    dueWhere now till cursor db t = true ↔ ∃ due, t.dueDate = some due ∧ now < due ∧ due ≤ till ∧
      pastCursor cursor due t.id = true ∧ assigneesOf db t.id ≠ [] := by
  simp [dueWhere, Option.any_eq_true, and_assoc]

theorem isSome_of_mem_dueFrom {cursor : Option Cursor} {t : TaskRow}
    (h : t ∈ dueFrom now till cursor db) : t.dueDate.isSome = true := by
  obtain ⟨due, hdue, _⟩ := dueWhere_iff.mp (mem_dueFrom.mp h).2
  rw [hdue]
  rfl

/-- Tasks differ in their ids, and so in the order of the pages. -/
theorem nodup_dueKey (cursor : Option Cursor) (db : Db) :
    (((rows TaskRow db).filter (dueWhere now till cursor db)).map dueKey).Nodup := by
  have hids : (((rows TaskRow db).filter (dueWhere now till cursor db)).map TaskRow.id).Nodup :=
    (nodup_ids TaskRow db).sublist (List.filter_sublist.map _)
  have hkeys : (((rows TaskRow db).filter (dueWhere now till cursor db)).map TaskRow.id) =
      (((rows TaskRow db).filter (dueWhere now till cursor db)).map dueKey).map
        fun k => (ofLex k).2 := by
    rw [List.map_map]
    rfl
  rw [hkeys] at hids
  exact hids.of_map _

theorem dueFrom_lt (cursor : Option Cursor) (db : Db) :
    (dueFrom now till cursor db).Pairwise fun t t' => dueKey t < dueKey t' :=
  sortBy_lt (nodup_dueKey cursor db)

theorem scanPage_eq (hboards : OnBoards db) (cursor : Option Cursor) :
    scanPage now till cursor db =
      ((dueFrom now till cursor db).take scanBatchSize).map (scanned db) := by
  have hsome : ∀ t ∈ (dueFrom now till cursor db).take scanBatchSize,
      scanTask db t = some (scanned db t) := by
    intro t ht
    obtain ⟨b, hb, hid⟩ := hboards t (mem_dueFrom.mp (List.mem_of_mem_take ht)).1
    have hbyId : byId BoardRow db t.boardId = some b := byId_eq_some.mpr ⟨hb, hid⟩
    rw [scanTask, scanned, hbyId]
    rfl
  exact (List.filterMap_congr hsome).trans (List.filterMap_eq_map' (f := scanned db) ▸ rfl)

theorem dueKey_of_some {t : TaskRow} {due : Instant} (h : t.dueDate = some due) :
    dueKey t = toLex (due, t.id) := by
  rw [dueKey, h]
  rfl

/-- Past a cursor is behind it in the order of the pages. -/
theorem pastCursor_iff {c : Cursor} {due : Instant} {id : Id} :
    pastCursor (some c) due id = true ↔ toLex (c.dueDate, c.id) < toLex (due, id) := by
  rw [Prod.Lex.toLex_lt_toLex]
  simp only [pastCursor, Option.all_some, Bool.or_eq_true, Bool.and_eq_true, decide_eq_true_eq]
  exact or_congr Iff.rfl (and_congr_left fun _ => eq_comm)

theorem dueWhere_next {cursor : Option Cursor} {t : TaskRow} {due : Instant}
    (hdue : t.dueDate = some due) (ht : dueWhere now till cursor db t = true) (t' : TaskRow) :
    dueWhere now till (some ⟨due, t.id⟩) db t' =
      (decide (dueKey t < dueKey t') && dueWhere now till cursor db t') := by
  rw [Bool.eq_iff_iff, Bool.and_eq_true, decide_eq_true_eq, dueWhere_iff, dueWhere_iff]
  obtain ⟨due₀, hdue₀, _, _, hpast, _⟩ := dueWhere_iff.mp ht
  obtain rfl : due₀ = due := Option.some.inj (hdue₀.symm.trans hdue)
  constructor
  · rintro ⟨due', hdue', hnow, htill, hpast', hassigned⟩
    have hlt := pastCursor_iff.mp hpast'
    refine ⟨by rw [dueKey_of_some hdue, dueKey_of_some hdue']; exact hlt,
      due', hdue', hnow, htill, ?_, hassigned⟩
    cases cursor with
    | none => rfl
    | some c => exact pastCursor_iff.mpr ((pastCursor_iff.mp hpast).trans hlt)
  · rintro ⟨hlt, due', hdue', hnow, htill, _, hassigned⟩
    rw [dueKey_of_some hdue, dueKey_of_some hdue'] at hlt
    exact ⟨due', hdue', hnow, htill, pastCursor_iff.mpr hlt, hassigned⟩

/-- The pages behind a page are those from its last task on. -/
theorem dueFrom_drop {cursor : Option Cursor} {n : Nat} {t : TaskRow} {due : Instant}
    (hlast : ((dueFrom now till cursor db).take n).getLast? = some t) (hdue : t.dueDate = some due) :
    dueFrom now till (some ⟨due, t.id⟩) db = (dueFrom now till cursor db).drop n := by
  have hmem : t ∈ dueFrom now till cursor db := List.mem_of_mem_take (List.mem_of_getLast? hlast)
  have hnext : (rows TaskRow db).filter (dueWhere now till (some ⟨due, t.id⟩) db) =
      ((rows TaskRow db).filter (dueWhere now till cursor db)).filter
        fun t' => decide (dueKey t < dueKey t') := by
    rw [List.filter_filter]
    exact List.filter_congr fun t' _ => dueWhere_next hdue (mem_dueFrom.mp hmem).2 t'
  rw [dueFrom, hnext, sortBy_filter _ (nodup_dueKey cursor db)]
  exact filter_gt_getLast (dueFrom_lt cursor db) hlast fun t' => decide_eq_true_iff

/-! ## The reminders of a page -/

/-- The identifiers drawn from here on are new: no notification has one, and no two are the same. -/
structure Fresh (env : Env kurul) (w : World kurul) : Prop where
  unused : ∀ n ∈ rows NotificationRow w.db, ∀ k, w.ids ≤ k → n.id ≠ env.id k
  distinct : ∀ k k', w.ids ≤ k → w.ids ≤ k' → env.id k = env.id k' → k = k'

/-- What the reminders of some pairs leave. -/
structure Inserted (since : Instant) (pairs : List (Id × Id)) (db db' : Db) : Prop where
  others : ∀ (R : Type) [Model R], Model.table R ≠ .notification → rows R db' = rows R db
  kept : ∀ n ∈ rows NotificationRow db, n ∈ rows NotificationRow db'
  told : ∀ p ∈ pairs, Told since db' p.1 p.2
  new : ∀ n ∈ rows NotificationRow db', n ∉ rows NotificationRow db →
    ∃ p ∈ pairs, unreadFor p.1 p.2 n = true ∧ ¬ Told since db p.1 p.2
  single : ∀ n ∈ rows NotificationRow db', n ∉ rows NotificationRow db →
    ∀ n' ∈ rows NotificationRow db', n' ∉ rows NotificationRow db → ∀ taskId userId,
      unreadFor taskId userId n = true → unreadFor taskId userId n' = true → n = n'

theorem Inserted.refl (since : Instant) (db : Db) : Inserted since [] db db where
  others _ _ _ := rfl
  kept _ hn := hn
  told _ hp := by cases hp
  new _ hn hnot := absurd hn hnot
  single _ hn hnot := absurd hn hnot

theorem unreadFor_pair {n : NotificationRow} {t u t' u' : Id}
    (h : unreadFor t u n = true) (h' : unreadFor t' u' n = true) : t = t' ∧ u = u' := by
  obtain ⟨_, _, htask, huser⟩ := unreadFor_iff.mp h
  obtain ⟨_, _, htask', huser'⟩ := unreadFor_iff.mp h'
  exact ⟨Option.some.inj (htask.symm.trans htask'), huser.symm.trans huser'⟩

theorem Inserted.trans {pairs pairs' : List (Id × Id)} {db db₁ db' : Db}
    (h : Inserted since pairs db db₁) (h' : Inserted since pairs' db₁ db') :
    Inserted since (pairs ++ pairs') db db' where
  others R _ hR := (h'.others R hR).trans (h.others R hR)
  kept n hn := h'.kept n (h.kept n hn)
  told p hp := by
    rcases List.mem_append.mp hp with hp | hp
    · exact (h.told p hp).mono h'.kept
    · exact h'.told p hp
  new n hn hnot := by
    by_cases hn₁ : n ∈ rows NotificationRow db₁
    · obtain ⟨p, hp, hnew⟩ := h.new n hn₁ hnot
      exact ⟨p, List.mem_append_left _ hp, hnew⟩
    · obtain ⟨p, hp, hunread, huntold⟩ := h'.new n hn hn₁
      exact ⟨p, List.mem_append_right _ hp, hunread, fun htold => huntold (htold.mono h.kept)⟩
  single n hn hnot n' hn' hnot' t u hunread hunread' := by
    -- a pair that was reminded by the first is told for the second
    have hlater : ∀ {n n'}, n ∈ rows NotificationRow db₁ → unreadFor t u n = true →
        n' ∈ rows NotificationRow db' → n' ∉ rows NotificationRow db₁ →
        unreadFor t u n' = true → False := by
      intro n n' hn₁ hunread hn' hn₁' hunread'
      obtain ⟨p, _, hp, huntold⟩ := h'.new n' hn' hn₁'
      obtain ⟨rfl, rfl⟩ := unreadFor_pair hunread' hp
      exact huntold (told_of_unreadFor hn₁ hunread)
    by_cases hn₁ : n ∈ rows NotificationRow db₁
    · by_cases hn₁' : n' ∈ rows NotificationRow db₁
      · exact h.single n hn₁ hnot n' hn₁' hnot' t u hunread hunread'
      · exact (hlater hn₁ hunread hn' hn₁' hunread').elim
    · by_cases hn₁' : n' ∈ rows NotificationRow db₁
      · exact (hlater hn₁' hunread' hn hn₁ hunread).elim
      · exact h'.single n hn hn₁ n' hn' hn₁' t u hunread hunread'

theorem run_withIds_ok {T R : Type} {row : Id → T → R} {items : List T} {data : List R}
    (h : (withIds row items).run env w = (.ok data, w')) :
    data = (items.zipIdx w.ids).map (fun p => row (env.id p.2) p.1) ∧
      w' = { w with ids := w.ids + items.length } := by
  induction items generalizing w data with
  | nil =>
    cases h
    exact ⟨rfl, rfl⟩
  | cons item rest ih =>
    rw [withIds] at h
    obtain ⟨id, w₁, hfresh, hrest⟩ := Tx.run_bind_ok h
    cases hfresh
    obtain ⟨created, w₂, hcreated, hret⟩ := Tx.run_bind_ok hrest
    cases hret
    obtain ⟨rfl, rfl⟩ := ih hcreated
    refine ⟨rfl, ?_⟩
    rw [List.length_cons, Nat.add_comm rest.length, ← Nat.add_assoc]

theorem insertReminders_ok {reminders : List Reminder} {b : Batch}
    (h : (insertReminders reminders).run env w = (.ok b, w')) :
    ∃ now kept, insertable ((reminders.zipIdx w.ids).map fun p =>
        Reminder.row now (env.id p.2) p.1) w.db = .ok kept ∧
      w'.db = w.db.applyAll (kept.map fun r => .put (Model.row r)) ∧
      w'.ids = w.ids + reminders.length := by
  simp only [insertReminders] at h
  split at h
  · rename_i hnone
    cases h
    rw [List.isEmpty_iff.mp hnone]
    exact ⟨0, [], rfl, rfl, rfl⟩
  · obtain ⟨count, w₁, h₁, h⟩ := Call.run_bind_ok h
    rw [Call.run_auto] at h₁
    obtain ⟨now, w₂, h₂, h₁⟩ := Tx.run_bind_ok h₁
    obtain ⟨data, w₃, h₃, h₁⟩ := Tx.run_bind_ok h₁
    obtain ⟨e, he, _, rfl⟩ := Tx.run_exec_ok h₁
    obtain ⟨rfl, rfl⟩ := run_withIds_ok h₃
    cases h₂
    obtain ⟨kept, hkept, _, hwrites⟩ := eval_createManySkipping he
    refine ⟨_, kept, hkept, ?_⟩
    split at h <;> cases h <;> exact ⟨by rw [hwrites], rfl⟩

theorem run_notifyBatch_ok {tasks : List ScanTaskRow} {b : Batch}
    (h : (notifyBatch tasks since).run env w = (.ok b, w')) :
    ∃ now kept reminders,
      reminders = tasks.flatMap (remindersOf (alreadyNotified (batchPairs tasks) since w.db)) ∧
      insertable ((reminders.zipIdx w.ids).map fun p => Reminder.row now (env.id p.2) p.1) w.db =
        .ok kept ∧
      w'.db = w.db.applyAll (kept.map fun r => .put (Model.row r)) ∧
      w'.ids = w.ids + reminders.length := by
  simp only [notifyBatch] at h
  split at h
  · rename_i hnone
    -- without pairs there is nobody to remind
    have hnobody : tasks.flatMap (remindersOf (alreadyNotified (batchPairs tasks) since w.db)) = [] :=
      List.eq_nil_iff_forall_not_mem.mpr fun r hr => by
        have hpair := (pair_of_mem_reminders hr).1
        rw [List.isEmpty_iff.mp hnone] at hpair
        cases hpair
    cases h
    rw [hnobody]
    exact ⟨0, [], [], rfl, rfl, rfl, rfl⟩
  · obtain ⟨skip, w₁, hskip, hinsert⟩ := Call.run_bind_ok h
    rw [Call.run_auto] at hskip
    obtain ⟨rfl, rfl⟩ := run_query_ok hskip
    obtain ⟨now, kept, hkept, hdb, hids⟩ := insertReminders_ok hinsert
    exact ⟨now, kept, _, rfl, hkept, hdb, hids⟩

/-- The rows to insert carry identifiers of their own. -/
theorem nodup_drawn (hfresh : Fresh env w) (now : Instant) (reminders : List Reminder) :
    (((reminders.zipIdx w.ids).map fun p => Reminder.row now (env.id p.2) p.1).map
      NotificationRow.id).Nodup := by
  have hids : ((reminders.zipIdx w.ids).map fun p => Reminder.row now (env.id p.2) p.1).map
      NotificationRow.id = ((reminders.zipIdx w.ids).map Prod.snd).map env.id := by
    rw [List.map_map, List.map_map]
    rfl
  rw [hids, List.zipIdx_map_snd]
  refine List.Nodup.map_on (fun k hk k' hk' => ?_) List.nodup_range'
  exact hfresh.distinct k k' (List.left_le_of_mem_range' hk) (List.left_le_of_mem_range' hk')

/-- A row to insert is there afterwards, or an unread reminder of its pair is. -/
theorem told_of_insertable {reminders : List Reminder} {kept : List NotificationRow} {now : Instant}
    (hfresh : Fresh env w)
    (hkept : insertable ((reminders.zipIdx w.ids).map fun p =>
      Reminder.row now (env.id p.2) p.1) w.db = .ok kept) {r : Reminder} (hr : r ∈ reminders) :
    Told since (w.db.applyAll (kept.map fun r => .put (Model.row r))) r.taskId r.userId := by
  obtain ⟨i, hi, hget⟩ := List.mem_iff_getElem.mp hr
  have hdata : Reminder.row now (env.id (w.ids + i)) r ∈
      (reminders.zipIdx w.ids).map fun p => Reminder.row now (env.id p.2) p.1 := by
    refine List.mem_map.mpr ⟨(r, w.ids + i), ?_, rfl⟩
    rw [List.mk_mem_zipIdx_iff_le_and_getElem?_sub]
    exact ⟨by omega, by rw [Nat.add_sub_cancel_left, List.getElem?_eq_getElem hi, hget]⟩
  have hunread := unreadFor_row now (env.id (w.ids + i)) r
  rcases insertable_skipped hkept hdata with hmem | ⟨v, hv, hkey | hclash⟩
  · exact told_of_unreadFor ((mem_rows_insertable hkept).mpr (.inr hmem)) hunread
  · -- nothing stands under an identifier just drawn but the row itself
    obtain ⟨n, rfl, hn, hid⟩ := (get?_eq_some (R := NotificationRow)).mp
      (Store.get?_eq_some_iff.mpr ⟨hv, hkey⟩)
    rcases (mem_rows_insertable hkept).mp hn with hold | hnew
    · exact absurd hid (hfresh.unused n hold _ (by omega))
    · have heq : n = Reminder.row now (env.id (w.ids + i)) r :=
        List.inj_on_of_nodup_map (nodup_drawn hfresh now reminders)
          (mem_of_insertable hkept n hnew) hdata hid
      rw [heq] at hn
      exact told_of_unreadFor hn hunread
  · obtain ⟨n, rfl⟩ : ∃ n, v = .notification n := by
      cases v with
      | notification n => exact ⟨n, rfl⟩
      | _ => cases hclash
    obtain ⟨t, u, hother, hthis⟩ := clashes_notification.mp hclash
    obtain ⟨rfl, rfl⟩ := unreadFor_pair hthis hunread
    exact told_of_unreadFor (mem_rows.mpr hv) hother

/-- Reminders inserted together are of different pairs. -/
theorem single_of_insertable {data kept : List NotificationRow} (hkept : insertable data db = .ok kept)
    {n n' : NotificationRow} (hn : n ∈ kept) (hn' : n' ∈ kept) {taskId userId : Id}
    (hunread : unreadFor taskId userId n = true)
    (hunread' : unreadFor taskId userId n' = true) : n = n' := by
  by_contra hne
  have hsymm : Std.Symm fun r r' : NotificationRow =>
      (Row.notification r).clashes (.notification r') = false := by
    refine ⟨fun r r' h => ?_⟩
    rw [← Bool.not_eq_true] at h ⊢
    intro hclash
    obtain ⟨t, u, h₁, h₂⟩ := clashes_notification.mp hclash
    exact h (clashes_notification.mpr ⟨t, u, h₂, h₁⟩)
  have hapart : (Row.notification n).clashes (.notification n') = false :=
    (insertable_apart hkept).2.forall hn hn' hne
  have hclash := clashes_notification.mpr ⟨taskId, userId, hunread, hunread'⟩
  rw [hapart] at hclash
  cases hclash

/-- A batch reminds those of its pairs that were not told, and no other. -/
theorem notifyBatch_ok {tasks : List ScanTaskRow} {b : Batch} (hfresh : Fresh env w)
    (hcolon : ∀ p ∈ batchPairs tasks, colon ∉ p.2)
    (h : (notifyBatch tasks since).run env w = (.ok b, w')) :
    Inserted since (batchPairs tasks) w.db w'.db ∧ Fresh env w' := by
  obtain ⟨now, kept, reminders, hreminders, hkept, hdb, hids⟩ := run_notifyBatch_ok h
  have hrow : ∀ n ∈ kept, ∃ r ∈ reminders, ∃ k, w.ids ≤ k ∧ k < w'.ids ∧
      n = Reminder.row now (env.id k) r := by
    intro n hn
    obtain ⟨⟨r, k⟩, hmem, rfl⟩ := List.mem_map.mp (mem_of_insertable hkept n hn)
    obtain ⟨hle, hlt, hr⟩ := List.mem_zipIdx hmem
    exact ⟨r, hr ▸ List.getElem_mem _, k, hle, by omega, rfl⟩
  have hmem : ∀ n, n ∈ rows NotificationRow w'.db ↔ n ∈ rows NotificationRow w.db ∨ n ∈ kept := by
    intro n
    rw [hdb]
    exact mem_rows_insertable hkept
  have hnew : ∀ n ∈ rows NotificationRow w'.db, n ∉ rows NotificationRow w.db → n ∈ kept :=
    fun n hn hnot => ((hmem n).mp hn).resolve_left hnot
  constructor
  · refine ⟨fun R _ hR => ?_, fun n hn => (hmem n).mpr (.inl hn), fun p hp => ?_,
      fun n hn hnot => ?_, fun n hn hnot n' hn' hnot' t u hunread hunread' => ?_⟩
    · rw [hdb]
      refine rows_applyAll_of_ne fun x hx => ?_
      obtain ⟨n, _, rfl⟩ := List.mem_map.mp hx
      exact fun htable => hR htable.symm
    · by_cases htold : Told since w.db p.1 p.2
      · exact htold.mono fun n hn => (hmem n).mpr (.inl hn)
      · have hskip : notifiedKey p.2 p.1 ∉ alreadyNotified (batchPairs tasks) since w.db :=
          (mem_skip hcolon hp).not.mpr htold
        obtain ⟨r, hr, rfl⟩ := exists_reminder hp hskip
        rw [hdb]
        exact told_of_insertable hfresh hkept (hreminders ▸ hr)
    · obtain ⟨r, hr, k, _, _, rfl⟩ := hrow n (hnew n hn hnot)
      obtain ⟨hp, hskip⟩ := pair_of_mem_reminders (hreminders ▸ hr)
      exact ⟨_, hp, unreadFor_row _ _ _, (mem_skip hcolon hp).not.mp hskip⟩
    · exact single_of_insertable hkept (hnew n hn hnot) (hnew n' hn' hnot') hunread hunread'
  · refine ⟨fun n hn k hk => ?_, fun k k' hk hk' => hfresh.distinct k k' (by omega) (by omega)⟩
    rcases (hmem n).mp hn with hn | hn
    · exact hfresh.unused n hn k (by omega)
    · obtain ⟨r, _, k', hle, hlt, rfl⟩ := hrow n hn
      intro heq
      have := hfresh.distinct k' k hle (by omega) heq
      omega

/-! ## The loop -/

/-- Reminders leave the tasks as they were, and so the pages behind. -/
theorem dueFrom_inserted {pairs : List (Id × Id)} {db' : Db} (h : Inserted since pairs db db')
    (cursor : Option Cursor) : dueFrom now till cursor db' = dueFrom now till cursor db := by
  have hwhere : dueWhere now till cursor db' = dueWhere now till cursor db := by
    funext t
    rw [dueWhere, dueWhere, assigneesOf, assigneesOf, h.others TaskAssigneeRow (by decide)]
  rw [dueFrom, dueFrom, hwhere, h.others TaskRow (by decide)]

theorem scanned_inserted {pairs : List (Id × Id)} {db' : Db} (h : Inserted since pairs db db') :
    scanned db' = scanned db := by
  funext t
  rw [scanned, scanned, assigneesOf, assigneesOf, byId, byId, h.others TaskAssigneeRow (by decide),
    h.others BoardRow (by decide)]

/-- What a scan relies on: tasks on boards, users whose ids hold no separator, new identifiers. -/
structure Scannable (env : Env kurul) (w : World kurul) : Prop where
  boards : OnBoards w.db
  colons : ∀ a ∈ rows TaskAssigneeRow w.db, colon ∉ a.userId
  fresh : Fresh env w

theorem Scannable.inserted {pairs : List (Id × Id)} (h : Scannable env w)
    (hins : Inserted since pairs w.db w'.db) (hfresh : Fresh env w') : Scannable env w' where
  boards := by
    intro t ht
    rw [hins.others TaskRow (by decide)] at ht
    obtain ⟨b, hb, hid⟩ := h.boards t ht
    exact ⟨b, by rw [hins.others BoardRow (by decide)]; exact hb, hid⟩
  colons := by
    intro a ha
    rw [hins.others TaskAssigneeRow (by decide)] at ha
    exact h.colons a ha
  fresh := hfresh

theorem Scannable.colon {tasks : List TaskRow} (h : Scannable env w) :
    ∀ p ∈ batchPairs (tasks.map (scanned w.db)), colon ∉ p.2 := by
  intro p hp
  obtain ⟨task, htask, _, _, hu⟩ := mem_batchPairs.mp hp
  obtain ⟨t, _, rfl⟩ := List.mem_map.mp htask
  obtain ⟨a, ha, hau⟩ := List.mem_map.mp hu
  rw [← hau]
  exact h.colons a (List.mem_filter.mp ha).1

theorem batchPairs_append (tasks tasks' : List ScanTaskRow) :
    batchPairs (tasks ++ tasks') = batchPairs tasks ++ batchPairs tasks' :=
  List.flatMap_append

/-- The loop, run to its end: it reads the tasks due from the cursor on, each once, and reminds their
assignees. -/
theorem scanPages_ok (pages : Nat) : ∀ {cursor : Option Cursor} {total : Nat}
    {recipients : Recipients} {done : Nat × Recipients} {w : World kurul}, Scannable env w →
    (scanPages now till since pages cursor total recipients).run env w = (.ok done, w') →
    visited env now till since pages cursor w = (dueFrom now till cursor w.db).map (scanned w.db) ∧
      Inserted since (batchPairs (visited env now till since pages cursor w)) w.db w'.db := by
  induction pages with
  | zero => intro _ _ _ _ _ _ h; cases h
  | succ pages ih =>
    intro cursor total recipients done w hw h
    rw [scanPages] at h
    obtain ⟨tasks, w₁, htasks, hrest⟩ := Call.run_bind_ok h
    rw [Call.run_auto] at htasks
    obtain ⟨rfl, rfl⟩ := run_query_ok htasks
    have hpage : scanPage now till cursor w.db =
        ((dueFrom now till cursor w.db).take scanBatchSize).map (scanned w.db) :=
      scanPage_eq hw.boards cursor
    have hread : Scannable env { w with stmts := w.stmts + 1 } :=
      ⟨hw.boards, hw.colons, hw.fresh.unused, hw.fresh.distinct⟩
    cases hlast : (scanPage now till cursor w.db).getLast? with
    | none =>
      have hnil : scanPage now till cursor w.db = [] := List.getLast?_eq_none_iff.mp hlast
      have hnone : dueFrom now till cursor w.db = [] := by
        rw [hpage, List.map_eq_nil_iff, List.take_eq_nil_iff] at hnil
        exact hnil.resolve_left (by decide)
      simp only [hlast] at hrest
      cases hrest
      simp only [visited, hlast, hnone]
      exact ⟨rfl, .refl _ _⟩
    | some last =>
      simp only [hlast] at hrest
      obtain ⟨batch, w₂, hbatch, hrest⟩ := Call.run_bind_ok hrest
      rw [hpage, List.getLast?_map] at hlast
      obtain ⟨t, ht, rfl⟩ := Option.map_eq_some_iff.mp hlast
      have hmem : t ∈ dueFrom now till cursor w.db := List.mem_of_mem_take (List.mem_of_getLast? ht)
      obtain ⟨d, hd⟩ := Option.isSome_iff_exists.mp (isSome_of_mem_dueFrom hmem)
      have hlastDue : (scanned w.db t).dueDate = some d := hd
      obtain ⟨hins, hfresh⟩ := notifyBatch_ok hread.fresh (by rw [hpage]; exact hw.colon) hbatch
      simp only [hlastDue] at hrest
      have hlast' : (scanPage now till cursor w.db).getLast? = some (scanned w.db t) := by
        rw [hpage, List.getLast?_map, ht]
        rfl
      simp only [visited, hlast', hlastDue]
      split at hrest
      · rename_i hshort
        -- a short page is the last
        cases hrest
        rw [if_pos hshort]
        refine ⟨?_, hins⟩
        rw [hpage, List.length_map, List.length_take] at hshort
        rw [hpage, List.take_of_length_le (by omega)]
      · rename_i hfull
        rw [if_neg hfull, hbatch]
        obtain ⟨hvisited, hrestIns⟩ := ih (hread.inserted hins hfresh) hrest
        rw [batchPairs_append]
        refine ⟨?_, hins.trans hrestIns⟩
        have hid : (scanned w.db t).id = t.id := rfl
        rw [hid] at hvisited ⊢
        rw [hvisited, dueFrom_inserted hins, scanned_inserted hins, hpage, ← List.map_append,
          dueFrom_drop ht hd, List.take_append_drop]

theorem run_emitEach_db (workspaceId : Id) (userIds : List Id) : ∀ w : World kurul,
    ((NotificationService.emitEach workspaceId userIds).run env w).2.db = w.db := by
  induction userIds with
  | nil => intro w; rfl
  | cons userId rest ih => intro w; exact ih _

theorem run_emitRecipients_db (recipients : List (Id × List Id)) : ∀ w : World kurul,
    ((emitRecipients recipients).run env w).2.db = w.db := by
  induction recipients with
  | nil => intro w; rfl
  | cons r rest ih =>
    intro w
    have hfirst : ((NotificationService.emitEach r.1 r.2.eraseDups).run env w).2.db = w.db :=
      run_emitEach_db r.1 r.2.eraseDups w
    rw [emitRecipients, Call.run_bind, NotificationService.emitUnreadChanged]
    rcases hr : (NotificationService.emitEach r.1 r.2.eraseDups).run env w with ⟨result, w₁⟩
    rw [hr] at hfirst
    cases result with
    | ok _ => exact (ih w₁).trans hfirst
    | error _ => exact hfirst

/-- A scan that completes visits the tasks due within the window, and reminds their assignees. -/
theorem runScan_ok {pages n : Nat} (hw : Scannable env w)
    (h : (runScan pages).run env w = (.ok n, w')) :
    runVisited env pages w =
        (dueFrom (env.time w.ticks) (env.time w.ticks + dueWindowMs) none w.db).map (scanned w.db) ∧
      Inserted (env.time w.ticks - dueWindowMs) (batchPairs (runVisited env pages w)) w.db w'.db := by
  rw [runScan] at h
  obtain ⟨now, w₁, hnow, hrest⟩ := Call.run_bind_ok h
  rw [Call.run_auto] at hnow
  cases hnow
  obtain ⟨done, w₂, hpages, hrest⟩ := Call.run_bind_ok hrest
  obtain ⟨_, w₃, hemit, hret⟩ := Call.run_bind_ok hrest
  cases hret
  have hdb : ((emitRecipients done.2.entries.rows).run env w₂).2.db = w₂.db :=
    run_emitRecipients_db done.2.entries.rows w₂
  rw [hemit] at hdb
  rw [hdb]
  exact scanPages_ok pages ⟨hw.boards, hw.colons, hw.fresh.unused, hw.fresh.distinct⟩ hpages

end DueSoonWorker
end Kurul
