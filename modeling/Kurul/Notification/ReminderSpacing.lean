import Mathlib.Data.Int.ConditionallyCompleteOrder
import Kurul.Notification.ScanExact
import Kurul.Sql.Clocked

/-!
# Kurul.Notification.ReminderSpacing

How far apart the reminders of one pair are, among scans and users who read.

A scan reads whom to skip and inserts in two statements. A reminder that another scan inserts between
them keeps the insert from adding a second one, as long as it is unread.

* `Spaced`    — what a run creates is a day from every other reminder of its pair.
* `Overtaken` — an insert for a pair that has been reminded, and has read it, since the skip set was
  read.
* `spacing`   — what each session answers for.
* `reminders_spaced` — without overtaken inserts all reminders are spaced.
-/

namespace Kurul

open Sql NotificationService

/-- The call, on a clock of its own. -/
def ReminderOp.clocked (times : Nat → Instant) (op : ReminderOp) : Call kurul Unit := do
  let _ ← op.call.clocked times 0

namespace DueSoonWorker

/-! ## Reminders that are spaced -/

/-- A reminder that was created since `db₀` is a day from every other of its pair. -/
def Spaced (db₀ db : Db) : Prop :=
  ∀ n ∈ rows NotificationRow db, (∀ m ∈ rows NotificationRow db₀, m.id ≠ n.id) → n.type = .dueSoon →
    ∀ n' ∈ rows NotificationRow db, n'.type = .dueSoon → n' ≠ n → ∀ taskId, n.taskId = some taskId →
      n'.taskId = some taskId → n'.userId = n.userId →
      dueWindowMs ≤ n.createdAt - n'.createdAt ∨ dueWindowMs ≤ n'.createdAt - n.createdAt

/-- The committed rows at the session's last query: before an insert, when it read whom to skip. -/
def lastQuery (g : Db) (a : Act kurul) (_saw before _after : Db) : Db :=
  match a with
  | .exec .query => before
  | _ => g

/-- An insert adds a reminder for a pair that got one, and has read it, since the session's last
query. -/
def Overtaken {ι : Type} (p : Past kurul ι Db) : Prop :=
  p.act = .exec (.insert .notification) ∧
    ∃ n ∈ rows NotificationRow p.after, n ∉ rows NotificationRow p.before ∧
    ∃ m ∈ rows NotificationRow p.before, m.type = .dueSoon ∧ m.taskId = n.taskId ∧
      m.userId = n.userId ∧ m.readAt.isSome = true ∧
      ∀ m₀ ∈ rows NotificationRow p.noted, m₀.id ≠ m.id

/-- One notification before and after: what is never rewritten of it. -/
structure Same (n n' : NotificationRow) : Prop where
  id : n.id = n'.id
  type : n.type = n'.type
  taskId : n.taskId = n'.taskId
  userId : n.userId = n'.userId
  createdAt : n.createdAt = n'.createdAt

theorem Same.refl (n : NotificationRow) : Same n n := ⟨rfl, rfl, rfl, rfl, rfl⟩

theorem Same.trans {n n₁ n' : NotificationRow} (h : Same n n₁) (h' : Same n₁ n') : Same n n' :=
  ⟨h.id.trans h'.id, h.type.trans h'.type, h.taskId.trans h'.taskId, h.userId.trans h'.userId,
    h.createdAt.trans h'.createdAt⟩

/-- Every notification is still there. -/
def Lasts (db db' : Db) : Prop :=
  ∀ n ∈ rows NotificationRow db, ∃ n' ∈ rows NotificationRow db', Same n n'

/-- Notifications are marked read, and nothing else happens to them. -/
structure Reads (db db' : Db) : Prop where
  lasts : Lasts db db'
  old : ∀ n' ∈ rows NotificationRow db', ∃ n ∈ rows NotificationRow db, Same n n'

/-- Reminders are inserted by a scan that began at `now` and skipped whom it found told in `seen`. -/
structure Reminds (now : Instant) (seen db db' : Db) : Prop where
  kept : ∀ n ∈ rows NotificationRow db, n ∈ rows NotificationRow db'
  new : ∀ n ∈ rows NotificationRow db', n ∉ rows NotificationRow db → ∃ taskId userId,
    unreadFor taskId userId n = true ∧ now ≤ n.createdAt ∧
    ¬ Told (now - dueWindowMs) seen taskId userId ∧
    ∀ m ∈ rows NotificationRow db', unreadFor taskId userId m = true → m = n

section Steps

variable {db₀ seen db db' : Db} {now : Instant}

theorem Lasts.refl (db : Db) : Lasts db db := fun n hn => ⟨n, hn, .refl n⟩

theorem Lasts.trans {db₁ : Db} (h : Lasts db db₁) (h' : Lasts db₁ db') : Lasts db db' := by
  intro n hn
  obtain ⟨n₁, hn₁, hsame⟩ := h n hn
  obtain ⟨n', hn', hsame'⟩ := h' n₁ hn₁
  exact ⟨n', hn', hsame.trans hsame'⟩

theorem Reads.refl (db : Db) : Reads db db := ⟨.refl db, fun n hn => ⟨n, hn, .refl n⟩⟩

theorem Reminds.lasts (h : Reminds now seen db db') : Lasts db db' :=
  fun n hn => ⟨n, h.kept n hn, .refl n⟩

theorem Spaced.reads (h : Spaced db₀ db) (hreads : Reads db db') : Spaced db₀ db' := by
  intro n' hn' hnew htype m' hm' htype' hne t htask htask' huser
  obtain ⟨n, hn, hsame⟩ := hreads.old n' hn'
  obtain ⟨m, hm, hsame'⟩ := hreads.old m' hm'
  have hne' : m ≠ n := by
    rintro rfl
    exact hne (eq_of_id hm' hn' (hsame'.id.symm.trans hsame.id))
  have hapart := h n hn (fun m₀ hm₀ => hsame.id ▸ hnew m₀ hm₀) (hsame.type.trans htype) m hm
    (hsame'.type.trans htype') hne' t (hsame.taskId.trans htask) (hsame'.taskId.trans htask')
    (hsame'.userId.trans (huser.trans hsame.userId.symm))
  rwa [hsame.createdAt, hsame'.createdAt] at hapart

/-- What is inserted is a day from the reminders of its pair that were there, unless one has come and
been read since the skip set. -/
theorem Reminds.apart (h : Reminds now seen db db') (hlasts : Lasts seen db) {n m : NotificationRow}
    (hn : n ∈ rows NotificationRow db') (hnew : n ∉ rows NotificationRow db)
    (hm : m ∈ rows NotificationRow db) (htype : m.type = .dueSoon) (htask : m.taskId = n.taskId)
    (huser : m.userId = n.userId)
    (hseen : m.readAt.isSome = true → ∃ m₀ ∈ rows NotificationRow seen, m₀.id = m.id) :
    dueWindowMs ≤ n.createdAt - m.createdAt := by
  obtain ⟨t, u, hunread, hnow, huntold, hone⟩ := h.new n hn hnew
  obtain ⟨_, _, hnt, hnu⟩ := unreadFor_iff.mp hunread
  cases hread : m.readAt with
  | none =>
    -- an unread reminder would have kept this one from being inserted
    have hm' : m = n := hone m (h.kept m hm)
      (unreadFor_iff.mpr ⟨htype, hread, htask.trans hnt, huser.trans hnu⟩)
    exact absurd (hm' ▸ hm) hnew
  | some readAt =>
    obtain ⟨m₀, hm₀, hid⟩ := hseen (by rw [hread]; rfl)
    obtain ⟨m₁, hm₁, hsame⟩ := hlasts m₀ hm₀
    obtain rfl : m₁ = m := eq_of_id hm₁ hm (hsame.id.symm.trans hid)
    have hold : ¬ now - dueWindowMs ≤ m₀.createdAt := by
      intro hyoung
      refine huntold ⟨m₀, hm₀, hsame.taskId.trans (htask.trans hnt),
        hsame.userId.trans (huser.trans hnu), ?_⟩
      simp [stands, hsame.type, htype, hyoung]
    rw [hsame.createdAt] at hold
    unfold Instant at *
    omega

theorem Spaced.reminds (h : Spaced db₀ db) (hreminds : Reminds now seen db db')
    (hlasts : Lasts seen db)
    (hover : ∀ n ∈ rows NotificationRow db', n ∉ rows NotificationRow db →
      ∀ m ∈ rows NotificationRow db, m.type = .dueSoon → m.taskId = n.taskId → m.userId = n.userId →
        m.readAt.isSome = true → ∃ m₀ ∈ rows NotificationRow seen, m₀.id = m.id) :
    Spaced db₀ db' := by
  intro n hn hnew htype m hm htype' hne t htask htask' huser
  by_cases hnOld : n ∈ rows NotificationRow db
  · by_cases hmOld : m ∈ rows NotificationRow db
    · exact h n hnOld hnew htype m hmOld htype' hne t htask htask' huser
    · exact .inr (hreminds.apart hlasts hm hmOld hnOld htype (htask.trans htask'.symm) huser.symm
        (hover m hm hmOld n hnOld htype (htask.trans htask'.symm) huser.symm))
  · by_cases hmOld : m ∈ rows NotificationRow db
    · exact .inl (hreminds.apart hlasts hn hnOld hmOld htype' (htask'.trans htask.symm) huser
        (hover n hn hnOld m hmOld htype' (htask'.trans htask.symm) huser))
    · obtain ⟨t₁, u₁, hunread, _, _, hone⟩ := hreminds.new n hn hnOld
      obtain ⟨t₂, u₂, hunread', _⟩ := hreminds.new m hm hmOld
      obtain ⟨_, _, ht₁, hu₁⟩ := unreadFor_iff.mp hunread
      obtain ⟨_, hread', _, _⟩ := unreadFor_iff.mp hunread'
      refine absurd (hone m hm (unreadFor_iff.mpr ⟨htype', hread', ?_, huser.trans hu₁⟩)) hne
      exact htask'.trans (htask.symm.trans ht₁)

end Steps

/-! ## What each session answers for -/

/-- A change of the notifications is marking some read, or the insert of a scan. -/
def spacing {ι : Type} (times : ι → Nat → Instant) : Sql.Ledger kurul ι Db where
  note := lastQuery
  Within _ _ := True
  Inv _ := True
  Cond _ _ _ _ := True
  Guar i g a db db' := Reads db db' ∨
    (a = .exec (.insert .notification) ∧ Reminds (times i 0) g db db')
  Ends _ _ _ := True
  note_quiet _ _ _ := rfl
  within_refl _ := trivial
  within_trans _ _ := trivial
  within_exec _ _ _ _ := trivial

section Kept

variable {ι : Type} {times : ι → Nat → Instant} {i : ι} {g : Db} {n : Nat} {now till since : Instant}

theorem commits_reads {a : Act kurul} {db db' : Db} (h : Reads db db') :
    (spacing times).Commits i g a db db' :=
  ⟨trivial, .inr (.inl h)⟩

theorem emitEach_clocked {workspaceId : Id} {userIds : List Id} {Q : Unit × Nat → Db → Prop}
    {E : ApiError → Db → Prop} (hQ : ∀ g, Q ((), n) g) :
    ((emitEach workspaceId userIds).clocked (times i) n).Kept (spacing times) i Q E g := by
  induction userIds with
  | nil => exact hQ g
  | cons userId rest ih => exact fun db _ => ih

theorem emitRecipients_clocked {recipients : List (Id × List Id)} {Q : Unit × Nat → Db → Prop}
    {E : ApiError → Db → Prop} (hQ : ∀ g, Q ((), n) g) :
    ((emitRecipients recipients).clocked (times i) n).Kept (spacing times) i Q E g := by
  induction recipients generalizing g with
  | nil => exact hQ g
  | cons r rest ih =>
    rw [emitRecipients, Call.clocked_bind, Call.Kept_bind]
    exact emitEach_clocked fun g => ih

theorem signalIf_clocked {changed : Bool} {workspaceId userId : Id} {Q : Unit × Nat → Db → Prop}
    {E : ApiError → Db → Prop} (hQ : ∀ g, Q ((), n) g) :
    ((signalIf changed workspaceId userId).clocked (times i) n).Kept (spacing times) i Q E g := by
  cases changed with
  | false => exact hQ g
  | true => exact emitEach_clocked hQ

theorem withIds_clocked {T R : Type} {row : Id → T → R} {items : List T} {Q : List R × Nat → Db → Prop}
    {E : ApiError → Db → Prop}
    (hQ : ∀ data, (∀ r ∈ data, ∃ id, ∃ item ∈ items, r = row id item) → Q (data, n) g) :
    ((Call.auto (withIds row items)).clocked (times i) n).Kept (spacing times) i Q E g := by
  induction items generalizing Q with
  | nil => exact hQ [] fun r hr => by cases hr
  | cons item rest ih =>
    simp only [withIds, Call.auto_bind, Call.clocked_bind, Call.Kept_bind]
    intro id
    refine ih fun data hdata => hQ _ fun r hr => ?_
    rcases List.mem_cons.mp hr with rfl | hr
    · exact ⟨id, item, List.mem_cons_self, rfl⟩
    · obtain ⟨id', item', hitem, heq⟩ := hdata r hr
      exact ⟨id', item', List.mem_cons_of_mem _ hitem, heq⟩

/-- The insert of a scan: it adds what the index lets in. -/
theorem reminds_of_insertable {seen db : Db} {reminders : List Reminder} {createdAt : Instant}
    {data kept : List NotificationRow} (hkept : insertable data db = .ok kept) (hnow : now ≤ createdAt)
    (hdata : ∀ r ∈ data, ∃ id, ∃ item ∈ reminders, r = Reminder.row createdAt id item)
    (huntold : ∀ r ∈ reminders, ¬ Told (now - dueWindowMs) seen r.taskId r.userId) :
    Reminds now seen db (db.applyAll (kept.map fun r => .put (Model.row r))) where
  kept n hn := (mem_rows_insertable hkept).mpr (.inl hn)
  new n hn hnot := by
    have hmem : n ∈ kept := ((mem_rows_insertable hkept).mp hn).resolve_left hnot
    obtain ⟨id, r, hr, rfl⟩ := hdata n (mem_of_insertable hkept n hmem)
    have hunread := unreadFor_row createdAt id r
    refine ⟨r.taskId, r.userId, hunread, hnow, huntold r hr, fun m hm hunread' => ?_⟩
    rcases (mem_rows_insertable hkept).mp hm with hm | hm
    · have hapart := (insertable_apart hkept).1 _ hmem _ (mem_rows.mp hm)
      have hclash := clashes_notification.mpr ⟨_, _, hunread', hunread⟩
      exact absurd hclash (Bool.eq_false_iff.mp hapart)
    · exact single_of_insertable hkept hm hmem hunread' hunread

theorem insertReminders_clocked {reminders : List Reminder} {Q : Batch × Nat → Db → Prop}
    (hmono : Monotone (times i))
    (huntold : ∀ r ∈ reminders, ¬ Told (times i 0 - dueWindowMs) g r.taskId r.userId)
    (hQ : ∀ r g, Q r g) : ((insertReminders reminders).clocked (times i) n).Kept (spacing times) i Q
      (fun _ _ => True) g := by
  simp only [insertReminders]
  split
  · exact hQ _ _
  · simp only [Call.clocked_bind, Call.Kept_bind, Call.auto_bind]
    refine withIds_clocked fun data hdata => ?_
    rw [createManySkipping, Call.auto_exec, Call.clocked_exec, Call.Kept_bind]
    refine Call.Kept_exec (fun _ => trivial) fun db _ _ e he => ?_
    obtain ⟨kept, hkept, _, hwrites⟩ := eval_createManySkipping he
    refine ⟨⟨trivial, .inr (.inr ⟨rfl, ?_⟩)⟩, ?_⟩
    · rw [hwrites]
      exact reminds_of_insertable hkept (hmono (Nat.zero_le n)) hdata huntold
    · change (Call.clocked (times i) _ (n + 1)).Kept (spacing times) i Q _ _
      split
      · exact hQ _ _
      · exact hQ _ _

/-- Whom a batch reminds, its session has found untold. -/
theorem notifyBatch_clocked {tasks : List ScanTaskRow} {Q : Batch × Nat → Db → Prop}
    (hmono : Monotone (times i)) (hQ : ∀ r g, Q r g) :
    ((notifyBatch tasks (times i 0 - dueWindowMs)).clocked (times i) n).Kept (spacing times) i Q
      (fun _ _ => True) g := by
  simp only [notifyBatch]
  split
  · exact hQ _ _
  · rw [Call.clocked_bind, Call.Kept_bind, query, Call.auto_exec, Call.clocked_exec, Call.Kept_bind]
    refine Call.Kept_exec (fun _ => trivial) fun db _ _ e he => ?_
    obtain rfl := (Except.ok.inj he).symm
    refine ⟨.same trivial (by simp), insertReminders_clocked hmono (fun r hr => ?_) hQ⟩
    obtain ⟨hp, hskip⟩ := pair_of_mem_reminders hr
    exact fun htold => hskip (mem_skip_of_told hp htold)

theorem scanPages_clocked {Q : (Nat × Recipients) × Nat → Db → Prop} (hmono : Monotone (times i))
    (hQ : ∀ r g, Q r g) (pages : Nat) : ∀ {cursor total recipients n g},
      ((scanPages now till (times i 0 - dueWindowMs) pages cursor total recipients).clocked (times i)
        n).Kept (spacing times) i Q (fun _ _ => True) g := by
  induction pages with
  | zero => exact trivial
  | succ pages ih =>
    intro cursor total recipients n g
    rw [scanPages, Call.clocked_bind, Call.Kept_bind, query, Call.auto_exec, Call.clocked_exec,
      Call.Kept_bind]
    refine Call.Kept_exec (fun _ => trivial) fun db _ _ e he => ?_
    obtain rfl := (Except.ok.inj he).symm
    refine ⟨.same trivial (by simp), ?_⟩
    change (Call.clocked (times i) _ n).Kept (spacing times) i Q _ _
    split
    · exact hQ _ _
    · rw [Call.clocked_bind, Call.Kept_bind]
      refine notifyBatch_clocked hmono fun r g => ?_
      split
      · exact hQ _ _
      · split
        · exact hQ _ _
        · exact ih

theorem runScan_clocked {pages : Nat} {Q : Nat × Nat → Db → Prop} (hmono : Monotone (times i))
    (hQ : ∀ r g, Q r g) : ((DueSoonWorker.runScan pages).clocked (times i) 0).Kept (spacing times) i Q
      (fun _ _ => True) g := by
  simp only [DueSoonWorker.runScan, Call.clocked_bind, Call.Kept_bind]
  exact scanPages_clocked hmono (fun _ _ => emitRecipients_clocked fun _ => hQ _ _) pages

/-! ### Reading -/

theorem same_readNow (readAt : Instant) (n : NotificationRow) :
    Same n ((readNow readAt).apply n) := ⟨rfl, rfl, rfl, rfl, rfl⟩

theorem reads_updateMany (p : NotificationRow → Bool) (readAt : Instant) (db : Db) :
    Reads db (db.applyAll (((rows NotificationRow db).filter p).map fun n =>
      .put (Model.row ((readNow readAt).apply n)))) := by
  have hsame : ∀ n, Same n (if p n then (readNow readAt).apply n else n) := by
    intro n
    split
    · exact same_readNow readAt n
    · exact .refl n
  constructor
  · exact fun n hn => ⟨_, mem_rows_updateMany.mpr ⟨n, hn, rfl⟩, hsame n⟩
  · intro n' hn'
    obtain ⟨n, hn, rfl⟩ := mem_rows_updateMany.mp hn'
    exact ⟨n, hn, hsame n⟩

theorem reads_put {n : NotificationRow} {db : Db} (hn : n ∈ rows NotificationRow db)
    (readAt : Instant) : Reads db (db.put (Model.row ((readNow readAt).apply n))) := by
  constructor
  · intro m hm
    by_cases hid : m.id = n.id
    · obtain rfl : m = n := eq_of_id hm hn hid
      exact ⟨_, mem_rows_put.mpr (.inl rfl), same_readNow readAt m⟩
    · exact ⟨m, mem_rows_put.mpr (.inr ⟨hm, hid⟩), .refl m⟩
  · intro m hm
    rcases mem_rows_put.mp hm with rfl | ⟨hm, _⟩
    · exact ⟨n, hn, same_readNow readAt n⟩
    · exact ⟨m, hm, .refl m⟩

theorem markReadBody_spacing {workspaceId userId notificationId : Id} {l : Label} {db : Db}
    {Q : NotificationRow × Bool → Db → Prop} (hQ : ∀ done g, Q done g) :
    (markReadBody workspaceId userId notificationId).Kept (spacing times) i
      (CommitKept (spacing times) i l Q) g .empty db := by
  simp only [markReadBody, findFirst, Tx.Kept_bind]
  refine Kept_query fun db₁ _ => Kept_orThrow fun existing _ => ?_
  split
  · exact fun db₂ _ => ⟨commits_reads (.refl db₂), hQ _ _⟩
  · simp only [Tx.Kept_bind]
    intro readAt
    refine Kept_update fun db₂ _ n hfound db₃ hnow => ⟨commits_reads ?_, hQ _ _⟩
    -- nobody else has written the row since it was locked
    have hget : db₃.get? ⟨.notification, n.id⟩ = db₂.get? ⟨.notification, n.id⟩ :=
      hnow.1.wrote (by simp [Local.Wrote, Model.row, Row.key, readNow])
    have hn : n ∈ rows NotificationRow db₂ := List.mem_of_find?_eq_some hfound
    have hn' : n ∈ rows NotificationRow db₃ :=
      mem_rows.mpr (Store.mem_of_get? (hget.trans (get?_row hn)))
    exact reads_put hn' readAt

theorem call_clocked (hmono : Monotone (times i)) (op : ReminderOp) :
    (op.clocked (times i)).Kept (spacing times) i (fun _ _ => True) (fun _ _ => True) g := by
  rw [ReminderOp.clocked, Call.Kept_bind]
  cases op with
  | runScan pages =>
    rw [ReminderOp.call, Call.clocked_bind, Call.Kept_bind]
    exact runScan_clocked hmono fun _ _ => trivial
  | markRead workspaceId userId notificationId =>
    simp only [ReminderOp.call, NotificationService.markRead, Call.clocked_bind, Call.Kept_bind,
      Call.clocked_transaction]
    exact Call.Kept_transaction (fun _ _ _ => trivial) fun db _ =>
      markReadBody_spacing fun r g => signalIf_clocked fun _ => trivial
  | markAllRead workspaceId userId =>
    simp only [ReminderOp.call, NotificationService.markAllRead, Call.clocked_bind, Call.Kept_bind,
      Call.auto_bind, updateMany, Call.auto_exec, Call.clocked_exec]
    refine Call.Kept_exec (fun _ => trivial) fun db _ _ e he => ⟨commits_reads ?_, ?_⟩
    · rw [(eval_updateMany he).2]
      exact reads_updateMany _ _ db
    · exact signalIf_clocked fun _ => trivial

end Kept

/-! ## Runs -/

theorem lasts_lastQuery {g saw db db' : Db} (a : Act kurul) (hg : Lasts g db) (h : Lasts db db') :
    Lasts (lastQuery g a saw db db') db' := by
  unfold lastQuery
  split
  · exact h
  · exact hg.trans h

section Runs

variable {ι : Type} [DecidableEq ι] {db₀ : Db} {ops : ι → ReminderOp} {times : ι → Nat → Instant}

theorem booked_spaced (hclock : ∀ i, Monotone (times i)) {σ : Config kurul ι} {g : ι → Db}
    {past : List (Past kurul ι Db)}
    (hrun : Booked lastQuery db₀ (fun _ _ _ _ => True)
      (Config.start db₀ fun i => (ops i).clocked (times i)) σ g past)
    (hover : ∀ p ∈ past, ¬ Overtaken p) :
    σ.Kept (spacing times) g ∧ (∀ j, Lasts (g j) σ.db) ∧ Spaced db₀ σ.db := by
  induction hrun with
  | refl =>
    refine ⟨.start trivial fun i => call_clocked (hclock i) (ops i), fun j => .refl db₀, ?_⟩
    exact fun n hn hnew => absurd rfl (hnew n hn)
  | @step σ σ' g past i a _ _ hs ih =>
    obtain ⟨hkept, hlasts, hspaced⟩ := ih fun p hp => hover p (List.mem_append_left _ hp)
    obtain ⟨⟨_, hmove⟩, hkept'⟩ := hkept.step trivial hs
    have hguar : Reads σ.db σ'.db ∨
        (a = .exec (.insert .notification) ∧ Reminds (times i 0) (g i) σ.db σ'.db) := by
      rcases hmove with ⟨hsame, _⟩ | hguar
      · rw [hsame]
        exact .inl (.refl _)
      · exact hguar
    have hlast : Lasts σ.db σ'.db := by
      rcases hguar with hreads | ⟨_, hreminds⟩
      · exact hreads.lasts
      · exact hreminds.lasts
    refine ⟨hkept', fun j => ?_, ?_⟩
    · by_cases hj : j = i
      · subst hj
        rw [Function.update_self]
        exact lasts_lastQuery a (hlasts j) hlast
      · rw [Function.update_of_ne hj]
        exact (hlasts j).trans hlast
    · rcases hguar with hreads | ⟨hact, hreminds⟩
      · exact hspaced.reads hreads
      · refine hspaced.reminds hreminds (hlasts i) fun n hn hnew m hm htype htask huser hread => ?_
        by_contra hnone
        push Not at hnone
        exact hover ⟨i, g i, a, σ.db, σ'.db⟩ (List.mem_append_right _ (List.mem_singleton_self _))
          ⟨hact, n, hn, hnew, m, hm, htype, htask, huser, hread, hnone⟩

/-- However scans and reading users interleave: if no insert is overtaken, what they create is a day
from every other reminder of its pair. -/
theorem reminders_spaced (hclock : ∀ i, Monotone (times i)) {σ : Config kurul ι} {g : ι → Db}
    {past : List (Past kurul ι Db)}
    (hrun : Booked lastQuery db₀ (fun _ _ _ _ => True)
      (Config.start db₀ fun i => (ops i).clocked (times i)) σ g past)
    (hover : ∀ p ∈ past, ¬ Overtaken p) : Spaced db₀ σ.db :=
  (booked_spaced hclock hrun hover).2.2

end Runs

/-- Two scans, and a user who reads. -/
def scanScanRead : Fin 3 → ReminderOp
  | 0 => .runScan 1
  | 1 => .runScan 1
  | 2 => .markAllRead (js "w") (js "bo")

/-- Reminders are inserted while everything is unread. -/
def insertsUnread (a : Act kurul) (before : Db) : Bool :=
  match a with
  | .exec (.insert .notification) => (rows NotificationRow before).all fun m => m.readAt.isNone
  | _ => true

/-- A scan reminds, the user reads it, and the second scan leaves it at that. -/
theorem reminders_spaced_in_turn : ∃ σ : Config kurul (Fin 3), (∀ i, σ.returned i = true) ∧
    (rows NotificationRow σ.db).length = 2 ∧ Spaced halfReminded σ.db := by
  have hgoes : ((Config.start (S := kurul) halfReminded fun i =>
      (scanScanRead i).clocked fun _ => 0).booked lastQuery (0 : Instant) (fun _ _ _ _ => true)
        (List.replicate 5 (0, js "x") ++ List.replicate 2 (2, js "y") ++ List.replicate 2 (1, js "v"))
        (fun _ => halfReminded) []).any
      (fun (r : Config kurul (Fin 3) × (Fin 3 → Db) × List (Past kurul (Fin 3) Db)) =>
        decide ((∀ i, r.1.returned i = true) ∧ (rows NotificationRow r.1.db).length = 2) &&
          r.2.2.all fun p => insertsUnread p.act p.before) = true := by
    decide +kernel
  obtain ⟨⟨σ, g, past⟩, hσ, hend⟩ := (Option.any_eq_true _ _).mp hgoes
  rw [Bool.and_eq_true, decide_eq_true_eq] at hend
  obtain ⟨⟨hdone, hlength⟩, hunread⟩ := hend
  have hrun : Booked lastQuery halfReminded (fun _ _ _ _ => True) _ σ g past :=
    booked_of_schedule (fun _ _ _ _ _ => trivial) .refl hσ
  refine ⟨σ, hdone, hlength, reminders_spaced (fun _ _ _ _ => le_refl _) hrun fun p hp hover => ?_⟩
  obtain ⟨hact, n, _, _, m, hm, _, _, _, hread, _⟩ := hover
  have hall := List.all_eq_true.mp hunread p hp
  rw [hact] at hall
  have hnone := List.all_eq_true.mp hall m hm
  rw [Option.isNone_iff_eq_none] at hnone
  rw [hnone] at hread
  cases hread

/-- The first scan has read whom to skip; the second reminds, the user reads it, and the first reminds
again. -/
theorem reminded_twice : ¬ ∀ (db₀ : Db) (ops : Fin 3 → ReminderOp) (times : Fin 3 → Nat → Instant),
    (∀ i, Monotone (times i)) → ∀ σ : Config kurul (Fin 3),
      Run (fun _ _ _ => True) (Config.start db₀ fun i => (ops i).clocked (times i)) σ →
      Spaced db₀ σ.db := by
  intro h
  have hgoes : ((Config.start (S := kurul) halfReminded fun i =>
      (scanScanRead i).clocked fun _ => 0).schedule (0 : Instant) (fun _ _ _ => true)
        (List.replicate 2 (0, js "x") ++ List.replicate 5 (1, js "v") ++
          List.replicate 2 (2, js "y") ++ List.replicate 3 (0, js "x"))).any
      (fun (σ : Config kurul (Fin 3)) => decide (∃ n ∈ rows NotificationRow σ.db,
        ∃ n' ∈ rows NotificationRow σ.db, n.id = js "x" ∧ n'.id = js "v" ∧
          n.type = .dueSoon ∧ n'.type = .dueSoon ∧ n.taskId = some (js "t") ∧
          n'.taskId = some (js "t") ∧ n'.userId = n.userId ∧ n.createdAt = 0 ∧ n'.createdAt = 0)) =
        true := by
    decide +kernel
  obtain ⟨σ, hσ, hend⟩ := (Option.any_eq_true _ _).mp hgoes
  obtain ⟨n, hn, n', hn', hid, hid', htype, htype', htask, htask', huser, hnow, hnow'⟩ :=
    of_decide_eq_true hend
  have hrun : Run (fun _ _ _ => True) _ σ := run_schedule (fun _ _ _ _ => trivial) .refl hσ
  have hnew : ∀ m ∈ rows NotificationRow halfReminded, m.id ≠ js "x" := by decide +kernel
  have hne : n' ≠ n := by
    rintro rfl
    rw [hid] at hid'
    exact absurd hid' (by decide)
  have hapart := h halfReminded scanScanRead (fun _ _ => 0) (fun _ _ _ _ => le_refl _) σ hrun n hn
    (fun m hm => hid ▸ hnew m hm) htype n' hn' htype' hne _ htask htask' huser
  rw [hnow, hnow'] at hapart
  exact absurd hapart (by decide)

end DueSoonWorker
end Kurul
