import Kurul.Db.Prisma
import Kurul.Retention.SweepSettings
import Kurul.Sql.Purge

/-!
# Kurul.Retention.Cleanup

`CleanupWorker.runCleanup`: expired rows of five tables, deleted a batch at a time.

* `cutoffFor_eq`            — a window counts back whole days from now, exactly.
* `RetentionSettings.expired` — the rows the policy names.
* `removes_deleteInBatches` — a table loses its expired rows, or as many as the ceiling allows.
* `removes_runCleanup`      — and so do all five, in whatever order the rows are picked.
-/

namespace Kurul
namespace CleanupWorker

open Sql

/-! ## Settings -/

structure RetentionSettings where
  enabled : Bool
  /-- Days a read notification is kept after it was read; 0 keeps it forever. -/
  notificationDays : Nat
  /-- Days an activity is kept after it was written, and a usage ping. -/
  activityDays : Nat
  deriving DecidableEq

def defaultNotificationRetentionDays : Int := 90

def defaultActivityRetentionDays : Int := 365

/-- `retentionDays(…)`; `none` where it throws. -/
def retentionDays (fallback : Int) (spelled : Option Int) : Option Nat := do
  let days ← envInt fallback spelled
  if days < 0 then none else some days.toNat

/-- `retentionSettings()` where the variables spell these values, or are not set. -/
def retentionSettings (enabled : Option Bool) (notificationDays activityDays : Option Int) :
    Option RetentionSettings := do
  let notificationDays ← retentionDays defaultNotificationRetentionDays notificationDays
  let activityDays ← retentionDays defaultActivityRetentionDays activityDays
  return { enabled := enabled.getD true, notificationDays, activityDays }

/-- `new Date(now.getTime() - days * MS_PER_DAY)`. -/
def cutoffFor (now : ValidDate) (days : Nat) : Option Instant := do
  let span ← Binary64.round (days * msPerDay)
  let time ← Binary64.round (now - span)
  date time

/-- No bit of a number of days is lost before it is out of every date's reach. -/
theorem cutoffFor_eq (now : ValidDate) (days : Nat) : cutoffFor now days = date (now - days * msPerDay) := by
  have hnow := (abs_le.mp now.property).2
  have hpos : 0 ≤ (days : Int) * msPerDay := by unfold msPerDay; omega
  unfold cutoffFor
  by_cases hlt : (days : Int) * msPerDay < 2 ^ 63
  · have hspan : Binary64.round (days * msPerDay) = some (days * msPerDay) := by
      -- a day is a multiple of 1024 milliseconds
      refine Binary64.round_exact (k := 10) (by omega) ?_ (by omega)
      rw [Int.natAbs_mul]
      exact Dvd.dvd.mul_left (by decide) _
    rw [hspan]
    exact round_date (by omega)
  · rw [date_of_lt (by unfold maxTime at *; omega)]
    cases hspan : Binary64.round (days * msPerDay) with
    | none => rfl
    | some span =>
      have hhalf := Binary64.round_half hspan hpos
      have hdate : date (now - span) = none := date_of_lt (by unfold maxTime at *; omega)
      rw [← hdate]
      exact round_date (by unfold maxTime at *; omega)

/-! ## The run -/

/-- Rows deleted in one run, per table, and files. -/
structure CleanupCounts where
  sessions : Nat
  verifications : Nat
  notifications : Nat
  activities : Nat
  usagePings : Nat
  orphanedFiles : Nat

def CleanupCounts.empty : CleanupCounts := ⟨0, 0, 0, 0, 0, 0⟩

/-- The count of a table. -/
def CleanupCounts.of (counts : CleanupCounts) : Table → Nat
  | .session => counts.sessions
  | .verification => counts.verifications
  | .notification => counts.notifications
  | .activity => counts.activities
  | .usagePing => counts.usagePings
  | _ => 0

section Batches

variable {R : Type} [Model R]

/-- `DELETE … WHERE id IN (SELECT id … WHERE column < cutoff LIMIT …)`; `NULL` is before nothing, and an
invalid date is not sent at all. -/
def olderStmt (column : R → Option Instant) (cutoff : Option Instant)
    (limit : Limit cleanupBatchSize Id) : Stmt kurul Nat :=
  ⟨.delete (Model.table R), fun db =>
    match cutoff with
    | none => .error .validation
    | some cutoff =>
      let older := (rows R db).filter fun r => (column r).any fun t => decide (t < cutoff)
      let ids := limit.pick (older.map Model.id)
      match db.deletion references (ids.map fun id => (⟨Model.table R, id⟩ : Key)) with
      | none => .error .p2003
      | some ws => .ok ⟨ids.length, ws, []⟩⟩

/-- The loop of `deleteInBatches`, with so many passes left. At none it warns that it stops at the
ceiling. -/
def deleteInBatches (runBatch : Nat → Call kurul Nat) : Nat → Nat → Call kurul Nat
  | 0, total => return total
  | left + 1, total => do
    let deleted ← runBatch left
    if deleted < cleanupBatchSize then return total + deleted
    deleteInBatches runBatch left (total + deleted)

/-- What each batch of each table picks. -/
abbrev Picks : Type := Table → Nat → Limit cleanupBatchSize Id

def deleteOlder (picks : Picks) (column : R → Option Instant) (cutoff : Option Instant) :
    Call kurul Nat :=
  deleteInBatches (fun left => Call.exec (olderStmt column cutoff (picks (Model.table R) left)))
    maxBatchesPerTable 0

/-- A window of 0 days is none: no statement is sent. -/
def deleteOutlived (picks : Picks) (column : R → Option Instant) (now : ValidDate) (days : Nat) :
    Call kurul Nat :=
  if days = 0 then return 0 else deleteOlder picks column (cutoffFor now days)

end Batches

/-- `sweepOrphanFiles(now)`, which only reads the database: as long as the rows rest, what it asks of them
a batch at a time it may ask at once. `none` is storage that persists no files. -/
def orphanedFiles (env : BackupEnv) (storage : Option Directory) (now : ValidDate) : Call kurul Nat :=
  match storage with
  | none => return 0
  | some directory => Call.exec ⟨.query, fun db =>
      let claims := (rows AttachmentRow db).filterMap AttachmentRow.storageKey
      let run := sweepOrphanFiles (cutoff env now) (fun key => decide (key ∈ claims)) directory
      .ok ⟨run.removed.length, [], []⟩⟩

/-- `runCleanup(now)`, with the settings it has read. -/
def runCleanup (settings : RetentionSettings) (env : BackupEnv) (storage : Option Directory)
    (picks : Picks) (now : ValidDate) : Call kurul CleanupCounts := do
  if !settings.enabled then return .empty
  let sessions ← deleteOlder picks (fun s : SessionRow => some s.expiresAt) (some now)
  let verifications ← deleteOlder picks (fun v : VerificationRow => some v.expiresAt) (some now)
  let notifications ← deleteOutlived picks NotificationRow.readAt now settings.notificationDays
  let activities ← deleteOutlived picks (fun a : ActivityRow => some a.createdAt) now settings.activityDays
  let usagePings ← deleteOutlived picks (fun p : UsagePingRow => some p.createdAt) now settings.activityDays
  let orphanedFiles ← orphanedFiles env storage now
  return { sessions, verifications, notifications, activities, usagePings, orphanedFiles }

/-! ## The policy -/

/-- Either window reaches back to a date. -/
def RetentionSettings.Representable (settings : RetentionSettings) (now : ValidDate) : Prop :=
  (cutoffFor now settings.notificationDays).isSome = true ∧
    (cutoffFor now settings.activityDays).isSome = true

/-- Longer ago than the window, if there is a window. -/
def outlived (now : Instant) (days : Nat) (t : Instant) : Bool :=
  decide (days ≠ 0) && decide (t < now - days * msPerDay)

/-- The rows the policy names. -/
def RetentionSettings.expired (settings : RetentionSettings) (now : Instant) : Row → Bool
  | .session s => decide (s.expiresAt < now)
  | .verification v => decide (v.expiresAt < now)
  | .notification n => n.readAt.any (outlived now settings.notificationDays)
  | .activity a => outlived now settings.activityDays a.createdAt
  | .usagePing p => outlived now settings.activityDays p.createdAt
  | _ => false

/-- The expired rows of a table. -/
def RetentionSettings.expiredIn (settings : RetentionSettings) (now : Instant) (table : Table)
    (db : Db) : Nat :=
  (db.rows.filter fun v => decide (v.key.table = table) && settings.expired now v).length

/-! ## A table -/

theorem filter_not_mem {o : Option Id} {ks : List Key} {table : Table}
    (h : ∀ i ∈ o, (⟨table, i⟩ : Key) ∉ ks) :
    (o.filter fun i => !decide ((⟨table, i⟩ : Key) ∈ ks)) = o := by
  cases o with
  | none => rfl
  | some i => simp [h i rfl]

/-- What `SET NULL` does to a row of the schema. -/
theorem references_clears : references.Clears where
  clear_of_names {ks v} h := by
    have hnot : ∀ k, (k, OnDelete.setNull) ∈ v.refs → k ∉ ks := fun k hr hk => by
      rw [references.names_iff.mpr ⟨k, hk, hr⟩] at h
      cases h
    cases v with
    | activity r =>
      have htask : ∀ t ∈ r.taskId, (⟨.task, t⟩ : Key) ∉ ks := fun t ht =>
        hnot _ (by simp [Row.refs, Option.mem_def.mp ht])
      simp only [references, Row.clear, filter_not_mem htask]
    | notification r =>
      have hactivity : ∀ a ∈ r.activityId, (⟨.activity, a⟩ : Key) ∉ ks := fun a ha =>
        hnot _ (by simp [Row.refs, Option.mem_def.mp ha])
      simp only [references, Row.clear, filter_not_mem hactivity]
    | _ => rfl
  clear_clear p p' v := by
    cases v <;> simp [references, Row.clear, Option.filter_filter]

/-- Nothing names a row of these tables but a notification its activity. -/
def Table.swept : Table → Bool
  | .session | .verification | .notification | .activity | .usagePing => true
  | _ => false

theorem setNull_of_swept {v : Row} {k : Key} {a : OnDelete} (hr : (k, a) ∈ v.refs)
    (hk : Table.swept k.table = true) : a = .setNull := by
  cases v <;> simp only [Row.refs, List.mem_cons, List.mem_append, List.mem_map] at hr <;>
    grind [Table.swept]

section Phase

variable {settings : RetentionSettings} {now : Instant} {db : Db} {env : Env kurul}
  {w : World kurul} {R : Type} [Model R]

/-- What a policy says of a row it says of the row as `SET NULL` leaves it. -/
theorem expired_clear (p : Key → Bool) (v : Row) :
    settings.expired now (references.clear p v) = settings.expired now v := by
  cases v <;> rfl

/-- The expired rows of a model, as keys. -/
theorem map_rows_filter (due : Row → Bool) (db : Db) :
    (((rows R db).filter fun r => due (Model.row r)).map fun r => (⟨Model.table R, Model.id r⟩ : Key)) =
      (db.rows.filter fun v => decide (v.key.table = Model.table R) && due v).map Row.key := by
  unfold rows
  induction db.rows with
  | nil => rfl
  | cons v l ih =>
    cases hv : Model.ofRow (R := R) v with
    | none =>
      have htable : v.key.table ≠ Model.table R := fun h => by
        have hsome := Model.of_table (R := R) h
        rw [hv] at hsome
        cases hsome
      rw [List.filterMap_cons_none hv, List.filter_cons_of_neg (by simp [htable])]
      exact ih
    | some r =>
      have hrow : v = Model.row r := Model.ofRow_eq.mp hv
      have hkey : v.key = ⟨Model.table R, Model.id r⟩ := by rw [hrow, Model.key_row]
      rw [List.filterMap_cons_some hv]
      cases hdue : due v with
      | true =>
        rw [List.filter_cons_of_pos (by rwa [← hrow]), List.filter_cons_of_pos (by simp [hkey, hdue]),
          List.map_cons, List.map_cons, ih, hkey]
      | false =>
        rw [List.filter_cons_of_neg (by rw [← hrow, hdue]; exact Bool.false_ne_true),
          List.filter_cons_of_neg (by simp [hdue]), ih]

/-- A batch takes as many expired rows of its table as there are, or as many as it may. -/
theorem removes_olderStmt {column : R → Option Instant} {cutoff : Instant}
    {limit : Limit cleanupBatchSize Id} (hswept : Table.swept (Model.table R) = true)
    (hdue : ∀ r : R, settings.expired now (Model.row r) =
      (column r).any fun t => decide (t < cutoff)) (w : World kurul) :
    (Call.exec (olderStmt column (some cutoff) limit)).Removes references env
      (fun v => decide (v.key.table = Model.table R) && settings.expired now v) 1 w
      fun n gone => n = gone.length ∧
        gone.length = min cleanupBatchSize (settings.expiredIn now (Model.table R) w.db) := by
  let older := (rows R w.db).filter fun r => (column r).any fun t => decide (t < cutoff)
  let gone := (limit.pick (older.map Model.id)).map fun id => (⟨Model.table R, id⟩ : Key)
  have holder : (older.map Model.id).map (fun id => (⟨Model.table R, id⟩ : Key)) =
      (w.db.rows.filter fun v => decide (v.key.table = Model.table R) && settings.expired now v).map
        Row.key := by
    rw [← map_rows_filter, List.map_map]
    simp only [older, hdue]
    rfl
  have hlength : gone.length = min cleanupBatchSize (settings.expiredIn now (Model.table R) w.db) := by
    have hlen := congrArg List.length holder
    simp only [List.length_map] at hlen
    rw [RetentionSettings.expiredIn, List.length_map, limit.length_pick, List.length_map, hlen]
  have hpick : List.Subperm gone ((w.db.rows.filter fun v =>
      decide (v.key.table = Model.table R) && settings.expired now v).map Row.key) :=
    holder ▸ (limit.subperm _).map fun _ _ h => congrArg Key.id h
  obtain ⟨ws, hws, hdb⟩ : ∃ ws, w.db.deletion references gone = some ws ∧
      w.db.applyAll ws = w.db.purge references gone :=
    Store.applyAll_deletion references_clears fun v _ k hk a hr => by
      obtain ⟨id, _, rfl⟩ := List.mem_map.mp hk
      exact setNull_of_swept hr hswept
  refine .exec references_clears (e := ⟨gone.length, ws, []⟩) ?_ ?_ ⟨rfl, hlength⟩
  · simp only [olderStmt]
    rw [show w.db.deletion references gone = some ws from hws, List.length_map]
  · rw [hdb]
    exact .pick hpick

/-- The loop goes on until its table has no expired row left, or until the ceiling. -/
theorem removes_deleteInBatches {runBatch : Nat → Call kurul Nat} {due : Row → Bool}
    (hclear : ∀ p v, due (references.clear p v) = due v)
    (hbatch : ∀ left w, (runBatch left).Removes references env due 1 w fun n gone =>
      n = gone.length ∧ gone.length = min cleanupBatchSize (w.db.rows.filter due).length) :
    ∀ left total w, (deleteInBatches runBatch left total).Removes references env due left w
      fun n gone => n = total + gone.length ∧
        gone.length = min (cleanupBatchSize * left) (w.db.rows.filter due).length := by
  intro left
  induction left with
  | zero =>
    intro total w
    exact .ret references_clears (by simp)
  | succ left ih =>
    intro total w
    rw [deleteInBatches, Nat.add_comm left 1]
    refine (hbatch left w).bind references_clears hclear fun n gone w' hn hgone => ?_
    obtain ⟨rfl, hlength⟩ := hn
    have hleft : (w'.db.rows.filter due).length + gone.length = (w.db.rows.filter due).length := by
      simpa using hgone.length_due hclear fun _ => true
    split
    · -- a short batch: it was the last
      refine .mono (.ret references_clears ?_) (fun _ h => h) (Nat.zero_le _) fun _ _ _ h => h
      rw [List.append_nil]
      refine ⟨rfl, ?_⟩
      unfold cleanupBatchSize at *
      omega
    · refine (ih (total + gone.length) w').mono (fun _ h => h) le_rfl ?_
      rintro n gone' _ ⟨rfl, hlength'⟩
      rw [List.length_append]
      unfold cleanupBatchSize at *
      omega

/-- What the sweep of one table does. -/
theorem removes_deleteOlder {picks : Picks} {column : R → Option Instant} {cutoff : Instant}
    (hswept : Table.swept (Model.table R) = true)
    (hdue : ∀ r : R, settings.expired now (Model.row r) =
      (column r).any fun t => decide (t < cutoff)) (w : World kurul) :
    (deleteOlder picks column (some cutoff)).Removes references env (settings.expired now)
      maxBatchesPerTable w fun n gone => n = gone.length ∧
        n = min ceiling (settings.expiredIn now (Model.table R) w.db) ∧
        ∀ k ∈ gone, k.table = Model.table R := by
  have hclear : ∀ p v, (decide ((references.clear p v).key.table = Model.table R) &&
      settings.expired now (references.clear p v)) =
        (decide (v.key.table = Model.table R) && settings.expired now v) := by
    intro p v
    rw [expired_clear, ← keyed_key, references.key_clear, keyed_key]
  have hall : (deleteOlder picks column (some cutoff)).Removes references env
      (fun v => decide (v.key.table = Model.table R) && settings.expired now v) maxBatchesPerTable w
      fun n gone => n = 0 + gone.length ∧
        gone.length = min ceiling (settings.expiredIn now (Model.table R) w.db) :=
    removes_deleteInBatches hclear (fun left w => removes_olderStmt hswept hdue w) maxBatchesPerTable 0 w
  obtain ⟨gone, hgone, hcost, hends, hpost⟩ := hall
  refine ⟨gone, hgone.mono fun v hv => (Bool.and_eq_true_iff.mp hv).2, hcost, hends, fun n hn => ?_⟩
  obtain ⟨heq, hlength⟩ := hpost n hn
  rw [Nat.zero_add] at heq
  refine ⟨heq, heq.trans hlength, fun k hk => ?_⟩
  obtain ⟨v, _, hv, rfl⟩ := hgone.due k hk
  exact of_decide_eq_true (Bool.and_eq_true_iff.mp hv).1

/-- Under no window no row is due, and none goes. -/
theorem removes_deleteOutlived {picks : Picks} {column : R → Option Instant} {now : ValidDate}
    {days : Nat} (hcutoff : (cutoffFor now days).isSome = true)
    (hswept : Table.swept (Model.table R) = true)
    (hdue : ∀ r : R, settings.expired now (Model.row r) = (column r).any (outlived now days))
    (w : World kurul) :
    (deleteOutlived picks column now days).Removes references env (settings.expired now)
      maxBatchesPerTable w fun n gone => n = gone.length ∧
        n = min ceiling (settings.expiredIn now (Model.table R) w.db) ∧
        ∀ k ∈ gone, k.table = Model.table R := by
  unfold deleteOutlived
  split
  · rename_i hzero
    refine .mono (.ret references_clears ?_) (fun _ h => h) (Nat.zero_le _) fun _ _ _ h => h
    have hnone : settings.expiredIn now (Model.table R) w.db = 0 := by
      rw [RetentionSettings.expiredIn, List.length_eq_zero_iff, List.filter_eq_nil_iff]
      intro v _ hv
      obtain ⟨htable, hexpired⟩ := Bool.and_eq_true_iff.mp hv
      obtain ⟨r, rfl⟩ := exists_row_of_table (R := R) (of_decide_eq_true htable)
      rw [hdue] at hexpired
      obtain ⟨t, _, ht⟩ := (Option.any_eq_true _ _).mp hexpired
      simp [outlived, hzero] at ht
    simp [hnone]
  · rename_i hdays
    obtain ⟨cutoff, hc⟩ := Option.isSome_iff_exists.mp hcutoff
    have hexact : cutoff = now - days * msPerDay := by
      rw [cutoffFor_eq, date] at hc
      split at hc
      · exact (Option.some.inj hc).symm
      · cases hc
    rw [hc]
    refine removes_deleteOlder hswept (fun r => ?_) w
    rw [hdue, hexact]
    congr 1
    funext t
    simp [outlived, hdays]

/-- What a row of one table loses is none of another's. -/
theorem expiredIn_of_purged {gone : List Key} {db' : Db} {table : Table}
    (h : Purged references (settings.expired now) db gone db') (hne : ∀ k ∈ gone, k.table ≠ table) :
    settings.expiredIn now table db' = settings.expiredIn now table db := by
  have hsplit := h.length_due expired_clear fun k => decide (k.table = table)
  rw [List.countP_eq_zero.mpr fun k hk => by simpa using hne k hk] at hsplit
  exact hsplit

/-- Of these tables as many rows are gone as the counts say: the expired ones, or as many as the ceiling
allows. -/
structure Tally (settings : RetentionSettings) (now : Instant) (db : Db) (tables : List Table)
    (counts : CleanupCounts) (gone : List Key) : Prop where
  counted : ∀ table, gone.countP (fun k => decide (k.table = table)) =
    if table ∈ tables then counts.of table else 0
  expired : ∀ table ∈ tables, counts.of table = min ceiling (settings.expiredIn now table db)

/-- One table after the others. `done` is what is counted already. -/
theorem removes_next {p : Call kurul Nat} {f : Nat → Call kurul CleanupCounts} (table : Table)
    (tables : List Table) {done : List (Table × Nat)} {cost cost' : Nat} (hnot : table ∉ tables)
    (hp : p.Removes references env (settings.expired now) cost w fun n gone => n = gone.length ∧
      n = min ceiling (settings.expiredIn now table w.db) ∧ ∀ k ∈ gone, k.table = table)
    (hf : ∀ n w', (f n).Removes references env (settings.expired now) cost' w' fun counts gone =>
      Tally settings now w'.db tables counts gone ∧ ∀ d ∈ (table, n) :: done, counts.of d.1 = d.2) :
    (p >>= f).Removes references env (settings.expired now) (cost + cost') w fun counts gone =>
      Tally settings now w.db (table :: tables) counts gone ∧ ∀ d ∈ done, counts.of d.1 = d.2 := by
  refine hp.bind references_clears expired_clear ?_
  rintro n gone w' ⟨hn, hmin, htable⟩ hgone
  refine (hf n w').mono (fun _ h => h) le_rfl ?_
  rintro counts gone' - ⟨htally, hdone⟩
  have hcount : counts.of table = n := hdone (table, n) List.mem_cons_self
  refine ⟨⟨fun other => ?_, fun other hother => ?_⟩, fun d hd => hdone d (List.mem_cons_of_mem _ hd)⟩
  · rw [List.countP_append, htally.counted]
    by_cases hother : other = table
    · subst hother
      rw [List.countP_eq_length.mpr fun k hk => by simpa using htable k hk, if_neg hnot, ← hn, hcount]
      simp
    · rw [List.countP_eq_zero.mpr fun k hk => by simpa [htable k hk] using Ne.symm hother, Nat.zero_add]
      simp [hother]
  · by_cases hsame : other = table
    · rw [hsame, hcount, hmin]
    · rw [htally.expired other ((List.mem_cons.mp hother).resolve_left hsame),
        expiredIn_of_purged hgone fun k hk => by rw [htable k hk]; exact Ne.symm hsame]

end Phase

/-! ## The whole run -/

section Run

variable {settings : RetentionSettings} {now : ValidDate} {backup : BackupEnv}
  {storage : Option Directory} {env : Env kurul}

theorem removes_orphanedFiles (w : World kurul) (due : Row → Bool) :
    (orphanedFiles backup storage now).Removes references env due 1 w fun _ gone => gone = [] := by
  unfold orphanedFiles
  cases storage with
  | none =>
    refine .mono (.ret references_clears ?_) (fun _ h => h) (Nat.zero_le _) fun _ _ _ h => h
    rfl
  | some directory => exact .exec references_clears rfl (.refl references_clears) rfl

def sweptTables : List Table := [.session, .verification, .notification, .activity, .usagePing]

/-- The five tables and the files, one after the other. -/
theorem removes_runCleanup (hon : settings.enabled = true) (hdates : settings.Representable now) (backup : BackupEnv)
    (storage : Option Directory) (picks : Picks) (env : Env kurul) (w : World kurul) :
    (runCleanup settings backup storage picks now).Removes references env (settings.expired now)
      (5 * maxBatchesPerTable + 1) w fun counts gone =>
        Tally settings now w.db sweptTables counts gone := by
  have hlast : ∀ sessions verifications notifications activities usagePings w,
      (orphanedFiles backup storage now >>= fun orphanedFiles => (Call.ret
        ⟨sessions, verifications, notifications, activities, usagePings, orphanedFiles⟩ :
          Call kurul CleanupCounts)).Removes references env (settings.expired now) 1 w
        fun counts gone => Tally settings now w.db [] counts gone ∧
          ∀ d ∈ [(.usagePing, usagePings), (.activity, activities), (.notification, notifications),
            (.verification, verifications), (.session, sessions)], counts.of d.1 = d.2 := by
    intro sessions verifications notifications activities usagePings w
    refine .mono ((removes_orphanedFiles w _).bind references_clears expired_clear
      fun n gone w' hgone _ => .ret references_clears ?_) (fun _ h => h) (le_refl (1 + 0))
      fun _ _ _ h => h
    rw [hgone]
    exact ⟨⟨fun table => by simp, fun table h => by cases h⟩, by simp [CleanupCounts.of]⟩
  have hall : (runCleanup settings backup storage picks now).Removes references env
      (settings.expired now) (maxBatchesPerTable + (maxBatchesPerTable + (maxBatchesPerTable +
        (maxBatchesPerTable + (maxBatchesPerTable + 1))))) w fun counts gone =>
          Tally settings now w.db sweptTables counts gone ∧
            ∀ d ∈ ([] : List (Table × Nat)), counts.of d.1 = d.2 := by
    simp only [runCleanup, hon, Bool.not_true, Bool.false_eq_true, if_false]
    refine removes_next .session [.verification, .notification, .activity, .usagePing] (by simp)
      (removes_deleteOlder rfl (fun r => rfl) w) fun sessions w => ?_
    refine removes_next .verification [.notification, .activity, .usagePing] (by simp)
      (removes_deleteOlder rfl (fun r => rfl) w) fun verifications w => ?_
    refine removes_next .notification [.activity, .usagePing] (by simp)
      (removes_deleteOutlived hdates.1 rfl (fun r => rfl) w) fun notifications w => ?_
    refine removes_next .activity [.usagePing] (by simp)
      (removes_deleteOutlived hdates.2 rfl (fun r => rfl) w) fun activities w => ?_
    refine removes_next .usagePing [] (by simp)
      (removes_deleteOutlived hdates.2 rfl (fun r => rfl) w) fun usagePings w => ?_
    exact hlast sessions verifications notifications activities usagePings w
  exact hall.mono (fun _ h => h) (by omega) fun _ _ _ h => h.1

end Run

end CleanupWorker
end Kurul
