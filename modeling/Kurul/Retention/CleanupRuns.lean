import Mathlib.Logic.Relation
import Kurul.Retention.Cleanup

/-!
# Kurul.Retention.CleanupRuns

`CleanupWorker.runCleanup` against the retention policy, run after run.

* `Honours`          — what the policy asks of the run and of its retries.
* `cleanup_honours`  — it gets it, as long as the switch is on.
* `rerun_takes_more` — above the ceiling a second run goes on where the first one stopped.
-/

namespace Kurul
namespace CleanupWorker

open Sql

variable {settings : RetentionSettings} {now : ValidDate} {backup : BackupEnv}
  {storage : Option Directory} {db db₁ db₂ : Db}

/-- No table has more expired rows than one run takes. -/
def Within (settings : RetentionSettings) (now : Instant) (db : Db) : Prop :=
  ∀ table, settings.expiredIn now table db ≤ ceiling

/-- The database without its expired rows; the activities among them are no longer named. -/
def RetentionSettings.retained (settings : RetentionSettings) (now : Instant) (db : Db) : Db :=
  db.purge references ((db.rows.filter (settings.expired now)).map Row.key)

/-- The rows of a table. -/
def rowsIn (table : Table) (db : Db) : Nat :=
  (db.rows.filter fun v => decide (v.key.table = table)).length

/-- An attempt at the run has left this, whether it returned or threw. -/
def Attempted (settings : RetentionSettings) (backup : BackupEnv) (storage : Option Directory)
    (now : ValidDate) (db db' : Db) : Prop :=
  ∃ picks env w, w.db = db ∧ db' = ((runCleanup settings backup storage picks now).run env w).2.db

/-- So has one at this time or earlier: a job that is tried again reads the clock again. -/
def AttemptedBy (settings : RetentionSettings) (backup : BackupEnv) (storage : Option Directory)
    (now : ValidDate) (db db' : Db) : Prop :=
  ∃ earlier : ValidDate, (earlier : Int) ≤ now ∧ settings.Representable earlier ∧
    Attempted settings backup storage earlier db db'

/-- A run has returned and left this. -/
def Completed (settings : RetentionSettings) (backup : BackupEnv) (storage : Option Directory)
    (now : ValidDate) (db db' : Db) : Prop :=
  ∃ picks env w counts w', w.db = db ∧ w'.db = db' ∧
    (runCleanup settings backup storage picks now).run env w = (.ok counts, w')

/-- What the policy asks. -/
structure Honours (settings : RetentionSettings) (backup : BackupEnv) (storage : Option Directory)
    (now : ValidDate) : Prop where
  /-- The loops end, after so many statements; and with no failure the run returns. -/
  ends : ∀ picks env w, let out := (runCleanup settings backup storage picks now).run env w
    out.2.stmts ≤ w.stmts + (5 * maxBatchesPerTable + 1) ∧
      ((∀ n, env.fails n = none) → out.1.isOk = true)
  /-- Only expired rows go, and nothing else happens, even in an attempt that throws. -/
  only : ∀ db db', Attempted settings backup storage now db db' →
    ∃ gone, Purged references (settings.expired now) db gone db'
  /-- An unread notification is there, at any age. -/
  unread : ∀ db db', Attempted settings backup storage now db db' →
    ∀ n ∈ rows NotificationRow db, n.readAt = none →
      ∃ activityId, { n with activityId } ∈ rows NotificationRow db'
  /-- Of each table go all the expired rows, or as many as the ceiling allows, and they are counted. -/
  counted : ∀ picks env w counts w',
    (runCleanup settings backup storage picks now).run env w = (.ok counts, w') → ∀ table,
      counts.of table = min ceiling (settings.expiredIn now table w.db) ∧
        rowsIn table w'.db + counts.of table = rowsIn table w.db
  /-- Up to the ceiling exactly the rows that are not expired are left, -/
  exact : ∀ db db', Within settings now db → Completed settings backup storage now db db' →
    db' = settings.retained now db
  /-- also by a run after any number of others, at this time or earlier, complete or not. -/
  retried : ∀ db db₁ db₂, Within settings now db →
    Relation.ReflTransGen (AttemptedBy settings backup storage now) db db₁ →
    Completed settings backup storage now db₁ db₂ → db₂ = settings.retained now db

/-- With the switch off nothing is sent. -/
theorem runCleanup_off (hoff : settings.enabled = false) (picks : Picks) (env : Env kurul)
    (w : World kurul) :
    (runCleanup settings backup storage picks now).run env w = (.ok .empty, w) := by
  simp [runCleanup, hoff]

theorem countP_of_tally {gone : List Key} {counts : CleanupCounts}
    (h : Tally settings now db sweptTables counts gone) (table : Table) :
    gone.countP (fun k => decide (k.table = table)) = counts.of table := by
  rw [h.counted]
  cases table <;> rfl

/-- A table that is not swept has no expired row. -/
theorem count_of_tally {gone : List Key} {counts : CleanupCounts}
    (h : Tally settings now db sweptTables counts gone) (table : Table) :
    counts.of table = min ceiling (settings.expiredIn now table db) := by
  by_cases hswept : table ∈ sweptTables
  · exact h.expired table hswept
  · have hnone : settings.expiredIn now table db = 0 := by
      rw [RetentionSettings.expiredIn, List.length_eq_zero_iff, List.filter_eq_nil_iff]
      rintro v - hv
      obtain ⟨rfl, hexpired⟩ := by simpa using hv
      cases v <;> simp [RetentionSettings.expired, sweptTables, Row.key] at hexpired hswept
    rw [hnone, ← countP_of_tally h, h.counted, if_neg hswept, Nat.min_zero]

/-- What is left of a table. -/
theorem expiredIn_of_tally {gone : List Key} {counts : CleanupCounts}
    (hgone : Purged references (settings.expired now) db gone db₁)
    (h : Tally settings now db sweptTables counts gone) (table : Table) :
    settings.expiredIn now table db₁ + min ceiling (settings.expiredIn now table db) =
      settings.expiredIn now table db := by
  rw [← count_of_tally h, ← countP_of_tally h]
  exact hgone.length_due expired_clear fun k => decide (k.table = table)

theorem Within.of_purged {gone : List Key} (h : Within settings now db)
    (hgone : Purged references (settings.expired now) db gone db₁) : Within settings now db₁ := by
  intro table
  have hsplit := hgone.length_due expired_clear fun k => decide (k.table = table)
  exact le_trans (Nat.le.intro hsplit) (h table)

/-- With no more than the ceiling in any table, no expired row is left. -/
theorem retained_of_tally {gone : List Key} {counts : CleanupCounts} (hwithin : Within settings now db)
    (hgone : Purged references (settings.expired now) db gone db₁)
    (h : Tally settings now db sweptTables counts gone) : db₁ = settings.retained now db := by
  refine hgone.complete expired_clear fun v hv => Bool.eq_false_iff.mpr fun hexpired => ?_
  have hsplit := expiredIn_of_tally hgone h v.key.table
  rw [min_eq_right (hwithin _), Nat.add_eq_right, RetentionSettings.expiredIn,
    List.length_eq_zero_iff] at hsplit
  have hmem : v ∈ db₁.rows.filter fun u =>
      decide (u.key.table = v.key.table) && settings.expired now u :=
    List.mem_filter.mpr ⟨hv, by simp [hexpired]⟩
  rw [hsplit] at hmem
  cases hmem

/-- What is expired stays so. -/
theorem expired_mono {earlier now : Instant} (h : earlier ≤ now) (v : Row)
    (hv : settings.expired earlier v = true) : settings.expired now v = true := by
  have hout : ∀ days t, outlived earlier days t = true → outlived now days t = true := by
    intro days t ht
    simp only [outlived, Bool.and_eq_true, decide_eq_true_eq] at ht ⊢
    unfold Instant at *
    omega
  cases v with
  | session s => exact decide_eq_true (lt_of_lt_of_le (of_decide_eq_true hv) h)
  | verification v => exact decide_eq_true (lt_of_lt_of_le (of_decide_eq_true hv) h)
  | notification n =>
    obtain ⟨t, ht, hlong⟩ := (Option.any_eq_true _ _).mp hv
    exact (Option.any_eq_true _ _).mpr ⟨t, ht, hout _ t hlong⟩
  | activity a => exact hout _ _ hv
  | usagePing p => exact hout _ _ hv
  | _ => cases hv

section On

variable (hon : settings.enabled = true)
include hon

theorem purged_of_attempted (hdates : settings.Representable now)
    (h : Attempted settings backup storage now db db₁) :
    ∃ gone, Purged references (settings.expired now) db gone db₁ := by
  obtain ⟨picks, env, w, rfl, rfl⟩ := h
  obtain ⟨gone, hgone, -⟩ := removes_runCleanup hon hdates backup storage picks env w
  exact ⟨gone, hgone⟩

theorem tally_of_completed (hdates : settings.Representable now)
    (h : Completed settings backup storage now db db₁) :
    ∃ gone counts, Purged references (settings.expired now) db gone db₁ ∧
      Tally settings now db sweptTables counts gone := by
  obtain ⟨picks, env, w, counts, w', rfl, rfl, hrun⟩ := h
  obtain ⟨gone, hgone, -, -, hpost⟩ := removes_runCleanup hon hdates backup storage picks env w
  rw [hrun] at hgone hpost
  exact ⟨gone, counts, hgone, hpost counts rfl⟩

/-- Attempts one after the other take expired rows and do nothing else. -/
theorem purged_of_attempts
    (h : Relation.ReflTransGen (AttemptedBy settings backup storage now) db db₁) :
    ∃ gone, Purged references (settings.expired now) db gone db₁ := by
  induction h with
  | refl => exact ⟨[], .refl references_clears⟩
  | tail _ hlast ih =>
    obtain ⟨gone, hgone⟩ := ih
    obtain ⟨earlier, hle, hdates, hlast⟩ := hlast
    obtain ⟨gone', hgone'⟩ := purged_of_attempted hon hdates hlast
    exact ⟨gone ++ gone', hgone.trans references_clears expired_clear (hgone'.mono (expired_mono hle))⟩

theorem exact_of_completed (hdates : settings.Representable now) (hwithin : Within settings now db)
    (h : Completed settings backup storage now db db₁) : db₁ = settings.retained now db := by
  obtain ⟨gone, counts, hgone, htally⟩ := tally_of_completed hon hdates h
  exact retained_of_tally hwithin hgone htally

/-- While the switch is on. -/
theorem honours (hdates : settings.Representable now) : Honours settings backup storage now where
  ends picks env w := by
    obtain ⟨gone, -, hcost, hends, -⟩ := removes_runCleanup hon hdates backup storage picks env w
    exact ⟨hcost, hends⟩
  only db db' h := purged_of_attempted hon hdates h
  unread db db' h n hn hread := by
    obtain ⟨gone, hgone⟩ := purged_of_attempted hon hdates h
    have hstays := hgone.stays (mem_rows.mp hn) (by simp [Model.row, RetentionSettings.expired, hread])
    exact ⟨_, mem_rows.mpr hstays⟩
  counted picks env w counts w' hrun table := by
    obtain ⟨gone, hgone, -, -, hpost⟩ := removes_runCleanup hon hdates backup storage picks env w
    rw [hrun] at hgone hpost
    have htally := hpost counts rfl
    refine ⟨count_of_tally htally table, ?_⟩
    rw [← countP_of_tally htally]
    exact hgone.length_keys fun k => decide (k.table = table)
  exact db db' hwithin h := exact_of_completed hon hdates hwithin h
  retried db db₁ db₂ hwithin hattempts h := by
    obtain ⟨gone, hgone⟩ := purged_of_attempts hon hattempts
    rw [exact_of_completed hon hdates (hwithin.of_purged hgone) h]
    exact hgone.rest references_clears expired_clear

end On

/-- The run honours the policy while the switch is on, and does nothing while it is off. -/
theorem cleanup_honours (hdates : settings.Representable now) (backup : BackupEnv)
    (storage : Option Directory) :
    (settings.enabled = true → Honours settings backup storage now) ∧
      (settings.enabled = false → ∀ picks env w,
        (runCleanup settings backup storage picks now).run env w = (.ok .empty, w)) :=
  ⟨fun hon => honours hon hdates, fun hoff => runCleanup_off hoff⟩

def defaultSettings : RetentionSettings := ⟨true, 90, 365⟩

/-- As where no variable is set. -/
theorem defaults_honour :
    retentionSettings none none none = some defaultSettings ∧
      Honours defaultSettings .default none ⟨1700000000000, by decide⟩ :=
  ⟨by decide +kernel, (cleanup_honours ⟨by decide +kernel, by decide +kernel⟩ .default none).1 rfl⟩

/-! ## Above the ceiling -/

/-- So many sessions that have expired at the epoch. -/
def expiredSessions (n : Nat) : Db where
  rows := (List.range n).map fun i => .session ⟨List.replicate i 120, [], List.replicate i 120, 0⟩
  nodup := by
    rw [List.map_map]
    refine List.nodup_range.map fun i j h => ?_
    simpa [Row.key] using congrArg (fun k : Key => k.id.length) h

theorem expiredIn_expiredSessions (n : Nat) :
    defaultSettings.expiredIn 1 .session (expiredSessions n) = n := by
  simp [RetentionSettings.expiredIn, expiredSessions, List.filter_map, Function.comp_def,
    RetentionSettings.expired, Row.key]

/-- A run in which no statement fails, and each batch picks the first rows. -/
def calmRun (settings : RetentionSettings) (now : ValidDate) (w : World kurul) :
    Except ApiError CleanupCounts × World kurul :=
  (runCleanup settings .default none (fun _ _ => .first _ _) now).run calm w

/-- What it leaves of a table. -/
theorem expiredIn_calmRun (hon : settings.enabled = true) (hdates : settings.Representable now)
    (w : World kurul) (table : Table) :
    (calmRun settings now w).1.isOk = true ∧
      settings.expiredIn now table (calmRun settings now w).2.db +
        min ceiling (settings.expiredIn now table w.db) = settings.expiredIn now table w.db := by
  obtain ⟨gone, hgone, -, hends, hpost⟩ :=
    removes_runCleanup hon hdates .default none (fun _ _ => .first _ _) calm w
  have hok := hends fun _ => rfl
  obtain ⟨counts, w', hrun⟩ := Call.run_isOk calm w hok
  exact ⟨hok, expiredIn_of_tally hgone (hpost counts (by rw [hrun])) table⟩

/-- Where a table has more expired rows than the ceiling allows, the same run again takes more. -/
theorem rerun_ne (hon : settings.enabled = true) (hdates : settings.Representable now)
    {w : World kurul} {table : Table} (hover : ceiling < settings.expiredIn now table w.db) :
    (calmRun settings now w).1.isOk = true ∧
      (calmRun settings now (calmRun settings now w).2).1.isOk = true ∧
      (calmRun settings now w).2.db ≠ (calmRun settings now (calmRun settings now w).2).2.db := by
  obtain ⟨hfirst, hleft⟩ := expiredIn_calmRun hon hdates w table
  obtain ⟨hsecond, hleft'⟩ := expiredIn_calmRun hon hdates (calmRun settings now w).2 table
  refine ⟨hfirst, hsecond, fun heq => ?_⟩
  have hpos : 0 < ceiling := by decide
  rw [← heq] at hleft'
  omega

/-- With one session more than the ceiling, the run leaves one and the same run again none. And with the
switch off the run leaves what has expired. -/
theorem rerun_takes_more :
    let now : ValidDate := ⟨1, by decide⟩
    let first := calmRun defaultSettings now (.start (expiredSessions (ceiling + 1)))
    let second := calmRun defaultSettings now first.2
    (first.1.isOk = true ∧ second.1.isOk = true ∧ first.2.db ≠ second.2.db) ∧
      (calmRun ⟨false, 90, 365⟩ now (.start (expiredSessions 1))).2.db ≠
        RetentionSettings.retained ⟨false, 90, 365⟩ now (expiredSessions 1) := by
  have hlt : ceiling < ceiling + 1 := Nat.lt_succ_self ceiling
  -- a number, and not a list of a million to compute with
  generalize ceiling + 1 = n at hlt ⊢
  dsimp only
  have hover : ceiling < defaultSettings.expiredIn 1 .session
      (World.start (S := kurul) (expiredSessions n)).db :=
    lt_of_lt_of_eq hlt (expiredIn_expiredSessions n).symm
  refine ⟨rerun_ne rfl ⟨by decide +kernel, by decide +kernel⟩ hover, ?_⟩
  rw [calmRun, runCleanup_off rfl]
  intro heq
  have hlength := congrArg (fun db : Db => db.rows.length) heq
  exact absurd hlength (by decide +kernel)

end CleanupWorker
end Kurul
