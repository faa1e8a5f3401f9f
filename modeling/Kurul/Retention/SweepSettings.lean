import Kurul.Binary64
import Kurul.Retention.SweepSystem

/-!
# Kurul.Retention.SweepSettings

The orphan sweep over a directory at rest, under any backup settings, with the arithmetic of the
runtime.

* `cutoff_eq`    — the cutoff as it is computed is the exact one, or neither is a date.
* `sweep_from`   — what a sweep removes is old and not claimed, what it keeps is young or claimed.
* `settings_safe` — no setting makes it take a fresh file, or one it kept under smaller settings, exactly
  as long as the grace period does not reach past the earliest date.
-/

namespace Kurul
namespace CleanupWorker

open AttachmentService

/-! ## The cutoff -/

/-- `envInt(…)` of a variable that spells this whole number, or is not set. `none` where it throws: a
number too large is infinite, which is no integer. -/
def envInt (fallback : Int) : Option Int → Option Int
  | none => some fallback
  | some spelled => Binary64.round spelled

def BackupEnv.read (interval keep : Option Int) : Option BackupEnv := do
  let interval ← envInt BackupEnv.default.interval interval
  let keep ← envInt BackupEnv.default.keep keep
  return ⟨interval, keep⟩

/-- `orphanGraceMs()` as it is computed; `none` is infinite. -/
def graceMs (env : BackupEnv) : Option Int := do
  let configured ← Binary64.round (max env.interval 0 * max env.keep 1)
  let configured ← Binary64.round (configured * 1000)
  return max configured minOrphanGraceMs

/-- The furthest a date is from the epoch. -/
def maxTime : Int := 8640000000000000

/-- A date that is not `Invalid Date`. -/
abbrev ValidDate : Type := { t : Int // |t| ≤ maxTime }

/-- `new Date(now.getTime() - orphanGraceMs())`. -/
def cutoff (env : BackupEnv) (now : ValidDate) : Option Instant := do
  let grace ← graceMs env
  let time ← Binary64.round (now - grace)
  date time

theorem date_of_lt {t : Int} (h : t < -maxTime) : date t = none := by
  refine if_neg fun hle => ?_
  have hlow := (abs_le.mp hle).1
  unfold maxTime at h
  omega

/-- A difference that is not exact is no date. -/
theorem round_date {t : Int} (h : t ≤ maxTime) : (Binary64.round t).bind date = date t := by
  by_cases hsmall : t.natAbs ≤ 2 ^ 53
  · rw [Binary64.round_small hsmall, Option.bind_some]
  · have hlow : t ≤ -2 ^ 53 := by unfold maxTime at h; omega
    rw [date_of_lt (show t < -maxTime by unfold maxTime; omega)]
    cases hround : Binary64.round t with
    | none => rfl
    | some w =>
      have hw := Binary64.le_round hround hlow
      rw [Option.bind_some]
      exact date_of_lt (by unfold maxTime; omega)

/-- The grace period is exact, or out of reach. -/
theorem graceMs_cases (env : BackupEnv) : graceMs env = some (orphanGraceMs env) ∨
    (2 ^ 56 ≤ orphanGraceMs env ∧ ∀ grace, graceMs env = some grace → 2 ^ 54 ≤ grace) := by
  have hinterval : 0 ≤ max env.interval 0 := le_max_right _ _
  have hkeep : 0 ≤ max env.keep 1 := le_trans (by decide) (le_max_right _ _)
  have hprod : 0 ≤ max env.interval 0 * max env.keep 1 := Int.mul_nonneg hinterval hkeep
  unfold graceMs orphanGraceMs
  generalize max env.interval 0 * max env.keep 1 = p at hprod
  by_cases hlt : p * 1000 < 2 ^ 56
  · have hp : Binary64.round p = some p := Binary64.round_small (by omega)
    -- the factor 1000 has the three bits that go beyond 53
    have hscaled : Binary64.round (p * 1000) = some (p * 1000) := by
      refine Binary64.round_exact (k := 3) (by omega) ?_ (by omega)
      rw [Int.natAbs_mul]
      exact Dvd.dvd.mul_left (by decide) _
    left
    simp [hp, hscaled]
  · right
    refine ⟨le_trans (not_lt.mp hlt) (le_max_left _ _), fun grace h => ?_⟩
    obtain ⟨q, hq, h⟩ := Option.bind_eq_some_iff.mp h
    obtain ⟨r, hr, h⟩ := Option.bind_eq_some_iff.mp h
    have hhalf := Binary64.round_half hq hprod
    have hhalf' := Binary64.round_half hr (by omega)
    rw [← Option.some.inj h]
    exact le_trans (by omega) (le_max_left _ _)

/-- The cutoff of exact arithmetic. -/
theorem cutoff_eq (env : BackupEnv) (now : ValidDate) :
    cutoff env now = date (now - orphanGraceMs env) := by
  have hnow := (abs_le.mp now.property).2
  have hpos : minOrphanGraceMs ≤ orphanGraceMs env := le_max_right _ _
  unfold cutoff
  rcases graceMs_cases env with hexact | ⟨hlarge, hout⟩
  · rw [hexact]
    refine round_date ?_
    unfold minOrphanGraceMs msPerDay at hpos
    omega
  · rw [date_of_lt (show now - orphanGraceMs env < -maxTime by unfold maxTime at *; omega)]
    cases hgrace : graceMs env with
    | none => rfl
    | some grace =>
      have hle := hout grace hgrace
      have hdate : date (now - grace) = none := date_of_lt (by unfold maxTime at *; omega)
      rw [← hdate]
      exact round_date (by unfold maxTime at *; omega)

/-- It is a date unless the grace period reaches past the earliest. -/
theorem cutoff_isSome (env : BackupEnv) (now : ValidDate) :
    (cutoff env now).isSome = true ↔ orphanGraceMs env ≤ now + maxTime := by
  have hnow := (abs_le.mp now.property).2
  have hpos : minOrphanGraceMs ≤ orphanGraceMs env := le_max_right _ _
  unfold minOrphanGraceMs msPerDay at hpos
  rw [cutoff_eq, date]
  split
  · rename_i h
    have hlow := (abs_le.mp h).1
    simp only [Option.isSome_some, true_iff]
    unfold maxTime
    omega
  · rename_i h
    simp only [Option.isSome_none, Bool.false_eq_true, false_iff]
    intro hle
    refine h (abs_le.mpr ⟨?_, ?_⟩) <;> unfold maxTime at * <;> omega

theorem orphanGraceMs_mono {env env' : BackupEnv} (hinterval : env.interval ≤ env'.interval)
    (hkeep : env.keep ≤ env'.keep) : orphanGraceMs env ≤ orphanGraceMs env' := by
  refine max_le_max_right _ (Int.mul_le_mul_of_nonneg_right ?_ (by decide))
  exact Int.mul_le_mul (max_le_max_right 0 hinterval) (max_le_max_right 1 hkeep)
    (le_trans (by decide) (le_max_right _ _)) (le_max_right _ _)

/-! ## The sweep -/

structure DirectoryEntry where
  key : StorageKey
  modifiedAt : Instant

/-- The files there are, each named once. -/
structure Directory where
  entries : List DirectoryEntry
  names : (entries.map DirectoryEntry.key).Nodup

/-- What a sweep has done: `kept` are the files it has passed over, as too young or as claimed. -/
structure SweepRun where
  batch : List StorageKey
  removed : List StorageKey
  kept : List StorageKey

def SweepRun.empty : SweepRun := ⟨[], [], []⟩

section Sweep

variable (cutoff : Option Instant) (claimed : StorageKey → Bool)

/-- `flush()`. -/
def flush (run : SweepRun) : SweepRun where
  batch := []
  removed := run.removed ++ run.batch.filter fun key => !claimed key
  kept := run.kept ++ run.batch.filter claimed

/-- The loop over the directory. -/
def sweepEntries : List DirectoryEntry → SweepRun → SweepRun
  | [], run => run
  | entry :: rest, run =>
    if young cutoff entry.modifiedAt then
      sweepEntries rest { run with kept := run.kept ++ [entry.key] }
    else
      let run := { run with batch := run.batch ++ [entry.key] }
      let run := if cleanupBatchSize ≤ run.batch.length then flush claimed run else run
      if ceiling ≤ run.removed.length then run else sweepEntries rest run

/-- `sweepOrphanFiles(now)` on a backend that persists files. -/
def sweepOrphanFiles (directory : Directory) : SweepRun :=
  flush claimed (sweepEntries cutoff claimed directory.entries .empty)

end Sweep

section Runs

variable {cutoff : Option Instant} {claimed : StorageKey → Bool} {run : SweepRun}
  {entries : List DirectoryEntry} {directory : Directory} {key : StorageKey}

/-- Where the keys of a run come from. -/
structure SweepRun.From (cutoff : Option Instant) (claimed : StorageKey → Bool)
    (entries : List DirectoryEntry) (run : SweepRun) : Prop where
  batch : ∀ key ∈ run.batch, ∃ e ∈ entries, e.key = key ∧ young cutoff e.modifiedAt = false
  removed : ∀ key ∈ run.removed, claimed key = false ∧
    ∃ e ∈ entries, e.key = key ∧ young cutoff e.modifiedAt = false
  kept : ∀ key ∈ run.kept, claimed key = true ∨
    ∃ e ∈ entries, e.key = key ∧ young cutoff e.modifiedAt = true

theorem SweepRun.From.flush (h : run.From cutoff claimed entries) :
    (flush claimed run).From cutoff claimed entries where
  batch key hkey := by cases hkey
  removed key hkey := by
    rcases List.mem_append.mp hkey with hkey | hkey
    · exact h.removed key hkey
    · obtain ⟨hbatch, hclaimed⟩ := List.mem_filter.mp hkey
      exact ⟨by simpa using hclaimed, h.batch key hbatch⟩
  kept key hkey := by
    rcases List.mem_append.mp hkey with hkey | hkey
    · exact h.kept key hkey
    · exact .inl (List.mem_filter.mp hkey).2

theorem SweepRun.From.young {e : DirectoryEntry} (h : run.From cutoff claimed entries)
    (he : e ∈ entries) (hyoung : young cutoff e.modifiedAt = true) :
    ({ run with kept := run.kept ++ [e.key] } : SweepRun).From cutoff claimed entries where
  batch := h.batch
  removed := h.removed
  kept key hkey := by
    rcases List.mem_append.mp hkey with hkey | hkey
    · exact h.kept key hkey
    · exact .inr ⟨e, he, (List.mem_singleton.mp hkey).symm, hyoung⟩

theorem SweepRun.From.old {e : DirectoryEntry} (h : run.From cutoff claimed entries)
    (he : e ∈ entries) (hold : CleanupWorker.young cutoff e.modifiedAt = false) :
    ({ run with batch := run.batch ++ [e.key] } : SweepRun).From cutoff claimed entries where
  batch key hkey := by
    rcases List.mem_append.mp hkey with hkey | hkey
    · exact h.batch key hkey
    · exact ⟨e, he, (List.mem_singleton.mp hkey).symm, hold⟩
  removed := h.removed
  kept := h.kept

/-- One entry keeps it. -/
theorem sweepEntries_from {rest : List DirectoryEntry} (hsub : ∀ e ∈ rest, e ∈ entries)
    (h : run.From cutoff claimed entries) :
    (sweepEntries cutoff claimed rest run).From cutoff claimed entries := by
  induction rest generalizing run with
  | nil => exact h
  | cons e rest ih =>
    have he := hsub e List.mem_cons_self
    have hrest : ∀ e ∈ rest, e ∈ entries := fun e he => hsub e (List.mem_cons_of_mem _ he)
    rw [sweepEntries]
    cases hyoung : young cutoff e.modifiedAt with
    | true => exact ih hrest (h.young he hyoung)
    | false =>
      have hold := h.old he hyoung
      simp only [Bool.false_eq_true, if_false]
      split
      · split
        · exact hold.flush
        · exact ih hrest hold.flush
      · split
        · exact hold
        · exact ih hrest hold

theorem sweep_from : (sweepOrphanFiles cutoff claimed directory).From cutoff claimed
    directory.entries := by
  refine (sweepEntries_from (fun _ h => h) ?_).flush
  constructor <;> intro key hkey <;> cases hkey

/-- A file the loop has come to: it is removed or kept, or the next flush will say. -/
def SweepRun.Seen (run : SweepRun) (key : StorageKey) : Prop :=
  key ∈ run.batch ∨ key ∈ run.removed ∨ key ∈ run.kept

theorem seen_flush (h : run.Seen key) :
    key ∈ (flush claimed run).removed ∨ key ∈ (flush claimed run).kept := by
  simp only [flush, List.mem_append, List.mem_filter]
  rcases h with h | h | h
  · cases hclaimed : claimed key with
    | true => exact .inr (.inr ⟨h, rfl⟩)
    | false => exact .inl (.inr ⟨h, rfl⟩)
  · exact .inl (.inl h)
  · exact .inr (.inl h)

theorem flush_removed_le : (flush claimed run).removed.length ≤
    run.removed.length + run.batch.length := by
  simp only [flush, List.length_append]
  exact Nat.add_le_add_left (List.length_filter_le _ _) _

/-- With fewer files than the ceiling the loop comes to all of them. -/
theorem sweepEntries_seen
    (hroom : run.removed.length + run.batch.length + entries.length < ceiling) :
    ∀ key, run.Seen key ∨ key ∈ entries.map DirectoryEntry.key →
      (sweepEntries cutoff claimed entries run).Seen key := by
  induction entries generalizing run with
  | nil => exact fun key h => h.resolve_right (by simp)
  | cons e rest ih =>
    rw [List.length_cons] at hroom
    intro key h
    rw [List.map_cons, List.mem_cons] at h
    rw [sweepEntries]
    cases hyoung : young cutoff e.modifiedAt with
    | true =>
      refine ih (by simpa using (by omega :
        run.removed.length + run.batch.length + rest.length < ceiling)) key ?_
      simp only [SweepRun.Seen, List.mem_append, List.mem_singleton] at h ⊢
      tauto
    | false =>
      have hseen : ({ run with batch := run.batch ++ [e.key] } : SweepRun).Seen key ∨
          key ∈ rest.map DirectoryEntry.key := by
        simp only [SweepRun.Seen, List.mem_append, List.mem_singleton] at h ⊢
        tauto
      simp only [Bool.false_eq_true, if_false]
      split
      · have hle := @flush_removed_le claimed { run with batch := run.batch ++ [e.key] }
        dsimp only at hle
        rw [List.length_append, List.length_singleton] at hle
        rw [if_neg (by omega)]
        refine ih ?_ key (hseen.imp (fun h => .inr (seen_flush h)) id)
        rw [show (flush claimed { run with batch := run.batch ++ [e.key] }).batch.length = 0 from rfl]
        omega
      · rw [if_neg (by dsimp only; omega)]
        refine ih ?_ key hseen
        dsimp only
        rw [List.length_append, List.length_singleton]
        omega

/-- A sweep of fewer files than its ceiling leaves out none. -/
theorem removed_or_kept {e : DirectoryEntry} (hroom : directory.entries.length < ceiling)
    (he : e ∈ directory.entries) :
    e.key ∈ (sweepOrphanFiles cutoff claimed directory).removed ∨
      e.key ∈ (sweepOrphanFiles cutoff claimed directory).kept := by
  refine seen_flush (sweepEntries_seen ?_ e.key (.inr (List.mem_map_of_mem he)))
  simpa [SweepRun.empty] using hroom

/-- A directory names a file with one age. -/
theorem Directory.entry_unique {e e' : DirectoryEntry} (he : e ∈ directory.entries)
    (he' : e' ∈ directory.entries) (h : e.key = e'.key) : e = e' :=
  List.inj_on_of_nodup_map directory.names he he' h

/-- A file that is removed is not claimed, and the cutoff is no bound on its age or later. -/
theorem removed_old {e : DirectoryEntry} (he : e ∈ directory.entries)
    (h : e.key ∈ (sweepOrphanFiles cutoff claimed directory).removed) :
    claimed e.key = false ∧ young cutoff e.modifiedAt = false := by
  obtain ⟨hclaimed, e', he', hkey, hold⟩ := sweep_from.removed e.key h
  rw [directory.entry_unique he he' hkey.symm]
  exact ⟨hkey ▸ hclaimed, hold⟩

theorem kept_young {e : DirectoryEntry} (he : e ∈ directory.entries)
    (h : e.key ∈ (sweepOrphanFiles cutoff claimed directory).kept) :
    claimed e.key = true ∨ young cutoff e.modifiedAt = true := by
  refine (sweep_from.kept e.key h).imp id ?_
  rintro ⟨e', he', hkey, hyoung⟩
  rwa [directory.entry_unique he he' hkey.symm]

end Runs

/-! ## Every setting -/

/-- Modified less than the floor of the grace period before now. -/
def Fresh (now : ValidDate) (e : DirectoryEntry) : Prop := now - e.modifiedAt < minOrphanGraceMs

/-- Under these settings no sweep removes a fresh file, nor one that is kept under smaller settings. -/
structure SafeSettings (env : BackupEnv) (now : ValidDate) : Prop where
  fresh : ∀ claimed directory, ∀ e ∈ directory.entries, Fresh now e →
    e.key ∉ (sweepOrphanFiles (cutoff env now) claimed directory).removed
  enlarged : ∀ smaller : BackupEnv, smaller.interval ≤ env.interval → smaller.keep ≤ env.keep →
    ∀ claimed directory, ∀ e ∈ directory.entries,
      e.key ∈ (sweepOrphanFiles (cutoff smaller now) claimed directory).kept →
      e.key ∉ (sweepOrphanFiles (cutoff env now) claimed directory).removed

theorem safe_of_date {env : BackupEnv} {now : ValidDate} (h : (cutoff env now).isSome = true) :
    SafeSettings env now := by
  obtain ⟨c, hc⟩ := Option.isSome_iff_exists.mp h
  have hcut : c = now - orphanGraceMs env := by
    rw [cutoff_eq, date] at hc
    split at hc
    · exact (Option.some.inj hc).symm
    · cases hc
  have hold : ∀ t, young (cutoff env now) t = false → t < now - orphanGraceMs env := by
    intro t ht
    simpa [hc, young, ← hcut] using ht
  constructor
  · intro claimed directory e he hfresh hmem
    have hlt := hold _ (removed_old he hmem).2
    have hfloor : minOrphanGraceMs ≤ orphanGraceMs env := le_max_right _ _
    unfold Fresh Instant at *
    omega
  · intro smaller hinterval hkeep claimed directory e he hkept hmem
    obtain ⟨hclaimed, hyoung⟩ := removed_old he hmem
    have hlt := hold _ hyoung
    have hle := orphanGraceMs_mono hinterval hkeep
    rcases kept_young he hkept with hclaimed' | hyoung'
    · rw [hclaimed] at hclaimed'
      cases hclaimed'
    · rw [cutoff_eq, date] at hyoung'
      split at hyoung'
      · have hge : now - orphanGraceMs smaller ≤ e.modifiedAt := by simpa [young] using hyoung'
        unfold Instant at *
        omega
      · cases hyoung'

/-- One fresh file. -/
def oneFresh (now : ValidDate) : Directory := ⟨[⟨js "k", now⟩], by simp⟩

/-- Without a date to compare with the fresh file is removed. -/
theorem oneFresh_removed (now : ValidDate) :
    (sweepOrphanFiles none (fun _ => false) (oneFresh now)).removed = [js "k"] := rfl

/-- The settings are safe exactly as long as the grace period does not reach past the earliest date; and a
sweep of fewer files than its ceiling removes or keeps every file. -/
theorem settings_safe (env : BackupEnv) (now : ValidDate) :
    (SafeSettings env now ↔ orphanGraceMs env ≤ now + maxTime) ∧
      ∀ claimed directory, directory.entries.length < ceiling → ∀ e ∈ directory.entries,
        e.key ∈ (sweepOrphanFiles (cutoff env now) claimed directory).removed ∨
          e.key ∈ (sweepOrphanFiles (cutoff env now) claimed directory).kept := by
  refine ⟨?_, fun claimed directory hroom e he => removed_or_kept hroom he⟩
  rw [← cutoff_isSome]
  refine ⟨fun hsafe => ?_, safe_of_date⟩
  cases hcutoff : cutoff env now with
  | some c => rfl
  | none =>
    have hfresh : Fresh now ⟨js "k", now⟩ := by
      simp [Fresh, minOrphanGraceMs, msPerDay]
    have hnot := hsafe.fresh (fun _ => false) (oneFresh now) _ List.mem_cons_self hfresh
    rw [hcutoff, oneFresh_removed] at hnot
    exact absurd List.mem_cons_self hnot

/-- With two hundred million daily backups to keep, the grace period reaches past the earliest date, and
the file of this instant goes; the default keeps it. -/
theorem keep_disables_grace :
    let now : ValidDate := ⟨1700000000000, by decide⟩
    let removed := fun env => (sweepOrphanFiles (cutoff env now) (fun _ => false) (oneFresh now)).removed
    (BackupEnv.read none (some 200000000)).map removed = some [js "k"] ∧
      (BackupEnv.read none none).map removed = some [] := by
  decide +kernel

end CleanupWorker
end Kurul
