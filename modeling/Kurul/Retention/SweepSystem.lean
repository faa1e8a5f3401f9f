import Kurul.Attachment.CreateFile

/-!
# Kurul.Retention.SweepSystem

`CleanupWorker.sweepOrphanFiles`: stored files that no attachment row claims are removed once they are
older than a grace period, while uploads and deletions go on.

* `System.next`  — the steps of a sweep, of the uploads and of everything else, with one clock.
* `System.Tidy`  — how keys, files and calls hang together.
* `Aside`        — what a step that is none of the sweep's leaves to it.
-/

namespace Kurul
namespace CleanupWorker

open Lts AttachmentService

/-- `BACKUP_INTERVAL`, in seconds, and `BACKUP_KEEP`. -/
structure BackupEnv where
  interval : Int
  keep : Int

/-- Of an environment that says nothing. -/
def BackupEnv.default : BackupEnv := ⟨86400, 7⟩

def msPerDay : Int := 24 * 60 * 60 * 1000

def minOrphanGraceMs : Int := msPerDay

def orphanGraceMs (env : BackupEnv) : Int :=
  max (max env.interval 0 * max env.keep 1 * 1000) minOrphanGraceMs

def cleanupBatchSize : Nat := 1000

def maxBatchesPerTable : Nat := 1000

def ceiling : Nat := cleanupBatchSize * maxBatchesPerTable

/-- `new Date(t)`, unless it is an invalid date. -/
def date (t : Int) : Option Instant := if |t| ≤ 8640000000000000 then some t else none

/-- `modifiedAt >= cutoff`, which is never so of an invalid date. -/
def young (cutoff : Option Instant) (modifiedAt : Instant) : Bool := cutoff.any fun c => c ≤ modifiedAt

/-! ## The system -/

inductive SweepStage where
  /-- About to ask for the next entry of the directory. -/
  | listing
  /-- About to `flush`. -/
  | flushing
  /-- In the loop over a batch; of its keys, `claimed` were. -/
  | removing (claimed rest : List StorageKey)
  | returned (removed : Nat)
  /-- `opendir` has thrown, which is taken for an empty directory: 0 is returned. -/
  | unread
  | threw

structure Sweep where
  /-- `now`, as the sweep was handed it. -/
  asOf : Instant
  cutoff : Option Instant
  /-- The keys there were when the directory was opened, -/
  present : List StorageKey
  /-- and those it has named so far. -/
  listed : List StorageKey
  batch : List StorageKey
  removed : Nat
  /-- The loop is left. -/
  last : Bool
  stage : SweepStage

/-- A key the sweep has removed, with the file that was under it, if there was one still. -/
structure Removal where
  key : StorageKey
  file : Option StoredFile
  time : Instant

structure System where
  now : Instant
  files : Files
  /-- Every call of `createFile` so far. -/
  uploads : List Upload
  /-- Every key there has been. -/
  used : List StorageKey
  /-- The last sweep: there is one at a time. -/
  sweep : Option Sweep
  /-- What it has removed. -/
  removals : List Removal
  /-- Every key that was claimed at some time since it began. -/
  claimed : List StorageKey

inductive FileAct where
  | tick (d : Nat)
  | beginUpload (u : Upload)
  | upload (i : Nat) (fate : Fate)
  /-- An attachment row goes, by itself or with its task, board or workspace. -/
  | deleteRow (id : Id)
  | startSweep (asOf : Instant) (opens : Bool)
  /-- The directory names a file. -/
  | list (key : StorageKey)
  | endOfDirectory
  | query
  | remove
  /-- Whatever the sweep waits for throws. -/
  | fail

/-- The keys of the rows. -/
def Files.claims (w : Files) : List StorageKey := w.rows.filterMap AttachmentRow.storageKey

/-- It has returned or thrown. -/
def Sweep.ended (sw : Sweep) : Bool :=
  match sw.stage with
  | .returned _ | .unread | .threw => true
  | _ => false

def Sweep.start (env : BackupEnv) (asOf : Instant) (opens : Bool) (w : Files) : Sweep where
  asOf := asOf
  cutoff := date (asOf - orphanGraceMs env)
  present := w.disk.entries.rows.map Prod.fst
  listed := []
  batch := []
  removed := 0
  last := false
  stage := if opens then .listing else .unread

/-- After a `flush`: back to the directory, unless the loop is left or the ceiling reached. -/
def Sweep.flushed (sw : Sweep) : Sweep :=
  if sw.last || decide (ceiling ≤ sw.removed) then
    { sw with batch := [], stage := .returned sw.removed }
  else { sw with batch := [], stage := .listing }

/-- The directory names a file of this age. -/
def Sweep.list (key : StorageKey) (modifiedAt : Instant) (sw : Sweep) : Sweep :=
  let sw := { sw with listed := sw.listed ++ [key] }
  if young sw.cutoff modifiedAt then sw
  else
    let sw := { sw with batch := sw.batch ++ [key] }
    if cleanupBatchSize ≤ sw.batch.length then { sw with stage := .flushing }
    else if ceiling ≤ sw.removed then { sw with last := true, stage := .flushing }
    else sw

namespace System

/-- A step of the sweep. -/
def sweepNext (a : FileAct) (sw : Sweep) (s : System) : Option System :=
  match sw.stage, a with
  | .listing, .list key =>
    if key ∈ sw.listed then none
    else (s.files.disk.get key).map fun file => { s with sweep := some (sw.list key file.modifiedAt) }
  -- a file that was there all the time has been named
  | .listing, .endOfDirectory =>
    if sw.present.all fun key => (s.files.disk.get key).isNone || key ∈ sw.listed then
      some { s with sweep := some { sw with last := true, stage := .flushing } }
    else none
  | .flushing, .query =>
    if sw.batch = [] then some { s with sweep := some sw.flushed }
    else
      let claimed := sw.batch.filter fun key => decide (s.files.Claimed key)
      some { s with sweep := some { sw with stage := .removing claimed sw.batch } }
  | .removing _ [], .remove => some { s with sweep := some sw.flushed }
  | .removing claimed (key :: rest), .remove =>
    if key ∈ claimed then some { s with sweep := some { sw with stage := .removing claimed rest } }
    else some { s with
      files := s.files.remove key
      sweep := some { sw with removed := sw.removed + 1, stage := .removing claimed rest }
      removals := s.removals ++ [⟨key, s.files.disk.get key, s.now⟩] }
  | .listing, .fail | .flushing, .fail | .removing _ _, .fail =>
    some { s with sweep := some { sw with stage := .threw } }
  | _, _ => none

def next (env : BackupEnv) (a : FileAct) (s : System) : Option System :=
  match a with
  | .tick d => some { s with now := s.now + d }
  | .beginUpload u => some { s with uploads := s.uploads ++ [u], used := s.used ++ [u.storageKey] }
  | .upload i fate =>
    s.uploads[i]?.bind fun u => (u.step s.now fate s.files).map fun r =>
      { s with
        uploads := s.uploads.set i r.1
        files := r.2
        claimed := s.claimed ++ Files.claims r.2 }
  | .deleteRow id =>
    some { s with files := { s.files with rows := s.files.rows.filter fun row => row.id ≠ id } }
  | .startSweep asOf opens =>
    if s.sweep.all Sweep.ended then
      some { s with
        sweep := some (Sweep.start env asOf opens s.files)
        removals := []
        claimed := Files.claims s.files }
    else none
  | a => s.sweep.bind fun sw => s.sweepNext a sw

end System

/-- What is promised of the steps: fresh keys, a commit less than a day after the bytes, one clock, and a
cutoff that is a date. -/
def Promised (env : BackupEnv) (s : System) (a : FileAct) : Prop :=
  match a with
  | .beginUpload u => u.stage = .write ∧ u.writtenAt = none ∧ u.storageKey ∉ s.used
  | .upload i .goes => ∀ u, s.uploads[i]? = some u → u.stage = .transaction →
      ∀ t, u.writtenAt = some t → s.now < t + msPerDay
  | .startSweep asOf _ => asOf ≤ s.now ∧ (date (asOf - orphanGraceMs env)).isSome = true
  | _ => True

/-- A test of it. -/
def promised (env : BackupEnv) (s : System) : FileAct → Bool
  | .beginUpload u =>
    (match u.stage with | .write => true | _ => false) && u.writtenAt.isNone &&
      decide (u.storageKey ∉ s.used)
  | .upload i .goes => s.uploads[i]?.all fun u => match u.stage with
    | .transaction => u.writtenAt.all fun t => decide (s.now < t + msPerDay)
    | _ => true
  | .startSweep asOf _ => decide (asOf ≤ s.now) && (date (asOf - orphanGraceMs env)).isSome
  | _ => true

theorem promised_ok {env : BackupEnv} {s : System} {a : FileAct} (h : promised env s a = true) :
    Promised env s a := by
  cases a with
  | beginUpload u =>
    obtain ⟨taskId, actorId, file, mimeType, id, writtenAt, stage⟩ := u
    cases stage <;> simp [promised] at h
    exact ⟨rfl, h.1, h.2⟩
  | upload i fate =>
    cases fate with
    | throws written => trivial
    | goes =>
      intro u hi htx t ht
      simp only [promised, hi, Option.all_some, htx, ht] at h
      exact of_decide_eq_true h
  | startSweep asOf opens =>
    obtain ⟨hasOf, hdate⟩ := Bool.and_eq_true_iff.mp h
    exact ⟨of_decide_eq_true hasOf, hdate⟩
  | _ => trivial

/-- Any files and rows, before anybody uploads and a sweep begins. -/
structure System.Initial (s : System) : Prop where
  uploads : s.uploads = []
  sweep : s.sweep = none
  removals : s.removals = []
  disk : ∀ key file, s.files.disk.get key = some file → key ∈ s.used
  rows : ∀ key, s.files.Claimed key → key ∈ s.used

/-! ## The uploads -/

section Uploads

variable {env : BackupEnv} {s s' : System} {a : FileAct} {key : StorageKey} {c : Instant}

/-- How keys, files and calls hang together. -/
structure System.Tidy (s : System) : Prop where
  disk : ∀ key file, s.files.disk.get key = some file → key ∈ s.used
  rows : ∀ key, s.files.Claimed key → key ∈ s.used
  uploads : ∀ u ∈ s.uploads, u.storageKey ∈ s.used
  /-- No two calls have one key. -/
  apart : ∀ (i j : Nat) (u v : Upload), s.uploads[i]? = some u →
    s.uploads[j]? = some v → u.storageKey = v.storageKey → i = j
  /-- There is nothing under the key of a call that is to write yet. -/
  unwritten : ∀ u ∈ s.uploads, u.stage = .write → s.files.disk.get u.storageKey = none
  /-- A file is as old as the write of its call. -/
  written : ∀ u ∈ s.uploads, ∀ file, s.files.disk.get u.storageKey = some file →
    u.writtenAt = some file.modifiedAt
  dated : ∀ u ∈ s.uploads, u.stage = .transaction → u.writtenAt.isSome = true

theorem System.Initial.tidy (h : s.Initial) : s.Tidy where
  disk := h.disk
  rows := h.rows
  uploads u hu := by rw [h.uploads] at hu; cases hu
  apart i j u v hi := by rw [h.uploads] at hi; cases hi
  unwritten u hu := by rw [h.uploads] at hu; cases hu
  written u hu := by rw [h.uploads] at hu; cases hu
  dated u hu := by rw [h.uploads] at hu; cases hu

/-- Fewer files and rows are as tidy. -/
theorem System.Tidy.fewer (h : s.Tidy)
    (hdisk : ∀ key file, s'.files.disk.get key = some file → s.files.disk.get key = some file)
    (hrows : ∀ key, s'.files.Claimed key → s.files.Claimed key) (hused : s'.used = s.used)
    (huploads : s'.uploads = s.uploads) : s'.Tidy where
  disk key file hget := by rw [hused]; exact h.disk key file (hdisk key file hget)
  rows key hclaimed := by rw [hused]; exact h.rows key (hrows key hclaimed)
  uploads u hu := by rw [hused]; rw [huploads] at hu; exact h.uploads u hu
  apart i j u v hi hj := by rw [huploads] at hi hj; exact h.apart i j u v hi hj
  unwritten u hu hstage := by
    rw [huploads] at hu
    refine Option.eq_none_iff_forall_ne_some.mpr fun file hget => ?_
    have hold := hdisk _ _ hget
    rw [h.unwritten u hu hstage] at hold
    cases hold
  written u hu file hget := by
    rw [huploads] at hu
    exact h.written u hu file (hdisk _ _ hget)
  dated u hu := by rw [huploads] at hu; exact h.dated u hu

/-- Every file under the key is older than `c`, and so is the write of every call that has it. -/
def Aged (s : System) (c : Instant) (key : StorageKey) : Prop :=
  key ∈ s.used ∧ (∀ file, s.files.disk.get key = some file → file.modifiedAt < c) ∧
    ∀ u ∈ s.uploads, u.storageKey = key → u.stage ≠ .write ∧ ∀ t, u.writtenAt = some t → t < c

/-- A call that has the key has written. -/
def Taken (s : System) (key : StorageKey) : Prop :=
  key ∈ s.used ∧ ∀ u ∈ s.uploads, u.storageKey = key → u.stage ≠ .write

/-- What a step that is none of the sweep's leaves to it: no old file comes, and no row for an old
key. -/
structure Aside (c : Instant) (s s' : System) : Prop where
  removals : s'.removals = s.removals
  now : s.now ≤ s'.now
  old : ∀ key file, s'.files.disk.get key = some file → file.modifiedAt < c →
    s.files.disk.get key = some file
  aged : ∀ key, Aged s c key → Aged s' c key
  gone : ∀ key, Taken s key → s.files.disk.get key = none → s'.files.disk.get key = none
  unclaimed : ∀ key, Aged s c key → ¬ s.files.Claimed key → ¬ s'.files.Claimed key
  taken : ∀ key, Taken s key → Taken s' key
  claimed : ∀ key ∈ s.claimed, key ∈ s'.claimed
  claims : (∀ key, s.files.Claimed key → key ∈ s.claimed) →
    ∀ key, s'.files.Claimed key → key ∈ s'.claimed

theorem aside_tick (d : Nat) : Aside c s { s with now := s.now + d } where
  removals := rfl
  now := by simp
  old _ _ h _ := h
  aged _ h := h
  gone _ _ h := h
  unclaimed _ _ h := h
  taken _ h := h
  claimed _ h := h
  claims h := h

theorem aside_deleteRow (id : Id) : Aside c s
    { s with files := { s.files with rows := s.files.rows.filter fun row => row.id ≠ id } } := by
  have hless : ∀ key, ({ s.files with rows := s.files.rows.filter fun row => row.id ≠ id } :
      Files).Claimed key → s.files.Claimed key := by
    intro key h
    obtain ⟨row, hrow, hkey⟩ := h
    exact ⟨row, (List.mem_filter.mp hrow).1, hkey⟩
  exact {
    removals := rfl
    now := le_rfl
    old := fun _ _ h _ => h
    aged := fun _ h => h
    gone := fun _ _ h => h
    unclaimed := fun key _ h hclaimed => h (hless key hclaimed)
    taken := fun _ h => h
    claimed := fun _ h => h
    claims := fun h key hclaimed => h key (hless key hclaimed) }

theorem aside_begin {u : Upload} (hfresh : u.storageKey ∉ s.used) : Aside c s
    { s with uploads := s.uploads ++ [u], used := s.used ++ [u.storageKey] } where
  removals := rfl
  now := le_rfl
  old _ _ h _ := h
  aged key h := by
    refine ⟨List.mem_append_left _ h.1, h.2.1, fun v hv hkey => ?_⟩
    rcases List.mem_append.mp hv with hv | hv
    · exact h.2.2 v hv hkey
    · rw [List.mem_singleton.mp hv] at hkey
      exact absurd (hkey ▸ h.1) hfresh
  gone _ _ h := h
  unclaimed _ _ h := h
  taken key h := by
    refine ⟨List.mem_append_left _ h.1, fun v hv hkey => ?_⟩
    rcases List.mem_append.mp hv with hv | hv
    · exact h.2 v hv hkey
    · rw [List.mem_singleton.mp hv] at hkey
      exact absurd (hkey ▸ h.1) hfresh
  claimed _ h := h
  claims h := h

theorem tidy_begin {u : Upload} (h : s.Tidy) (hstage : u.stage = .write)
    (hfresh : u.storageKey ∉ s.used) :
    ({ s with uploads := s.uploads ++ [u], used := s.used ++ [u.storageKey] } : System).Tidy := by
  have hnone : s.files.disk.get u.storageKey = none :=
    Option.eq_none_iff_forall_ne_some.mpr fun file hget => hfresh (h.disk _ file hget)
  have hcases : ∀ {i : Nat} {v : Upload}, (s.uploads ++ [u])[i]? = some v →
      s.uploads[i]? = some v ∨ i = s.uploads.length ∧ v = u := by
    intro i v hi
    rw [List.getElem?_append] at hi
    split at hi
    · exact .inl hi
    · rename_i hle
      obtain ⟨hzero, rfl⟩ : i - s.uploads.length = 0 ∧ u = v := by
        simpa [List.getElem?_singleton] using hi
      exact .inr ⟨by omega, rfl⟩
  exact {
    disk := fun key file hget => List.mem_append_left _ (h.disk key file hget)
    rows := fun key hclaimed => List.mem_append_left _ (h.rows key hclaimed)
    uploads := fun v hv => by
      rcases List.mem_append.mp hv with hv | hv
      · exact List.mem_append_left _ (h.uploads v hv)
      · rw [List.mem_singleton.mp hv]
        exact List.mem_append_right _ List.mem_cons_self
    apart := fun i j v v' hi hj hkey => by
      rcases hcases hi with hold | ⟨hlast, hv⟩ <;> rcases hcases hj with hold' | ⟨hlast', hv'⟩
      · exact h.apart i j v v' hold hold' hkey
      · rw [hv'] at hkey
        exact absurd (hkey ▸ h.uploads v (List.mem_of_getElem? hold)) hfresh
      · rw [hv] at hkey
        exact absurd (hkey ▸ h.uploads v' (List.mem_of_getElem? hold')) hfresh
      · rw [hlast, hlast']
    unwritten := fun v hv hstage => by
      rcases List.mem_append.mp hv with hv | hv
      · exact h.unwritten v hv hstage
      · rw [List.mem_singleton.mp hv]
        exact hnone
    written := fun v hv file hget => by
      rcases List.mem_append.mp hv with hv | hv
      · exact h.written v hv file hget
      · rw [List.mem_singleton.mp hv] at hget
        rw [hnone] at hget
        cases hget
    dated := fun v hv htx => by
      rcases List.mem_append.mp hv with hv | hv
      · exact h.dated v hv htx
      · rw [List.mem_singleton.mp hv, hstage] at htx
        cases htx }

section Step

variable {i : Nat} {u u' : Upload} {w' : Files} {fate : Fate}

/-- The state after a step of one call. -/
def stepped (s : System) (i : Nat) (u' : Upload) (w' : Files) : System :=
  { s with uploads := s.uploads.set i u', files := w', claimed := s.claimed ++ Files.claims w' }

theorem mem_stepped {v : Upload} (hv : v ∈ (stepped s i u' w').uploads) :
    v = u' ∨ ∃ j, j ≠ i ∧ s.uploads[j]? = some v := by
  obtain ⟨j, hj⟩ := List.getElem?_of_mem hv
  have hj : (s.uploads.set i u')[j]? = some v := hj
  rw [List.getElem?_set] at hj
  split at hj
  · split at hj
    · exact .inl (Option.some.inj hj).symm
    · cases hj
  · rename_i hne
    exact .inr ⟨j, Ne.symm hne, hj⟩

theorem mem_claims {w : Files} : key ∈ Files.claims w ↔ w.Claimed key := by
  rw [Files.claims, List.mem_filterMap]
  rfl

/-- Under any other key there is what there was. -/
theorem get_of_did (hdid : Upload.Did s.now fate u u' s.files w') (hkey : key ≠ u.storageKey) :
    w'.disk.get key = s.files.disk.get key := by
  cases hdid with
  | wrote bytes hstage hstage' hat hw => simp [hw, hkey]
  | wroteNothing hstage hstage' hat hw => rw [hw]
  | committed hstage hfate hstage' htx hat hw => rw [hw]
  | other hstage hstage' htx hat hw =>
    rcases hw with hw | hw
    · rw [hw]
    · simp [hw, hkey]

/-- Nothing comes under the key of a call that has written. -/
theorem get_of_written (hdid : Upload.Did s.now fate u u' s.files w') (hstage : u.stage ≠ .write)
    {file : StoredFile} (hget : w'.disk.get key = some file) : s.files.disk.get key = some file := by
  cases hdid with
  | wrote _ hwrite => exact absurd hwrite hstage
  | wroteNothing hwrite => exact absurd hwrite hstage
  | committed _ _ _ _ _ hw => rwa [hw] at hget
  | other _ _ _ _ hw =>
    rcases hw with hw | hw
    · rwa [hw] at hget
    · rw [hw, Files.get_remove] at hget
      split at hget
      · cases hget
      · exact hget

/-- Only a commit makes a claim. -/
theorem claimed_of_did (hdid : Upload.Did s.now fate u u' s.files w') (h : w'.Claimed key) :
    s.files.Claimed key ∨ key = u.storageKey ∧ u.stage = .transaction ∧ fate = .goes := by
  cases hdid with
  | wrote _ _ _ _ hw => exact .inl (by rwa [hw] at h)
  | wroteNothing _ _ _ hw => exact .inl (by rwa [hw] at h)
  | committed hstage hfate _ _ _ hw =>
    rw [hw] at h
    obtain ⟨row, hrow, hkey⟩ := h
    rcases List.mem_append.mp hrow with hrow | hrow
    · exact .inl ⟨row, hrow, hkey⟩
    · rw [List.mem_singleton.mp hrow] at hkey
      exact .inr ⟨(Option.some.inj hkey).symm, hstage, hfate⟩
  | other _ _ _ _ hw =>
    rcases hw with hw | hw
    · exact .inl (by rwa [hw] at h)
    · exact .inl (by rwa [hw] at h)

theorem stage_of_did (hdid : Upload.Did s.now fate u u' s.files w') : u'.stage ≠ .write := by
  cases hdid with
  | wroteNothing _ hthrew => simp [hthrew]
  | wrote _ _ hne => exact hne
  | committed _ _ hne => exact hne
  | other _ hne => exact hne

theorem writtenAt_of_did (hdid : Upload.Did s.now fate u u' s.files w') (hstage : u.stage ≠ .write) :
    u'.writtenAt = u.writtenAt := by
  cases hdid with
  | wrote _ hwrite => exact absurd hwrite hstage
  | wroteNothing _ _ hat => exact hat
  | committed _ _ _ _ hat => exact hat
  | other _ _ _ hat => exact hat

theorem tidy_upload (h : s.Tidy) (hi : s.uploads[i]? = some u) (hid : u'.id = u.id)
    (hdid : Upload.Did s.now fate u u' s.files w') : (stepped s i u' w').Tidy := by
  have hkey : u'.storageKey = u.storageKey := by rw [Upload.storageKey, hid, Upload.storageKey]
  have hmem : u ∈ s.uploads := List.mem_of_getElem? hi
  have hother : ∀ {v : Upload} {j : Nat}, j ≠ i → s.uploads[j]? = some v →
      w'.disk.get v.storageKey = s.files.disk.get v.storageKey :=
    fun hj hv => get_of_did hdid fun heq => hj (h.apart _ _ _ _ hv hi heq)
  refine ⟨?_, ?_, ?_, ?_, ?_, ?_, ?_⟩
  · intro key file hget
    by_cases heq : key = u.storageKey
    · rw [heq]
      exact h.uploads u hmem
    · exact h.disk key file ((get_of_did hdid heq).symm.trans hget)
  · intro key hclaimed
    rcases claimed_of_did hdid hclaimed with hold | ⟨rfl, _⟩
    · exact h.rows key hold
    · exact h.uploads u hmem
  · intro v hv
    rcases mem_stepped hv with rfl | ⟨j, _, hj⟩
    · rw [hkey]
      exact h.uploads u hmem
    · exact h.uploads v (List.mem_of_getElem? hj)
  · intro j k v v' hj hk heq
    -- a call keeps its key
    have hbefore : ∀ {j : Nat} {v : Upload}, (stepped s i u' w').uploads[j]? = some v →
        ∃ v₀, s.uploads[j]? = some v₀ ∧ v₀.storageKey = v.storageKey := by
      intro j v hj
      have hj : (s.uploads.set i u')[j]? = some v := hj
      rw [List.getElem?_set] at hj
      split at hj
      · rename_i hji
        split at hj
        · cases hj
          exact ⟨u, hji ▸ hi, hkey.symm⟩
        · cases hj
      · exact ⟨v, hj, rfl⟩
    obtain ⟨v₀, hj₀, hk₀⟩ := hbefore hj
    obtain ⟨v₁, hj₁, hk₁⟩ := hbefore hk
    exact h.apart j k v₀ v₁ hj₀ hj₁ (hk₀.trans (heq.trans hk₁.symm))
  · intro v hv hstage
    rcases mem_stepped hv with rfl | ⟨j, hne, hj⟩
    · exact absurd hstage (stage_of_did hdid)
    · rw [stepped, hother hne hj]
      exact h.unwritten v (List.mem_of_getElem? hj) hstage
  · intro v hv file hget
    rcases mem_stepped hv with rfl | ⟨j, hne, hj⟩
    · rw [hkey] at hget
      by_cases hstage : u.stage = .write
      · have hnone := h.unwritten u hmem hstage
        cases hdid with
        | wrote bytes _ _ hat hw =>
          rw [stepped, hw, Files.get_write, if_pos rfl] at hget
          cases hget
          exact hat
        | wroteNothing _ _ _ hw =>
          rw [stepped, hw, hnone] at hget
          cases hget
        | committed htx => rw [hstage] at htx; cases htx
        | other hne => exact absurd hstage hne
      · rw [writtenAt_of_did hdid hstage]
        exact h.written u hmem file (get_of_written hdid hstage hget)
    · rw [stepped, hother hne hj] at hget
      exact h.written v (List.mem_of_getElem? hj) file hget
  · intro v hv hstage
    rcases mem_stepped hv with rfl | ⟨j, _, hj⟩
    · cases hdid with
      | wrote _ _ _ hat => rw [hat]; rfl
      | wroteNothing _ hthrew => rw [hthrew] at hstage; cases hstage
      | committed _ _ _ htx => exact absurd hstage htx
      | other _ _ htx => exact absurd hstage htx
    · exact h.dated v (List.mem_of_getElem? hj) hstage

theorem aside_upload (h : s.Tidy) (hi : s.uploads[i]? = some u) (hid : u'.id = u.id)
    (hdid : Upload.Did s.now fate u u' s.files w') (hc : c ≤ s.now)
    (hcommit : u.stage = .transaction → fate = .goes → ∀ t, u.writtenAt = some t → c ≤ t) :
    Aside c s (stepped s i u' w') := by
  have hkey : u'.storageKey = u.storageKey := by rw [Upload.storageKey, hid, Upload.storageKey]
  have hmem : u ∈ s.uploads := List.mem_of_getElem? hi
  -- a key whose calls have all written: nothing comes under it
  have hless : ∀ {key file}, Taken s key → w'.disk.get key = some file →
      s.files.disk.get key = some file := by
    intro key file htaken hget
    by_cases heq : key = u.storageKey
    · exact get_of_written hdid (htaken.2 u hmem heq.symm) hget
    · exact (get_of_did hdid heq).symm.trans hget
  have htaken : ∀ {key}, Aged s c key → Taken s key :=
    fun haged => ⟨haged.1, fun v hv hvkey => (haged.2.2 v hv hvkey).1⟩
  refine ⟨rfl, le_rfl, ?_, ?_, ?_, ?_, ?_, ?_, ?_⟩
  · intro key file hget hold
    by_cases hstage : u.stage = .write
    · cases hdid with
      | wrote bytes _ _ _ hw =>
        -- what is written now is not old
        rw [stepped, hw, Files.get_write] at hget
        split at hget
        · cases hget
          exact absurd hold (not_lt.mpr hc)
        · exact hget
      | wroteNothing _ _ _ hw => rwa [stepped, hw] at hget
      | committed htx => rw [hstage] at htx; cases htx
      | other hne => exact absurd hstage hne
    · exact get_of_written hdid hstage hget
  · intro key haged
    refine ⟨haged.1, fun file hget => haged.2.1 file (hless (htaken haged) hget), fun v hv hvkey => ?_⟩
    rcases mem_stepped hv with rfl | ⟨j, _, hj⟩
    · obtain ⟨hstage, hat⟩ := haged.2.2 u hmem (hkey.symm.trans hvkey)
      refine ⟨stage_of_did hdid, ?_⟩
      rwa [writtenAt_of_did hdid hstage]
    · exact haged.2.2 v (List.mem_of_getElem? hj) hvkey
  · intro key htaken hnone
    refine Option.eq_none_iff_forall_ne_some.mpr fun file hget => ?_
    rw [hless htaken hget] at hnone
    cases hnone
  · intro key haged hnot hclaimed
    rcases claimed_of_did hdid hclaimed with hold | ⟨rfl, hstage, hfate⟩
    · exact hnot hold
    · -- it is too late for a commit under this key
      obtain ⟨t, ht⟩ := Option.isSome_iff_exists.mp (h.dated u hmem hstage)
      exact absurd ((haged.2.2 u hmem rfl).2 t ht) (not_lt.mpr (hcommit hstage hfate t ht))
  · intro key htaken
    refine ⟨htaken.1, fun v hv hvkey => ?_⟩
    rcases mem_stepped hv with rfl | ⟨j, _, hj⟩
    · exact stage_of_did hdid
    · exact htaken.2 v (List.mem_of_getElem? hj) hvkey
  · exact fun key hk => List.mem_append_left _ hk
  · exact fun _ key hclaimed => List.mem_append_right _ (mem_claims.mpr hclaimed)

end Step

end Uploads

end CleanupWorker
end Kurul
