import Kurul.Db.Rows
import Kurul.JsMap
import Kurul.Lts

/-!
# Kurul.Attachment.CreateFile

`AttachmentService.createFile` from its first byte on: the storage is written, then the row in a
transaction, then the board is told and the row is answered; an exception after the bytes are there has
them removed, and is thrown on. Each step may throw, and the process may stop between any two.

* `Upload.step`        — the next step of a call.
* `createFile_intact`  — the row never outlives its bytes, unless the announcement or the mapping throws;
  then it does.
-/

namespace Kurul
namespace AttachmentService

open Lts

abbrev StorageKey : Type := JsString

/-- Two levels of fan-out from the leading hex digits of the id. -/
def storageKeyFor (attachmentId : Id) : StorageKey :=
  let hex := attachmentId.filter fun c => [c] ≠ js "-"
  hex.take 2 ++ js "/" ++ (hex.drop 2).take 2 ++ js "/" ++ attachmentId

/-- What multer hands over, as far as it is read. -/
structure UploadedFile where
  originalname : JsString
  buffer : List UInt8

/-- `UNSAFE_DISPLAY_CHARACTERS`. -/
def unsafeDisplay (c : CodeUnit) : Bool :=
  let n := c.val
  n == 0x22 || n == 0x5c || n ≤ 0x1f || (0x7f ≤ n && n ≤ 0x9f) || n == 0x61c ||
    (0x200e ≤ n && n ≤ 0x200f) || (0x202a ≤ n && n ≤ 0x202e) || (0x2066 ≤ n && n ≤ 0x2069)

def safeDisplayName (value : JsString) : JsString :=
  (trim (value.filter fun c => !unsafeDisplay c)).take 255

/-- What follows the last slash or backslash, cleaned. -/
def displayFilename (original : JsString) : JsString :=
  let base := (original.reverse.takeWhile fun c => [c] ≠ js "/" && [c] ≠ js "\\").reverse
  let cleaned := safeDisplayName base
  if cleaned = [] then js "attachment" else cleaned

structure AttachmentDto where
  id : Id
  taskId : Id
  kind : AttachmentKind
  filename : JsString
  mimeType : Option JsString
  size : Option Nat
  url : Option JsString
  uploadedById : Id
  createdAt : Instant
  deriving DecidableEq

def toAttachmentDto (row : AttachmentRow) : AttachmentDto where
  id := row.id
  taskId := row.taskId
  kind := row.kind
  filename := row.filename
  mimeType := row.mimeType
  size := row.size
  url := row.url
  uploadedById := row.uploadedById
  createdAt := row.createdAt

/-! ## The storage and the rows -/

structure StoredFile where
  bytes : List UInt8
  modifiedAt : Instant

/-- The files under the storage root, and the attachment rows. -/
structure Files where
  disk : JsMap StorageKey StoredFile
  rows : List AttachmentRow

namespace Files

/-- `storage.write`. -/
def write (w : Files) (key : StorageKey) (file : StoredFile) : Files :=
  { w with disk := w.disk.set key file }

/-- `storage.remove`: a file that is not there is removed too. -/
def remove (w : Files) (key : StorageKey) : Files := { w with disk := w.disk.erase key }

/-- A row claims the key. -/
def Claimed (w : Files) (key : StorageKey) : Prop := ∃ row ∈ w.rows, row.storageKey = some key

instance (w : Files) (key : StorageKey) : Decidable (w.Claimed key) :=
  inferInstanceAs (Decidable (∃ row ∈ w.rows, _))

variable {w : Files} {key key' : StorageKey} {file : StoredFile}

@[simp] theorem rows_write : (w.write key file).rows = w.rows := rfl
@[simp] theorem rows_remove : (w.remove key).rows = w.rows := rfl

@[simp] theorem get_write : (w.write key file).disk.get key' = if key' = key then some file else
    w.disk.get key' := JsMap.get_set

@[simp] theorem get_remove :
    (w.remove key).disk.get key' = if key' = key then none else w.disk.get key' := JsMap.get_erase

end Files

/-! ## One call -/

/-- How a step ends. A write that throws may have written some of the bytes. -/
inductive Fate where
  | goes
  | throws (written : Option Nat)

/-- What a call is about to do, or how it ended. -/
inductive Stage where
  | write
  | transaction
  | announce (row : AttachmentRow)
  | map (row : AttachmentRow)
  /-- In the `catch`: the best-effort removal, -/
  | remove
  /-- and `throw error`. -/
  | rethrow
  | returned (dto : AttachmentDto)
  | threw

/-- A call whose task was found and whose bytes were accepted as of `mimeType`. -/
structure Upload where
  taskId : Id
  actorId : Id
  file : UploadedFile
  mimeType : JsString
  id : Id
  /-- When its bytes were written. -/
  writtenAt : Option Instant
  stage : Stage

namespace Upload

/-- About to write. -/
def start (taskId actorId : Id) (file : UploadedFile) (mimeType : JsString) (id : Id) : Upload :=
  ⟨taskId, actorId, file, mimeType, id, none, .write⟩

def storageKey (u : Upload) : StorageKey := storageKeyFor u.id

/-- `data` of the row. -/
def row (u : Upload) (now : Instant) : AttachmentRow where
  id := u.id
  taskId := u.taskId
  uploadedById := u.actorId
  kind := .file
  filename := displayFilename u.file.originalname
  storageKey := some u.storageKey
  mimeType := some u.mimeType
  size := some u.file.buffer.length
  url := none
  createdAt := now

/-- The next step of a call, at time `now`. A transaction that throws leaves no row. -/
def step (now : Instant) (fate : Fate) (u : Upload) (w : Files) : Option (Upload × Files) :=
  match u.stage, fate with
  | .write, .goes => some ({ u with stage := .transaction, writtenAt := some now },
      w.write u.storageKey ⟨u.file.buffer, now⟩)
  -- outside the `try`
  | .write, .throws (some n) => some ({ u with stage := .threw, writtenAt := some now },
      w.write u.storageKey ⟨u.file.buffer.take n, now⟩)
  | .write, .throws none => some ({ u with stage := .threw }, w)
  | .transaction, .goes =>
    some ({ u with stage := .announce (u.row now) }, { w with rows := w.rows ++ [u.row now] })
  | .announce row, .goes => some ({ u with stage := .map row }, w)
  | .map row, .goes => some ({ u with stage := .returned (toAttachmentDto row) }, w)
  | .transaction, .throws _ | .announce _, .throws _ | .map _, .throws _ =>
    some ({ u with stage := .remove }, w)
  | .remove, .goes => some ({ u with stage := .rethrow }, w.remove u.storageKey)
  -- `.catch(() => undefined)`
  | .remove, .throws _ => some ({ u with stage := .rethrow }, w)
  | .rethrow, _ => some ({ u with stage := .threw }, w)
  | .returned _, _ | .threw, _ => none

variable {u u' : Upload} {w w' : Files} {now : Instant} {fate : Fate}

/-- What a step does to the files and the rows. -/
inductive Did (now : Instant) (fate : Fate) (u u' : Upload) (w w' : Files) : Prop where
  | wrote (bytes : List UInt8) (hstage : u.stage = .write) (hstage' : u'.stage ≠ .write)
      (hat : u'.writtenAt = some now) (hw : w' = w.write u.storageKey ⟨bytes, now⟩)
  | wroteNothing (hstage : u.stage = .write) (hstage' : u'.stage = .threw)
      (hat : u'.writtenAt = u.writtenAt) (hw : w' = w)
  | committed (hstage : u.stage = .transaction) (hfate : fate = .goes) (hstage' : u'.stage ≠ .write)
      (htx : u'.stage ≠ .transaction) (hat : u'.writtenAt = u.writtenAt)
      (hw : w' = { w with rows := w.rows ++ [u.row now] })
  | other (hstage : u.stage ≠ .write) (hstage' : u'.stage ≠ .write) (htx : u'.stage ≠ .transaction)
      (hat : u'.writtenAt = u.writtenAt) (hw : w' = w ∨ w' = w.remove u.storageKey)

theorem step_did (h : u.step now fate w = some (u', w')) : u'.id = u.id ∧ Did now fate u u' w w' := by
  obtain ⟨taskId, actorId, file, mimeType, id, writtenAt, stage⟩ := u
  cases stage with
  | write =>
    cases fate with
    | goes =>
      cases h
      exact ⟨rfl, .wrote _ rfl (by simp) rfl rfl⟩
    | throws written =>
      cases written with
      | none =>
        cases h
        exact ⟨rfl, .wroteNothing rfl rfl rfl rfl⟩
      | some n =>
        cases h
        exact ⟨rfl, .wrote _ rfl (by simp) rfl rfl⟩
  | transaction =>
    cases fate with
    | goes =>
      cases h
      exact ⟨rfl, .committed rfl rfl (by simp) (by simp) rfl rfl⟩
    | throws _ =>
      cases h
      exact ⟨rfl, .other (by simp) (by simp) (by simp) rfl (.inl rfl)⟩
  | announce row | map row | rethrow =>
    cases fate <;> cases h <;> exact ⟨rfl, .other (by simp) (by simp) (by simp) rfl (.inl rfl)⟩
  | remove =>
    cases fate with
    | goes =>
      cases h
      exact ⟨rfl, .other (by simp) (by simp) (by simp) rfl (.inr rfl)⟩
    | throws _ =>
      cases h
      exact ⟨rfl, .other (by simp) (by simp) (by simp) rfl (.inl rfl)⟩
  | returned dto | threw => cases fate <;> cases h

end Upload

/-! ## Runs of one call -/

section Runs

variable {s s' s₀ : Upload × Files} {a : Instant × Fate}

def next (a : Instant × Fate) (s : Upload × Files) : Option (Upload × Files) :=
  s.1.step a.1 a.2 s.2

/-- About to write under an id no row has. -/
def Begins (s : Upload × Files) : Prop := s.1.stage = .write ∧ ∀ row ∈ s.2.rows, row.id ≠ s.1.id

/-- The call has returned or thrown. -/
def Ended (s : Upload × Files) : Prop := s.1.stage = .threw ∨ ∃ dto, s.1.stage = .returned dto

/-- The row has its bytes, and there is none if the call has thrown. -/
def Intact (s : Upload × Files) : Prop :=
  (∀ row ∈ s.2.rows, row.id = s.1.id → ∃ key file, row.storageKey = some key ∧
    s.2.disk.get key = some file ∧ row.size = some file.bytes.length) ∧
  (s.1.stage = .threw → ∀ row ∈ s.2.rows, row.id ≠ s.1.id)

/-- Neither the announcement nor the mapping throws. -/
def Untroubled (s : Upload × Files) (a : Instant × Fate) : Prop :=
  match s.1.stage, a.2 with
  | .announce _, .throws _ | .map _, .throws _ => False
  | _, _ => True

/-- Any step. -/
def Any (_ : Upload × Files) (_ : Instant × Fate) : Prop := True

def NoRow (s : Upload × Files) : Prop := ∀ row ∈ s.2.rows, row.id ≠ s.1.id

/-- The bytes are there. -/
def Written (s : Upload × Files) : Prop :=
  ∃ file, s.2.disk.get s.1.storageKey = some file ∧ file.bytes = s.1.file.buffer

/-- There is a row, and it is as the call writes it. -/
def Committed (s : Upload × Files) : Prop :=
  (∃ row ∈ s.2.rows, row.id = s.1.id) ∧ ∀ row ∈ s.2.rows, row.id = s.1.id →
    row.storageKey = some s.1.storageKey ∧ row.size = some s.1.file.buffer.length

/-- How the call stands, stage by stage. -/
def InStage (s : Upload × Files) : Prop :=
  match s.1.stage with
  | .write | .remove | .rethrow | .threw => NoRow s
  | .transaction => NoRow s ∧ Written s
  | .announce _ | .map _ | .returned _ => Committed s ∧ Written s

theorem InStage.intact (h : InStage s) : Intact s := by
  have hnone : NoRow s → Intact s := fun h => ⟨fun row hrow hid => absurd hid (h row hrow), fun _ => h⟩
  have hrow : s.1.stage ≠ .threw → Committed s ∧ Written s → Intact s := by
    intro hne h
    obtain ⟨⟨_, hc⟩, file, hget, hbytes⟩ := h
    refine ⟨fun row hrow hid => ?_, fun hthrew => absurd hthrew hne⟩
    obtain ⟨hkey, hsize⟩ := hc row hrow hid
    exact ⟨_, file, hkey, hget, by rw [hsize, hbytes]⟩
  cases hstage : s.1.stage <;> rw [InStage, hstage] at h
  case write | remove | rethrow | threw => exact hnone h
  case transaction => exact hnone h.1
  case announce | map | returned => exact hrow (by simp [hstage]) h

theorem Begins.inStage (h : Begins s) : InStage s := by
  rw [InStage, h.1]
  exact h.2

theorem InStage.next (h : InStage s) (hok : Untroubled s a) (hs : next a s = some s') : InStage s' := by
  obtain ⟨⟨taskId, actorId, file, mimeType, id, writtenAt, stage⟩, w⟩ := s
  obtain ⟨now, fate⟩ := a
  cases stage with
  | write =>
    cases fate with
    | goes =>
      cases hs
      exact ⟨h, ⟨file.buffer, now⟩, by simp [Upload.storageKey], rfl⟩
    | throws written => cases written <;> cases hs <;> exact h
  | transaction =>
    obtain ⟨hnone, hwritten⟩ := h
    cases fate with
    | goes =>
      cases hs
      refine ⟨⟨⟨_, List.mem_append_right _ List.mem_cons_self, rfl⟩, fun row hrow hid => ?_⟩, hwritten⟩
      rcases List.mem_append.mp hrow with hold | hnew
      · exact absurd hid (hnone row hold)
      · rw [List.mem_singleton.mp hnew]
        exact ⟨rfl, rfl⟩
    | throws _ =>
      cases hs
      exact hnone
  | announce row =>
    cases fate with
    | goes =>
      cases hs
      exact h
    | throws _ => exact hok.elim
  | map row =>
    cases fate with
    | goes =>
      cases hs
      exact h
    | throws _ => exact hok.elim
  | remove => cases fate <;> cases hs <;> exact h
  | rethrow => cases fate <;> cases hs <;> exact h
  | returned dto => cases fate <;> cases hs
  | threw => cases fate <;> cases hs

/-- There is a row, and the call is on its way to throwing. -/
def Undone (s : Upload × Files) : Prop :=
  (∃ row ∈ s.2.rows, row.id = s.1.id) ∧
    (s.1.stage = .remove ∨ s.1.stage = .rethrow ∨ s.1.stage = .threw)

theorem Undone.next (h : Undone s) (hs : next a s = some s') : Undone s' := by
  obtain ⟨⟨taskId, actorId, file, mimeType, id, writtenAt, stage⟩, w⟩ := s
  obtain ⟨now, fate⟩ := a
  obtain ⟨hrow, hstage⟩ := h
  simp only at hstage
  rcases hstage with rfl | rfl | rfl
  · cases fate <;> cases hs <;> exact ⟨hrow, .inr (.inl rfl)⟩
  · cases fate <;> cases hs <;> exact ⟨hrow, .inr (.inr rfl)⟩
  · cases fate <;> cases hs

theorem Undone.not_intact (h : Undone s) (hend : Ended s) : ¬ Intact s := by
  intro hintact
  obtain ⟨⟨row, hrow, hid⟩, hstage⟩ := h
  have hthrew : s.1.stage = .threw := by
    rcases hend with hthrew | ⟨dto, hdto⟩
    · exact hthrew
    · rw [hdto] at hstage
      simp at hstage
  exact hintact.2 hthrew row hrow hid

/-- A throw behind the commit is a throw with a row. -/
theorem undone_of_troubled (h : InStage s) (htrouble : ¬ Untroubled s a) (hs : next a s = some s') :
    Undone s' := by
  obtain ⟨⟨taskId, actorId, file, mimeType, id, writtenAt, stage⟩, w⟩ := s
  obtain ⟨now, fate⟩ := a
  cases stage <;> cases fate
  case announce.throws | map.throws =>
    cases hs
    exact ⟨h.1.1, .inl rfl⟩
  all_goals exact absurd trivial htrouble

/-- Along every run whose announcement and mapping do not throw the row has its bytes, and a call that
throws leaves none; and of the runs that end, no other does so. -/
theorem createFile_intact (h₀ : Begins s₀) :
    (∀ s, Reach next Untroubled s₀ s → Intact s) ∧
      ∀ s, Reach next Any s₀ s → Ended s → (Intact s ↔ Reach next Untroubled s₀ s) := by
  have hstage : ∀ {s}, Reach next Untroubled s₀ s → InStage s :=
    fun h => h.inv h₀.inStage fun s a s' hin hok hs => hin.next hok hs
  refine ⟨fun s h => (hstage h).intact, fun s hrun hend => ⟨fun hintact => ?_, fun h => (hstage h).intact⟩⟩
  -- a run is without trouble so far, or undone from the first trouble on
  have hsplit : Reach next Untroubled s₀ s ∨ Undone s := by
    clear hend hintact
    induction hrun with
    | refl => exact .inl .refl
    | @step s s' a _ _ hs ih =>
      rcases ih with huntroubled | hundone
      · by_cases hok : Untroubled s a
        · exact .inl (huntroubled.step hok hs)
        · exact .inr (undone_of_troubled (hstage huntroubled) hok hs)
      · exact .inr (hundone.next hs)
  exact hsplit.resolve_right fun hundone => hundone.not_intact hend hintact

/-- A text of three bytes for a task. -/
def noted : Upload × Files :=
  (.start (js "t") (js "ada") ⟨js "note.txt", [97, 98, 99]⟩ (js "text/plain") (js "0198-a"),
    ⟨JsMap.empty, []⟩)

theorem noted_begins : Begins noted := ⟨rfl, fun _ hrow => absurd hrow List.not_mem_nil⟩

instance (s : Upload × Files) (a : Instant × Fate) : Decidable (Untroubled s a) := by
  unfold Untroubled
  split <;> infer_instance

/-- Everything goes well. -/
theorem noted_intact : ∃ s, Reach next Untroubled noted s ∧ s.2.rows.length = 1 ∧ Intact s := by
  let ok : Upload × Files → Instant × Fate → Bool := fun s a => decide (Untroubled s a)
  let acts : List (Instant × Fate) := List.replicate 4 (0, .goes)
  have hrun : Reach next Untroubled noted (after next ok acts noted) :=
    reach_after (fun _ _ h => of_decide_eq_true h) (by decide +kernel)
  exact ⟨_, hrun, by decide +kernel, (createFile_intact noted_begins).1 _ hrun⟩

/-- The announcement throws behind the commit: the call throws, the row stays, and its bytes go. -/
theorem announced_and_thrown : ¬ ∀ s₀ s, Begins s₀ → Reach next Any s₀ s → Intact s := by
  intro h
  let ok : Upload × Files → Instant × Fate → Bool := fun _ _ => true
  let acts : List (Instant × Fate) :=
    [(0, .goes), (0, .goes), (0, .throws none), (0, .goes), (0, .goes)]
  have hrun : Reach next Any noted (after next ok acts noted) :=
    reach_after (fun _ _ _ => trivial) (by decide +kernel)
  have hthrew : ∃ row ∈ (after next ok acts noted).2.rows, row.id = js "0198-a" ∧
      (after next ok acts noted).2.disk.entries.rows.length = 0 := by decide +kernel
  obtain ⟨row, hrow, hid, hgone⟩ := hthrew
  obtain ⟨key, file, _, hget, _⟩ := (h noted _ noted_begins hrun).1 row hrow hid
  rw [JsMap.get_eq_some, List.eq_nil_of_length_eq_zero hgone] at hget
  cases hget

end Runs
end AttachmentService
end Kurul
