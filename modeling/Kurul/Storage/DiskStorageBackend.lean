import Kurul.Attachment.CreateFile
import Kurul.PosixPath

/-!
# Kurul.Storage.DiskStorageBackend

Attachments on the local file system: a key is resolved to a path under the root, and what is done under
the key is done to the file at that path.

* `resolve_below`  — a path that is not refused is below the root.
* `resolve_plain`  — where a key made of names goes.
* `key_confined`   — so keys made of names never meet.
-/

namespace Kurul

open PosixPath

/-- The constructor refuses other roots. -/
structure DiskStorageBackend where
  root : JsString
  absolute : isAbsolute root = true

/-- Files by their paths. -/
abbrev Disk : Type := JsMap JsString AttachmentService.StoredFile

namespace DiskStorageBackend

open AttachmentService

/-- The path for a key, unless it throws. -/
def resolve (b : DiskStorageBackend) (key : StorageKey) : Option JsString :=
  let absolute := PosixPath.resolve b.root key
  let rel := relative b.root absolute
  if rel = [] ∨ (js "..").isPrefixOf rel = true ∨ isAbsolute rel = true then none else some absolute

/-- What `write` leaves. It may throw before it writes, or with some of the bytes written. -/
def write (b : DiskStorageBackend) (key : StorageKey) (file : StoredFile) (fate : Fate) (disk : Disk) :
    Disk :=
  match b.resolve key with
  | none => disk
  | some absolute => match fate with
    | .goes => disk.set absolute file
    | .throws (some n) => disk.set absolute { file with bytes := file.bytes.take n }
    | .throws none => disk

/-- What is read, unless it throws. -/
def createReadStream (b : DiskStorageBackend) (key : StorageKey) (disk : Disk) : Option (List UInt8) :=
  (b.resolve key).bind fun absolute => (disk.get absolute).map StoredFile.bytes

/-- What `remove` leaves: a file that is not there is removed too. -/
def remove (b : DiskStorageBackend) (key : StorageKey) (fate : Fate) (disk : Disk) : Disk :=
  match b.resolve key with
  | none => disk
  | some absolute => match fate with
    | .goes => disk.erase absolute
    | .throws _ => disk

/-- A call that changes the disk. -/
inductive Change where
  | write (key : StorageKey) (file : StoredFile) (fate : Fate)
  | remove (key : StorageKey) (fate : Fate)

def Change.key : Change → StorageKey
  | .write key _ _ => key
  | .remove key _ => key

def apply (b : DiskStorageBackend) (disk : Disk) : Change → Disk
  | .write key file fate => b.write key file fate disk
  | .remove key fate => b.remove key fate disk

/-- A key that is a sequence of names. -/
def Plain (key : StorageKey) : Prop := ∃ ns, ns ≠ [] ∧ (∀ n ∈ ns, Name n) ∧ key = joinNames ns

/-- A normalised path strictly below the normalised root. -/
def Below (root path : JsString) : Prop :=
  ∃ below, below ≠ [] ∧ (∀ n ∈ names root ++ below, Name n) ∧ path = PosixPath.absolute (names root ++ below)

section Resolve

variable {b : DiskStorageBackend} {key key' : StorageKey} {path : JsString} {ns : List JsString}

theorem js_dots : js ".." = [dot, dot] := by decide

/-- What is not refused is the resolved path, and it is below the root. -/
theorem resolve_eq_some (h : b.resolve key = some path) : path = PosixPath.resolve b.root key ∧
    ∃ below, below ≠ [] ∧ names path = names b.root ++ below ∧
      (js "..").isPrefixOf (joinNames below) = false := by
  unfold resolve at h
  dsimp only at h
  split at h
  · cases h
  · rename_i hguard
    simp only [not_or, Bool.not_eq_true] at hguard
    obtain ⟨hne, hdots, _⟩ := hguard
    obtain rfl : PosixPath.resolve b.root key = path := Option.some.inj h
    have hinside : ∃ below, names (PosixPath.resolve b.root key) = names b.root ++ below := by
      by_contra hnone
      have hout := relative_outside fun below hbelow => hnone ⟨below, hbelow⟩
      rw [← js_dots, ← List.isPrefixOf_iff_prefix, hdots] at hout
      cases hout
    obtain ⟨below, hbelow⟩ := hinside
    rw [relative_below hbelow] at hne hdots
    exact ⟨rfl, below, fun heq => hne (by rw [heq]; rfl), hbelow, hdots⟩

theorem resolve_below (h : b.resolve key = some path) : Below b.root path := by
  obtain ⟨rfl, below, hne, hnames, _⟩ := resolve_eq_some h
  have hall : ∀ n ∈ names b.root ++ below, Name n := fun n hn => name_of_mem_names (hnames ▸ hn)
  refine ⟨below, hne, hall, ?_⟩
  rw [← hnames, names_resolve]
  rfl

/-- A key made of names goes to the file of these names. -/
theorem resolve_plain (h : ∀ n ∈ ns, Name n) :
    PosixPath.resolve b.root (joinNames ns) = PosixPath.absolute (names b.root ++ ns) := by
  rw [PosixPath.resolve, not_isAbsolute_joinNames h, if_neg Bool.false_ne_true, names_child h]

theorem Plain.path_eq (hkey : Plain key) (h : b.resolve key = some path) : ∃ ns,
    (∀ n ∈ names b.root ++ ns, Name n) ∧ key = joinNames ns ∧
      path = PosixPath.absolute (names b.root ++ ns) := by
  obtain ⟨ns, _, hns, rfl⟩ := hkey
  refine ⟨ns, fun n hn => ?_, rfl, ?_⟩
  · rcases List.mem_append.mp hn with hn | hn
    · exact name_of_mem_names hn
    · exact hns n hn
  · rw [(resolve_eq_some h).1, resolve_plain hns]

/-- Keys made of names that go to one path are one key. -/
theorem Plain.eq_of_path (hkey : Plain key) (hkey' : Plain key') (h : b.resolve key = some path)
    (h' : b.resolve key' = some path) : key = key' := by
  obtain ⟨ns, hns, rfl, hpath⟩ := hkey.path_eq h
  obtain ⟨ms, hms, rfl, hpath'⟩ := hkey'.path_eq h'
  have heq := absolute_injective hns hms (hpath.symm.trans hpath')
  rw [List.append_cancel_left heq]

/-- A call for one key leaves the path of another. -/
theorem get_apply {c : Change} (hkey : Plain key) (hc : Plain c.key) (hne : c.key ≠ key)
    (h : b.resolve key = some path) (disk : Disk) : (b.apply disk c).get path = disk.get path := by
  have hpaths : ∀ path', b.resolve c.key = some path' → path ≠ path' := by
    rintro path' h' rfl
    exact hne (hc.eq_of_path hkey h' h)
  cases c with
  | write key' file fate =>
    cases hresolve : b.resolve key' with
    | none => simp [apply, write, hresolve]
    | some path' =>
      have hother := hpaths path' hresolve
      cases fate with
      | goes => simp [apply, write, hresolve, hother]
      | throws written =>
        cases written with
        | none => simp [apply, write, hresolve]
        | some n => simp [apply, write, hresolve, hother]
  | remove key' fate =>
    cases hresolve : b.resolve key' with
    | none => simp [apply, remove, hresolve]
    | some path' =>
      have hother := hpaths path' hresolve
      cases fate with
      | goes => simp [apply, remove, hresolve, hother]
      | throws written => simp [apply, remove, hresolve]

/-- Any number of them. -/
theorem get_foldl_apply {changes : List Change} (hkey : Plain key)
    (hc : ∀ c ∈ changes, Plain c.key ∧ c.key ≠ key) (h : b.resolve key = some path) (disk : Disk) :
    (changes.foldl b.apply disk).get path = disk.get path := by
  induction changes generalizing disk with
  | nil => rfl
  | cons c changes ih =>
    obtain ⟨hhead, htail⟩ := List.forall_mem_cons.mp hc
    rw [List.foldl_cons, ih htail, get_apply hkey hhead.1 hhead.2 h]

end Resolve

/-- Every path a key is resolved to is below the root. Different keys made of names have different paths,
and whatever is written and removed under others, the file of a key is read as before. -/
theorem key_confined (b : DiskStorageBackend) :
    (∀ key path, b.resolve key = some path → Below b.root path) ∧
    (∀ key key' path path', Plain key → Plain key' → b.resolve key = some path →
      b.resolve key' = some path' → key ≠ key' → path ≠ path') ∧
    (∀ (key : StorageKey) (changes : List Change) (disk : Disk), Plain key →
      (∀ c ∈ changes, Plain c.key ∧ c.key ≠ key) →
      b.createReadStream key (changes.foldl b.apply disk) = b.createReadStream key disk) := by
  refine ⟨fun key path => resolve_below, ?_, ?_⟩
  · rintro key key' path path' hkey hkey' h h' hne rfl
    exact hne (hkey.eq_of_path hkey' h h')
  · intro key changes disk hkey hc
    unfold createReadStream
    cases h : b.resolve key with
    | none => rfl
    | some path => rw [Option.bind_some, Option.bind_some, get_foldl_apply hkey hc h]

/-- A root that is not normalised, a key that leaves it and comes back, and two that are made of
names. -/
theorem key_confined_dotted :
    let b : DiskStorageBackend := ⟨js "/srv//data/./x/..", by decide⟩
    Below b.root (js "/srv/data/a") ∧ js "/srv/data/a/b" ≠ js "/srv/data/ab" := by
  intro b
  have hnames : ∀ n ∈ [js "a", js "b", js "ab"], Name n := by
    have hall : [js "a", js "b", js "ab"].all (fun n =>
        !n.isEmpty && n != [dot] && n != [dot, dot] && !n.contains slash) = true := by decide
    intro n hn
    have hname := List.all_eq_true.mp hall n hn
    simp only [Bool.and_eq_true, Bool.not_eq_true', bne_iff_ne, ne_eq, List.isEmpty_eq_false_iff,
      List.contains_eq_mem, decide_eq_false_iff_not] at hname
    exact ⟨hname.1.1.1, hname.1.1.2, hname.1.2, hname.2⟩
  refine ⟨(key_confined b).1 (js "../data/x/../a") _ (by decide +kernel), ?_⟩
  refine (key_confined b).2.1 (js "a/b") (js "ab") _ _ ⟨[js "a", js "b"], ?_, ?_, by decide⟩
    ⟨[js "ab"], ?_, ?_, by decide⟩ (by decide +kernel) (by decide +kernel) (by decide)
  · exact List.cons_ne_nil _ _
  · exact fun n hn => hnames n (List.mem_of_mem_take (i := 2) hn)
  · exact List.cons_ne_nil _ _
  · exact fun n hn => hnames n (List.mem_of_mem_drop (i := 2) hn)

end DiskStorageBackend
end Kurul
