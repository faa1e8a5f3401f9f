import Kurul.Storage.DiskStorageBackend
import Kurul.Retention.SweepSystem
import Kurul.Utf16

/-!
# Kurul.Storage.Listing

What the directory under the storage root holds, listed as keys, and the orphan sweep over it with nobody
else at work.

The file system has names of bytes. Node shows them as strings and takes strings, and what is not UTF-8
does not survive that.

* `listEntry_eq`         — the key of a file, and that it leads back to it.
* `sweep_isSome`         — a sweep over such files ends.
* `listed_removable_iff` — every file listed can be removed under its key, and no sweep throws, exactly if
  every name is UTF-8 and none right under the root starts with two dots.
-/

namespace Kurul

open PosixPath AttachmentService

/-- A name that a file can have. -/
structure LegalName (n : List UInt8) : Prop where
  nonempty : n ≠ []
  noSlash : 0x2f ∉ n
  noNul : 0 ∉ n
  notDot : n ≠ [0x2e]
  notDots : n ≠ [0x2e, 0x2e]

/-- How Node shows a name as a string, and passes a string on as a name. -/
structure NameCodec where
  shown : List UInt8 → JsString
  passed : JsString → List UInt8
  name : ∀ n, LegalName n → Name (shown n)

/-- What `opendir` names. -/
structure TreeEntry where
  path : List (List UInt8)
  isFile : Bool
  modifiedAt : Instant

/-- Everything under the root, in the order in which it is named. -/
structure Tree where
  entries : List TreeEntry
  legal : ∀ e ∈ entries, e.path ≠ [] ∧ ∀ n ∈ e.path, LegalName n
  distinct : (entries.map TreeEntry.path).Nodup

def Tree.without (tree : Tree) (path : List (List UInt8)) : Tree where
  entries := tree.entries.filter fun e => e.path ≠ path
  legal e he := tree.legal e (List.mem_of_mem_filter he)
  distinct := tree.distinct.sublist (List.filter_sublist.map _)

structure ListedFile where
  key : StorageKey
  modifiedAt : Instant

namespace DiskStorageBackend

section Model

variable (b : DiskStorageBackend) (codec : NameCodec)

/-- The names the file system is asked for. -/
def osPath (path : JsString) : List (List UInt8) := (names path).map codec.passed

/-- What is at a path. -/
def find (tree : Tree) (path : JsString) : Option TreeEntry :=
  tree.entries.find? fun e => decide (osPath codec b.root ++ e.path = osPath codec path)

/-- `join(entry.parentPath, entry.name)`: the directories on the way were joined one by one. -/
def entryPath (e : TreeEntry) : JsString := (e.path.map codec.shown).foldl join b.root

/-- What `listKeys` makes of a file, unless `stat` throws. -/
def listEntry (tree : Tree) (e : TreeEntry) : Option ListedFile :=
  (b.find codec tree (b.entryPath codec e)).map fun info =>
    ⟨joinNames ((relative b.root (b.entryPath codec e)).splitOn slash), info.modifiedAt⟩

/-- `remove`, unless it throws: the key may be refused, and a directory is not removed. -/
def removeFrom (key : StorageKey) (tree : Tree) : Option Tree :=
  (b.resolve key).bind fun absolute => match b.find codec tree absolute with
    | none => some tree
    | some e => if e.isFile then some (tree.without e.path) else none

/-- The variables of `sweepOrphanFiles`, and the directory. -/
structure Sweeper where
  tree : Tree
  batch : List StorageKey
  removed : Nat

def removeOrphan (claimed : List StorageKey) (st : Sweeper) (key : StorageKey) : Option Sweeper :=
  if key ∈ claimed then some st
  else (b.removeFrom codec key st.tree).map fun tree =>
    { st with tree := tree, removed := st.removed + 1 }

def flush (claimed : List StorageKey) (st : Sweeper) : Option Sweeper :=
  (st.batch.foldlM (b.removeOrphan codec claimed) st).map fun st => { st with batch := [] }

/-- The loop over the entries, and the `flush` behind it. -/
def sweepEntries (claimed : List StorageKey) (cutoff : Option Instant) :
    List TreeEntry → Sweeper → Option Sweeper
  | [], st => b.flush codec claimed st
  | e :: rest, st =>
    if e.isFile then
      match b.listEntry codec st.tree e with
      | none => none
      | some entry =>
        if CleanupWorker.young cutoff entry.modifiedAt then sweepEntries claimed cutoff rest st
        else
          let st := { st with batch := st.batch ++ [entry.key] }
          let flushed := if CleanupWorker.cleanupBatchSize ≤ st.batch.length then
            b.flush codec claimed st else some st
          flushed.bind fun st =>
            if CleanupWorker.ceiling ≤ st.removed then b.flush codec claimed st
            else sweepEntries claimed cutoff rest st
    else sweepEntries claimed cutoff rest st

/-- `sweepOrphanFiles`, unless it throws. -/
def sweepOrphanFiles (claimed : List StorageKey) (cutoff : Option Instant) (tree : Tree) :
    Option Sweeper :=
  b.sweepEntries codec claimed cutoff tree.entries ⟨tree, [], 0⟩

/-- A file is listed under a key that is accepted and leads back to it, so it goes with the key. -/
structure LeadsBack (tree : Tree) (e : TreeEntry) (l : ListedFile) : Prop where
  listed : b.listEntry codec tree e = some l
  resolved : ∃ path, b.resolve l.key = some path ∧ osPath codec path = osPath codec b.root ++ e.path
  removed : ∃ tree', b.removeFrom codec l.key tree = some tree' ∧
    ∀ e', e' ∈ tree'.entries ↔ e' ∈ tree.entries ∧ e'.path ≠ e.path

/-- Whatever is listed can be removed, and no sweep throws. -/
structure Removable (tree : Tree) : Prop where
  files : ∀ e ∈ tree.entries, e.isFile = true → ∃ l, b.LeadsBack codec tree e l
  sweeps : ∀ claimed cutoff, (b.sweepOrphanFiles codec claimed cutoff tree).isSome = true

end Model

/-- The names of a file are shown and passed on as they are, and the first does not start with two
dots. -/
def Regular (codec : NameCodec) (e : TreeEntry) : Prop :=
  (∀ n ∈ e.path, codec.passed (codec.shown n) = n) ∧
    ∀ n, e.path.head? = some n → (js "..").isPrefixOf (codec.shown n) = false

section Files

variable {b : DiskStorageBackend} {codec : NameCodec} {tree tree' : Tree} {e e' : TreeEntry}
  {path : JsString} {key : StorageKey}

theorem names_shown (codec : NameCodec) (hlegal : ∀ n ∈ e.path, LegalName n) : ∀ n ∈ e.path.map codec.shown, Name n := by
  intro n hn
  obtain ⟨m, hm, rfl⟩ := List.mem_map.mp hn
  exact codec.name m (hlegal m hm)

theorem names_foldl_join {ns : List JsString} (h : ∀ n ∈ ns, Name n) (root : JsString) :
    names (ns.foldl join root) = names root ++ ns := by
  induction ns generalizing root with
  | nil => simp
  | cons n ns ih =>
    obtain ⟨hn, hns⟩ := List.forall_mem_cons.mp h
    rw [List.foldl_cons, ih hns, names_join hn, List.append_assoc]
    rfl

theorem names_entryPath (hlegal : ∀ n ∈ e.path, LegalName n) :
    names (b.entryPath codec e) = names b.root ++ e.path.map codec.shown :=
  names_foldl_join (names_shown codec hlegal) b.root

/-- The key a file is listed under. -/
def keyOf (codec : NameCodec) (e : TreeEntry) : StorageKey := joinNames (e.path.map codec.shown)

theorem listEntry_eq (hlegal : ∀ n ∈ e.path, LegalName n) : b.listEntry codec tree e =
    (b.find codec tree (b.entryPath codec e)).map fun info => ⟨keyOf codec e, info.modifiedAt⟩ := by
  unfold listEntry keyOf
  rw [relative_below (names_entryPath hlegal), joinNames, List.intercalate_splitOn]

/-- Where the file system looks, if the names survive. -/
theorem osPath_eq (hpath : names path = names b.root ++ e.path.map codec.shown)
    (hnames : ∀ n ∈ e.path, codec.passed (codec.shown n) = n) :
    osPath codec path = osPath codec b.root ++ e.path := by
  have hback : (e.path.map codec.shown).map codec.passed = e.path := by
    rw [List.map_map]
    exact (List.map_congr_left hnames).trans (List.map_id _)
  rw [osPath, hpath, List.map_append, hback]
  rfl

/-- At the path of a file there is that file, if it is there at all. -/
theorem find_eq (h : osPath codec path = osPath codec b.root ++ e.path) :
    b.find codec tree path = tree.entries.find? fun e' => decide (e'.path = e.path) := by
  unfold find
  congr
  funext e'
  rw [h]
  simp

theorem entry_unique (he : e ∈ tree.entries) (he' : e' ∈ tree.entries) (h : e'.path = e.path) : e' = e :=
  List.inj_on_of_nodup_map tree.distinct he' he h

theorem find_present (he : e ∈ tree.entries) (h : osPath codec path = osPath codec b.root ++ e.path) :
    b.find codec tree path = some e := by
  rw [find_eq h]
  cases hfind : tree.entries.find? fun e' => decide (e'.path = e.path) with
  | none => exact absurd (List.find?_eq_none.mp hfind e he) (by simp)
  | some e' =>
    have hpath := List.find?_some hfind
    rw [entry_unique he (List.mem_of_find?_eq_some hfind) (of_decide_eq_true hpath)]

/-- Two dots at the start of a text made of names are two dots at the start of the first. -/
theorem dots_joinNames {n : JsString} {ns : List JsString} (h : Name n) :
    (js "..").isPrefixOf (joinNames (n :: ns)) = (js "..").isPrefixOf n := by
  have hne : dot ≠ slash := by decide
  rw [js_dots]
  match n with
  | [] => exact absurd rfl h.nonempty
  | [c] =>
    have hc : c ≠ dot := fun heq => h.notDot (by rw [heq])
    cases ns with
    | nil => simp [joinNames, List.intercalate]
    | cons m ns => simp [joinNames, List.intercalate, List.isPrefixOf, Ne.symm hc]
  | c :: d :: n =>
    cases ns with
    | nil => simp [joinNames, List.intercalate]
    | cons m ns => simp [joinNames, List.intercalate, List.isPrefixOf]

/-- The key of a file is refused exactly if it starts with two dots. -/
theorem resolve_keyOf (hne : e.path ≠ []) (hlegal : ∀ n ∈ e.path, LegalName n) :
    b.resolve (keyOf codec e) = if (js "..").isPrefixOf (keyOf codec e) then none else
      some (PosixPath.absolute (names b.root ++ e.path.map codec.shown)) := by
  have hnames := names_shown codec hlegal
  have hpath : PosixPath.resolve b.root (keyOf codec e) =
      PosixPath.absolute (names b.root ++ e.path.map codec.shown) := resolve_plain hnames
  have hall : ∀ n ∈ names b.root ++ e.path.map codec.shown, Name n := by
    intro n hn
    rcases List.mem_append.mp hn with hn | hn
    · exact name_of_mem_names hn
    · exact hnames n hn
  have hrel : relative b.root (PosixPath.resolve b.root (keyOf codec e)) = keyOf codec e := by
    rw [hpath, relative_below (names_absolute hall)]
    rfl
  have hkey : keyOf codec e ≠ [] := by
    obtain ⟨n, ns, heq⟩ := List.exists_cons_of_ne_nil hne
    have hn := hnames (codec.shown n) (by rw [heq]; exact List.mem_cons_self)
    intro hnil
    unfold keyOf at hnil
    rw [heq] at hnil
    cases ns with
    | nil => exact hn.nonempty (by simpa [joinNames, List.intercalate] using hnil)
    | cons m ns => simp [joinNames, List.intercalate] at hnil
  have habs : isAbsolute (keyOf codec e) = false := not_isAbsolute_joinNames hnames
  unfold resolve
  dsimp only
  rw [hrel, hpath, habs]
  simp [hkey]

/-! ## A sweep -/

/-- Files of `tree`, without those that are gone already. -/
structure Remains (codec : NameCodec) (tree : Tree) (rest : List TreeEntry) (st : Sweeper) : Prop where
  entries : ∀ e ∈ st.tree.entries, e ∈ tree.entries
  suffix : rest <:+ tree.entries
  ahead : ∀ e ∈ rest, e ∈ st.tree.entries
  batch : ∀ key ∈ st.batch, ∃ e ∈ tree.entries, e.isFile = true ∧ e ∉ rest ∧ key = keyOf codec e

variable {st : Sweeper} {rest : List TreeEntry}

theorem Regular.accepted (h : Regular codec e) (hne : e.path ≠ []) (hlegal : ∀ n ∈ e.path, LegalName n) :
    b.resolve (keyOf codec e) =
      some (PosixPath.absolute (names b.root ++ e.path.map codec.shown)) := by
  obtain ⟨n, ns, heq⟩ := List.exists_cons_of_ne_nil hne
  have hn := names_shown codec hlegal (codec.shown n) (by rw [heq]; exact List.mem_cons_self)
  have hdots : (js "..").isPrefixOf (keyOf codec e) = false := by
    unfold keyOf
    rw [heq, List.map_cons, dots_joinNames hn]
    exact h.2 n (by rw [heq]; rfl)
  rw [resolve_keyOf hne hlegal, hdots]
  rfl

theorem Regular.osPath (h : Regular codec e) (hlegal : ∀ n ∈ e.path, LegalName n) :
    osPath codec (PosixPath.absolute (names b.root ++ e.path.map codec.shown)) =
      DiskStorageBackend.osPath codec b.root ++ e.path := by
  refine osPath_eq (names_absolute fun n hn => ?_) h.1
  rcases List.mem_append.mp hn with hn | hn
  · exact name_of_mem_names hn
  · exact names_shown codec hlegal n hn

/-- The key of such a file takes that file away and no other. -/
theorem Regular.removeFrom (h : Regular codec e) (he : e ∈ tree.entries) (hfile : e.isFile = true)
    (hsub : ∀ e' ∈ tree'.entries, e' ∈ tree.entries) :
    ∃ tree'', b.removeFrom codec (keyOf codec e) tree' = some tree'' ∧
      ∀ e', e' ∈ tree''.entries ↔ e' ∈ tree'.entries ∧ e'.path ≠ e.path := by
  obtain ⟨hne, hlegal⟩ := tree.legal e he
  have hwithout : ∀ e', e' ∈ (tree'.without e.path).entries ↔ e' ∈ tree'.entries ∧ e'.path ≠ e.path := by
    intro e'
    simp [Tree.without]
  unfold DiskStorageBackend.removeFrom
  rw [h.accepted hne hlegal, Option.bind_some]
  by_cases hthere : e ∈ tree'.entries
  · rw [find_present hthere (h.osPath hlegal)]
    exact ⟨_, if_pos hfile, hwithout⟩
  · have hother : ∀ e' ∈ tree'.entries, e'.path ≠ e.path := by
      intro e' he' hpath
      exact hthere (entry_unique he (hsub e' he') hpath ▸ he')
    have hnone : b.find codec tree' (PosixPath.absolute (names b.root ++ e.path.map codec.shown)) = none := by
      rw [find_eq (h.osPath hlegal)]
      exact List.find?_eq_none.mpr fun e' he' => by simpa using hother e' he'
    rw [hnone]
    exact ⟨tree', rfl, fun e' => ⟨fun he' => ⟨he', hother e' he'⟩, And.left⟩⟩

theorem Regular.leadsBack (h : Regular codec e) (he : e ∈ tree.entries) (hfile : e.isFile = true) :
    b.LeadsBack codec tree e ⟨keyOf codec e, e.modifiedAt⟩ := by
  obtain ⟨hne, hlegal⟩ := tree.legal e he
  refine ⟨?_, ⟨_, h.accepted hne hlegal, h.osPath hlegal⟩, h.removeFrom he hfile fun _ => id⟩
  rw [listEntry_eq hlegal, find_present he (osPath_eq (names_entryPath hlegal) h.1)]
  rfl

variable {cutoff : Option Instant} (claimed : List StorageKey)
  (hall : ∀ e ∈ tree.entries, e.isFile = true → Regular codec e)

include hall

/-- One key of a batch. -/
theorem removeOrphan_remains (h : Remains codec tree rest st) (hkey : ∃ e ∈ tree.entries,
    e.isFile = true ∧ e ∉ rest ∧ key = keyOf codec e) :
    ∃ st', b.removeOrphan codec claimed st key = some st' ∧ Remains codec tree rest st' ∧
      st'.batch = st.batch := by
  unfold removeOrphan
  split
  · exact ⟨st, rfl, h, rfl⟩
  · obtain ⟨e, he, hfile, hnot, rfl⟩ := hkey
    obtain ⟨tree', htree', hmem⟩ := (hall e he hfile).removeFrom (b := b) he hfile h.entries
    rw [htree']
    refine ⟨_, rfl, ⟨?_, h.suffix, ?_, h.batch⟩, rfl⟩
    · exact fun e' he' => h.entries e' ((hmem e').mp he').1
    · intro e' he'
      refine (hmem e').mpr ⟨h.ahead e' he', fun hpath => hnot ?_⟩
      rw [← entry_unique he (h.suffix.subset he') hpath]
      exact he'

theorem foldlM_removeOrphan {keys : List StorageKey} (h : Remains codec tree rest st)
    (hkeys : ∀ key ∈ keys, ∃ e ∈ tree.entries, e.isFile = true ∧ e ∉ rest ∧ key = keyOf codec e) :
    ∃ st', keys.foldlM (b.removeOrphan codec claimed) st = some st' ∧ Remains codec tree rest st' := by
  induction keys generalizing st with
  | nil => exact ⟨st, rfl, h⟩
  | cons key keys ih =>
    obtain ⟨hkey, hmore⟩ := List.forall_mem_cons.mp hkeys
    obtain ⟨st', hst', h', _⟩ := removeOrphan_remains (b := b) claimed hall h hkey
    rw [List.foldlM_cons, hst']
    exact ih h' hmore

theorem flush_remains (h : Remains codec tree rest st) :
    ∃ st', b.flush codec claimed st = some st' ∧ Remains codec tree rest st' := by
  obtain ⟨st', hst', h'⟩ := foldlM_removeOrphan (b := b) claimed hall h h.batch
  unfold flush
  rw [hst']
  exact ⟨_, rfl, h'.entries, h'.suffix, h'.ahead, nofun⟩

/-- Over regular files the loop ends. -/
theorem sweepEntries_isSome (h : Remains codec tree rest st) :
    (b.sweepEntries codec claimed cutoff rest st).isSome = true := by
  induction rest generalizing st with
  | nil =>
    obtain ⟨st', hst', _⟩ := flush_remains (b := b) claimed hall h
    simp [sweepEntries, hst']
  | cons e rest ih =>
    have he : e ∈ tree.entries := h.suffix.subset List.mem_cons_self
    have hnodup : (e :: rest).Nodup := tree.distinct.of_map.sublist h.suffix.sublist
    have htail : Remains codec tree rest st := by
      refine ⟨h.entries, (List.suffix_cons e rest).trans h.suffix, fun e' he' => h.ahead e' (List.mem_cons_of_mem e he'), ?_⟩
      intro key hkey
      obtain ⟨e', he', hfile, hnot, heq⟩ := h.batch key hkey
      exact ⟨e', he', hfile, fun hmem => hnot (List.mem_cons_of_mem e hmem), heq⟩
    rw [sweepEntries]
    split
    · rename_i hfile
      have hlisted : b.listEntry codec st.tree e = some ⟨keyOf codec e, e.modifiedAt⟩ :=
        ((hall e he hfile).leadsBack (h.ahead e List.mem_cons_self) hfile).listed
      rw [hlisted]
      dsimp only
      split
      · exact ih htail
      · have hpushed : Remains codec tree rest { st with batch := st.batch ++ [keyOf codec e] } := by
          refine ⟨htail.entries, htail.suffix, htail.ahead, fun key hkey => ?_⟩
          rcases List.mem_append.mp hkey with hkey | hkey
          · exact htail.batch key hkey
          · exact ⟨e, he, hfile, (List.nodup_cons.mp hnodup).1, List.mem_singleton.mp hkey⟩
        have hflushed : ∃ st', (if CleanupWorker.cleanupBatchSize ≤
            (st.batch ++ [keyOf codec e]).length then
              b.flush codec claimed { st with batch := st.batch ++ [keyOf codec e] } else
              some { st with batch := st.batch ++ [keyOf codec e] }) = some st' ∧
            Remains codec tree rest st' := by
          split
          · exact flush_remains claimed hall hpushed
          · exact ⟨_, rfl, hpushed⟩
        obtain ⟨st', hst', h'⟩ := hflushed
        rw [hst', Option.bind_some]
        split
        · obtain ⟨st'', hst'', _⟩ := flush_remains (b := b) claimed hall h'
          simp [hst'']
        · exact ih h'
    · exact ih htail

theorem sweep_isSome : (b.sweepOrphanFiles codec claimed cutoff tree).isSome = true :=
  sweepEntries_isSome claimed hall ⟨fun _ => id, List.suffix_rfl, fun _ => id, nofun⟩

end Files

/-- Every file under the root is listed under a key that is accepted, leads back to it and removes it, and
no sweep throws, exactly if the names of every file survive being shown and passed on and no file or
directory right under the root has a name that starts with two dots. -/
theorem listed_removable_iff (b : DiskStorageBackend) (codec : NameCodec) (tree : Tree) :
    b.Removable codec tree ↔ ∀ e ∈ tree.entries, e.isFile = true → Regular codec e := by
  constructor
  · intro h e he hfile
    obtain ⟨hne, hlegal⟩ := tree.legal e he
    obtain ⟨l, hlisted, ⟨path, hresolved, hos⟩, _⟩ := h.files e he hfile
    rw [listEntry_eq hlegal] at hlisted
    obtain ⟨info, _, rfl⟩ := Option.map_eq_some_iff.mp hlisted
    rw [resolve_keyOf hne hlegal] at hresolved
    split at hresolved
    · cases hresolved
    · rename_i hdots
      obtain rfl := Option.some.inj hresolved
      have hall : ∀ n ∈ names b.root ++ e.path.map codec.shown, Name n := by
        intro n hn
        rcases List.mem_append.mp hn with hn | hn
        · exact name_of_mem_names hn
        · exact names_shown codec hlegal n hn
      rw [osPath, names_absolute hall, List.map_append, osPath] at hos
      have hback := List.append_cancel_left hos
      rw [List.map_map] at hback
      refine ⟨List.map_inj_left.mp (hback.trans (List.map_id _).symm), fun n hhead => ?_⟩
      obtain ⟨ns, heq⟩ := List.head?_eq_some_iff.mp hhead
      have hn := names_shown codec hlegal (codec.shown n) (by
        rw [heq]
        exact List.mem_cons_self)
      unfold keyOf at hdots
      rw [heq, List.map_cons, dots_joinNames hn] at hdots
      simpa only [Bool.not_eq_true] using hdots
  · intro hall
    exact ⟨fun e he hfile => ⟨_, (hall e he hfile).leadsBack he hfile⟩,
      fun claimed _ => sweep_isSome claimed hall⟩

/-! ## Names in UTF-8 -/

/-- A text in UTF-8. -/
def utf8 (cs : List Char) : List UInt8 := cs.flatMap String.utf8EncodeChar

/-- What is not UTF-8 is shown as a replacement character, and so is a lone surrogate passed on. -/
def showUtf8 (n : List UInt8) : JsString :=
  match n.toByteArray.utf8Decode? with
  | some cs => Utf16.encode cs.toList
  | none => [0xfffd]

def passUtf8 (s : JsString) : List UInt8 :=
  match Utf16.decode s with
  | some cs => utf8 cs
  | none => [0xef, 0xbf, 0xbd]

theorem showUtf8_utf8 (cs : List Char) : showUtf8 (utf8 cs) = Utf16.encode cs := by
  have hdecode : (utf8 cs).toByteArray.utf8Decode? = some cs.toArray := List.utf8Decode?_utf8Encode
  rw [showUtf8, hdecode]

/-- A name is a text in UTF-8, or shown as a replacement character. -/
theorem showUtf8_cases (n : List UInt8) : (∃ cs, n = utf8 cs) ∨ showUtf8 n = [0xfffd] := by
  cases hdecode : n.toByteArray.utf8Decode? with
  | none => exact .inr (by rw [showUtf8, hdecode])
  | some cs =>
    have hsome : n.toByteArray.utf8Decode?.isSome = true := by rw [hdecode]; rfl
    have hback := ByteArray.utf8Encode_get_utf8Decode? (h := hsome)
    have hbytes : (utf8 cs.toList).toByteArray = n.toByteArray := by
      simp only [hdecode, Option.get_some] at hback
      exact hback
    exact .inl ⟨cs.toList, by simpa using hbytes.symm⟩

/-- Names in UTF-8 survive. -/
theorem passUtf8_showUtf8 (cs : List Char) : passUtf8 (showUtf8 (utf8 cs)) = utf8 cs := by
  rw [showUtf8_utf8, passUtf8, Utf16.decode_encode]

theorem slash_mem_utf8 {cs : List Char} (h : slash ∈ Utf16.encode cs) : 0x2f ∈ utf8 cs := by
  obtain ⟨c, hc, hunits⟩ := List.mem_flatMap.mp h
  refine List.mem_flatMap.mpr ⟨c, hc, ?_⟩
  have hslash : slash.val = 47 := rfl
  rcases Utf16.units_cases c with ⟨u, hu, _, _, rfl⟩ | ⟨hi, lo, hu, high, low, _⟩
  · rw [hu, List.mem_singleton] at hunits
    subst hunits
    decide
  · rw [Utf16.isHigh_iff] at high
    rw [Utf16.isLow_iff] at low
    rw [hu] at hunits
    simp only [List.mem_cons, List.not_mem_nil, or_false] at hunits
    rcases hunits with rfl | rfl
    · omega
    · omega

theorem showUtf8_name {n : List UInt8} (h : LegalName n) : Name (showUtf8 n) := by
  rcases showUtf8_cases n with ⟨cs, rfl⟩ | hbroken
  · have heq : ∀ ds, showUtf8 (utf8 cs) = Utf16.encode ds → utf8 cs = utf8 ds := by
      intro ds hds
      rw [showUtf8_utf8] at hds
      rw [Utf16.encode_injective hds]
    refine ⟨fun hnil => ?_, fun hdot => ?_, fun hdots => ?_, fun hslash => ?_⟩
    · exact h.nonempty (heq [] hnil)
    · exact h.notDot (heq ['.'] hdot)
    · exact h.notDots (heq ['.', '.'] hdots)
    · rw [showUtf8_utf8] at hslash
      exact h.noSlash (slash_mem_utf8 hslash)
  · rw [hbroken]
    exact ⟨by decide, by decide, by decide, by decide⟩

def utf8Names : NameCodec := ⟨showUtf8, passUtf8, fun _ => showUtf8_name⟩

/-! ## A stray file -/

def dataRoot : DiskStorageBackend := ⟨js "/data", by decide⟩

def strayFile : TreeEntry := ⟨[utf8 "..stray".toList], true, 0⟩

def orphanFile : TreeEntry := ⟨[utf8 "orphan".toList], true, 0⟩

/-- A file right under the root whose name starts with two dots, and an orphan behind it. -/
def strayTree : Tree where
  entries := [strayFile, orphanFile]
  legal := by
    have hstray : LegalName (utf8 "..stray".toList) := ⟨by decide, by decide, by decide, by decide, by decide⟩
    have horphan : LegalName (utf8 "orphan".toList) := ⟨by decide, by decide, by decide, by decide, by decide⟩
    intro e he
    simp only [List.mem_cons, List.not_mem_nil, or_false] at he
    rcases he with rfl | rfl
    · exact ⟨List.cons_ne_nil _ _, fun n hn => List.mem_singleton.mp hn ▸ hstray⟩
    · exact ⟨List.cons_ne_nil _ _, fun n hn => List.mem_singleton.mp hn ▸ horphan⟩
  distinct := by decide

/-- The stray file is listed under a key that is refused, and every sweep that finds it old throws, so the
orphan stays. -/
theorem stray_blocks_sweep :
    dataRoot.resolve (keyOf utf8Names strayFile) = none ∧
    ¬ dataRoot.Removable utf8Names strayTree ∧
    dataRoot.sweepOrphanFiles utf8Names [] (some 1) strayTree = none := by
  have hkey : keyOf utf8Names strayFile = js "..stray" := by
    have hshown : keyOf utf8Names strayFile = joinNames [showUtf8 (utf8 "..stray".toList)] := rfl
    rw [hshown, showUtf8_utf8]
    decide +kernel
  have hnone : dataRoot.resolve (keyOf utf8Names strayFile) = none := by
    rw [hkey]
    decide +kernel
  refine ⟨hnone, fun h => ?_, ?_⟩
  · obtain ⟨l, hlisted, ⟨path, hresolved, _⟩, _⟩ := h.files strayFile List.mem_cons_self rfl
    rw [listEntry_eq (strayTree.legal strayFile List.mem_cons_self).2] at hlisted
    obtain ⟨info, _, rfl⟩ := Option.map_eq_some_iff.mp hlisted
    rw [hnone] at hresolved
    cases hresolved
  · have hsurvive : ∀ cs : List Char, ∀ n ∈ [utf8 cs], utf8Names.passed (utf8Names.shown n) = n := by
      intro cs n hn
      rw [List.mem_singleton.mp hn]
      exact passUtf8_showUtf8 cs
    have hlist : ∀ e ∈ strayTree.entries, (∀ n ∈ e.path, utf8Names.passed (utf8Names.shown n) = n) →
        dataRoot.listEntry utf8Names strayTree e = some ⟨keyOf utf8Names e, e.modifiedAt⟩ := by
      intro e he hnames
      have hlegal := (strayTree.legal e he).2
      rw [listEntry_eq hlegal, find_present he (osPath_eq (names_entryPath hlegal) hnames)]
      rfl
    have hstray := hlist strayFile List.mem_cons_self (hsurvive "..stray".toList)
    have horphan := hlist orphanFile (List.mem_cons_of_mem _ List.mem_cons_self)
      (hsurvive "orphan".toList)
    rw [sweepOrphanFiles]
    show dataRoot.sweepEntries utf8Names [] (some 1) [strayFile, orphanFile] ⟨strayTree, [], 0⟩ = none
    have hfiles : strayFile.isFile = true ∧ orphanFile.isFile = true := ⟨rfl, rfl⟩
    have hold : CleanupWorker.young (some 1) strayFile.modifiedAt = false ∧
        CleanupWorker.young (some 1) orphanFile.modifiedAt = false := by decide
    have hroom : ¬ CleanupWorker.cleanupBatchSize ≤ 1 ∧ ¬ CleanupWorker.cleanupBatchSize ≤ 1 + 1 ∧
        ¬ CleanupWorker.ceiling ≤ 0 := by decide
    simp [sweepEntries, hstray, horphan, hfiles, hold, hroom, flush, removeOrphan, removeFrom, hnone]

end DiskStorageBackend
end Kurul
