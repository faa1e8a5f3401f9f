import Mathlib.Data.List.DropRight
import Kurul.Order.SortBy

/-!
# Kurul.Backup.Rotation

`backup.sh`: cycle after cycle a dump of the database and an archive of the attachments are written, and
each of the two series is pruned to its newest `BACKUP_KEEP`.

* `stamps_loop`     — what is left of a series: the newest of those that were written.
* `mem_loop_iff`    — an archive is left exactly if fewer than `BACKUP_KEEP` of its series came after it.
* `paired_iff`      — when the dump and the files of one cycle stay or go together.
-/

namespace Kurul
namespace Backup

/-- Seconds, as in the name of an archive. Names of one series sort as their stamps do. -/
abbrev Stamp : Type := Int

/-- `kurul-<stamp>.dump` and `kurul-<stamp>-files.tar.gz`. -/
inductive Series where
  | dump
  | files
  deriving DecidableEq

/-- A finished archive. A `.part` file matches neither pattern, and is none. -/
structure Archive where
  series : Series
  stamp : Stamp
  deriving DecidableEq

/-- `ls | sort -r | tail -n +(keep + 1)`, and `rm` for each line. -/
def prunePattern (keep : Nat) (pattern : Series) (dir : List Archive) : List Archive :=
  let old := (sortBy Archive.stamp (dir.filter fun a => a.series = pattern)).reverse.drop keep
  dir.filter fun a => a ∉ old

def prune (keep : Nat) (dir : List Archive) : List Archive :=
  prunePattern keep .files (prunePattern keep .dump dir)

/-- What one turn of the loop meets. -/
structure Cycle where
  stamp : Stamp
  /-- `pg_dump` succeeds. -/
  dumpOk : Bool
  /-- `ATTACHMENT_DIR` is a directory, and `tar` succeeds. -/
  filesOk : Bool

def takeDump (c : Cycle) (dir : List Archive) : List Archive :=
  if c.dumpOk then dir ++ [⟨.dump, c.stamp⟩] else dir

def takeFiles (c : Cycle) (dir : List Archive) : List Archive :=
  if c.filesOk then dir ++ [⟨.files, c.stamp⟩] else dir

/-- One turn of the loop. A half that fails does not keep the other from being written. -/
def cycle (keep : Nat) (dir : List Archive) (c : Cycle) : List Archive :=
  prune keep (takeFiles c (takeDump c dir))

/-- `BACKUP_DIR` after these turns. -/
def loop (keep : Nat) (cycles : List Cycle) : List Archive := cycles.foldl (cycle keep) []

/-! ## The newest of a list -/

section Newest

variable {α : Type} {k : Nat} {l l' : List α} {a : α}

/-- The newest of the newest and what came after them are the newest of all. -/
theorem rtake_rtake_append : (l.rtake k ++ l').rtake k = (l ++ l').rtake k := by
  simp only [List.rtake_eq_reverse_take_reverse, List.reverse_append, List.reverse_reverse,
    List.take_append, List.length_reverse, List.take_take]
  rw [Nat.min_eq_left (Nat.sub_le k l'.length)]

/-- One of a list without repetitions is among the newest if few enough came after it. -/
theorem mem_rtake_iff (hnd : (l ++ a :: l').Nodup) : a ∈ (l ++ a :: l').rtake k ↔ l'.length < k := by
  have hnot : a ∉ l' := fun h => (List.nodup_cons.mp (List.nodup_append.mp hnd).2.1).1 h
  simp only [List.rtake_eq_reverse_take_reverse, List.mem_reverse, List.reverse_append,
    List.reverse_cons, List.append_assoc, List.take_append, List.length_reverse, List.mem_append]
  constructor
  · intro h
    by_contra hle
    have hzero : k - l'.length = 0 := by omega
    simp only [hzero, List.take_zero, List.not_mem_nil, Nat.zero_sub, false_or] at h
    exact hnot (List.mem_reverse.mp (List.mem_of_mem_take h))
  · intro hlt
    obtain ⟨n, hn⟩ : ∃ n, k - l'.length = n + 1 := ⟨k - l'.length - 1, by omega⟩
    rw [hn]
    exact .inr (by simp)

end Newest

/-! ## What is left of a series -/

section Series

variable {keep : Nat} {dir : List Archive} {s : Series} {c : Cycle} {cycles : List Cycle}

/-- The stamps of a series, as the archives came. -/
def stamps (s : Series) (dir : List Archive) : List Stamp :=
  (dir.filter fun a => a.series = s).map Archive.stamp

theorem mem_stamps {x : Stamp} : x ∈ stamps s dir ↔ ⟨s, x⟩ ∈ dir := by
  simp only [stamps, List.mem_map, List.mem_filter, decide_eq_true_eq]
  constructor
  · intro h
    obtain ⟨⟨s', x'⟩, ⟨hmem, hs⟩, hx⟩ := h
    cases hs
    cases hx
    exact hmem
  · exact fun h => ⟨_, ⟨h, rfl⟩, rfl⟩

theorem stamps_append (dir' : List Archive) : stamps s (dir ++ dir') = stamps s dir ++ stamps s dir' := by
  simp [stamps]

/-- Whether a cycle writes an archive of a series. -/
def Cycle.wrote (c : Cycle) : Series → Bool
  | .dump => c.dumpOk
  | .files => c.filesOk

/-- The stamps of the archives of a series that were written. -/
def written (s : Series) (cycles : List Cycle) : List Stamp :=
  (cycles.filter fun c => c.wrote s).map Cycle.stamp

theorem stamps_takeDump_takeFiles :
    stamps s (takeFiles c (takeDump c dir)) = stamps s dir ++ written s [c] := by
  cases s <;> cases hd : c.dumpOk <;> cases hf : c.filesOk <;>
    simp [takeFiles, takeDump, stamps, written, Cycle.wrote, hd, hf]

/-- Pruning leaves the newest of the series, -/
theorem stamps_prunePattern (hinc : (stamps s dir).Pairwise (· < ·)) :
    stamps s (prunePattern keep s dir) = (stamps s dir).rtake keep := by
  set l := dir.filter fun a => a.series = s with hl
  have hlt : l.Pairwise fun a b => a.stamp < b.stamp := List.pairwise_map.mp hinc
  have hnd : l.Nodup := hlt.imp fun h heq => by rw [heq] at h; exact lt_irrefl _ h
  have hold : (sortBy Archive.stamp l).reverse.drop keep = (l.take (l.length - keep)).reverse := by
    rw [sortBy_of_lt hlt, List.drop_reverse]
  have hkept : (l.filter fun a => a ∉ l.take (l.length - keep)) = l.drop (l.length - keep) := by
    conv_lhs => rw [← List.take_append_drop (l.length - keep) l]
    rw [List.filter_append, List.filter_eq_nil_iff.mpr, List.nil_append, List.filter_eq_self]
    · intro a ha
      rw [List.take_append_drop]
      exact decide_eq_true fun hmem => (List.disjoint_take_drop hnd le_rfl) hmem ha
    · intro a ha
      rw [List.take_append_drop]
      simpa using ha
  calc stamps s (prunePattern keep s dir)
      = (l.filter fun a => a ∉ l.take (l.length - keep)).map Archive.stamp := by
        rw [stamps, prunePattern, ← hl, hold, hl, List.filter_filter, List.filter_filter]
        congr 1
        refine List.filter_congr fun a _ => ?_
        rw [Bool.and_comm]
        simp
    _ = (stamps s dir).rtake keep := by
        rw [hkept, List.map_drop, List.rtake, stamps, ← hl, List.length_map]

/-- and the other series as it was. -/
theorem stamps_prunePattern_of_ne {s' : Series} (hne : s ≠ s') :
    stamps s (prunePattern keep s' dir) = stamps s dir := by
  rw [stamps, prunePattern, List.filter_filter, stamps]
  congr 1
  refine List.filter_congr fun a _ => ?_
  by_cases hs : a.series = s
  · have hnot : a ∉ (sortBy Archive.stamp (dir.filter fun a => a.series = s')).reverse.drop keep := by
      intro h
      have hmem := (List.mem_filter.mp (mem_sortBy.mp (List.mem_reverse.mp (List.mem_of_mem_drop h)))).2
      rw [decide_eq_true_eq, hs] at hmem
      exact hne hmem
    simp [hs, hnot]
  · simp [hs]

theorem stamps_prune (hinc : (stamps s dir).Pairwise (· < ·)) :
    stamps s (prune keep dir) = (stamps s dir).rtake keep := by
  cases s with
  | dump => rw [prune, stamps_prunePattern_of_ne (by decide), stamps_prunePattern hinc]
  | files =>
    have hsame : stamps .files (prunePattern keep .dump dir) = stamps .files dir :=
      stamps_prunePattern_of_ne (by decide)
    rw [prune, stamps_prunePattern (by rwa [hsame]), hsame]

/-- One turn of the loop, seen in one series. -/
theorem stamps_cycle (hinc : (stamps s dir ++ written s [c]).Pairwise (· < ·)) :
    stamps s (cycle keep dir c) = (stamps s dir ++ written s [c]).rtake keep := by
  rw [cycle, stamps_prune, stamps_takeDump_takeFiles]
  rwa [stamps_takeDump_takeFiles]

theorem written_append (cycles' : List Cycle) :
    written s (cycles ++ cycles') = written s cycles ++ written s cycles' := by
  simp [written]

theorem written_increasing (hinc : (cycles.map Cycle.stamp).Pairwise (· < ·)) :
    (written s cycles).Pairwise (· < ·) :=
  hinc.sublist (List.filter_sublist.map _)

/-- After every prune a series is the newest of what was written of it. -/
theorem stamps_loop (hinc : (cycles.map Cycle.stamp).Pairwise (· < ·)) :
    stamps s (loop keep cycles) = (written s cycles).rtake keep := by
  induction cycles using List.reverseRecOn with
  | nil => simp [loop, stamps, written, List.rtake]
  | append_singleton cycles c ih =>
    have hall : (written s cycles ++ written s [c]).Pairwise (· < ·) := by
      rw [← written_append]
      exact written_increasing hinc
    have hinit : (cycles.map Cycle.stamp).Pairwise (· < ·) := by
      rw [List.map_append] at hinc
      exact (List.pairwise_append.mp hinc).1
    have hstep : (stamps s (loop keep cycles) ++ written s [c]).Pairwise (· < ·) := by
      rw [ih hinit, List.rtake]
      exact hall.sublist ((List.drop_sublist _ _).append (List.Sublist.refl _))
    rw [loop, List.foldl_append, List.foldl_cons, List.foldl_nil, ← loop, stamps_cycle hstep, ih hinit,
      rtake_rtake_append, written_append]

/-- An archive is left exactly if fewer than `keep` of its series came after it. -/
theorem mem_loop_iff {before after : List Cycle} (hw : c.wrote s = true)
    (hinc : ((before ++ c :: after).map Cycle.stamp).Pairwise (· < ·)) :
    ⟨s, c.stamp⟩ ∈ loop keep (before ++ c :: after) ↔ (written s after).length < keep := by
  have hsplit : written s (before ++ c :: after) =
      written s before ++ c.stamp :: written s after := by
    simp [written, hw]
  have hnd : (written s before ++ c.stamp :: written s after).Nodup := by
    rw [← hsplit]
    exact (written_increasing hinc).imp ne_of_lt
  rw [← mem_stamps, stamps_loop hinc, hsplit, mem_rtake_iff hnd]

/-! ## The two series together -/

/-- Of a cycle that wrote both archives, both are left or neither. -/
def Paired (keep : Nat) (cycles : List Cycle) : Prop :=
  ∀ c ∈ cycles, c.dumpOk = true → c.filesOk = true →
    (⟨.dump, c.stamp⟩ ∈ loop keep cycles ↔ ⟨.files, c.stamp⟩ ∈ loop keep cycles)

/-- Since a cycle that wrote both archives, `keep` dumps succeeded exactly if `keep` file archives
did. -/
def EvenlyWritten (keep : Nat) (cycles : List Cycle) : Prop :=
  ∀ before c after, cycles = before ++ c :: after → c.dumpOk = true → c.filesOk = true →
    (keep ≤ (after.filter Cycle.dumpOk).length ↔ keep ≤ (after.filter Cycle.filesOk).length)

instance : Decidable (Paired keep cycles) :=
  inferInstanceAs (Decidable (∀ c ∈ cycles, _))

theorem length_written (after : List Cycle) :
    (written s after).length = (after.filter fun c => c.wrote s).length :=
  List.length_map _

theorem paired_iff (hinc : (cycles.map Cycle.stamp).Pairwise (· < ·)) :
    Paired keep cycles ↔ EvenlyWritten keep cycles := by
  have hone : ∀ before c after, cycles = before ++ c :: after → c.dumpOk = true → c.filesOk = true →
      ((⟨.dump, c.stamp⟩ ∈ loop keep cycles ↔ ⟨.files, c.stamp⟩ ∈ loop keep cycles) ↔
        (keep ≤ (after.filter Cycle.dumpOk).length ↔
          keep ≤ (after.filter Cycle.filesOk).length)) := by
    intro before c after hsplit hd hf
    subst hsplit
    have hdump : ⟨.dump, c.stamp⟩ ∈ loop keep (before ++ c :: after) ↔
        (after.filter Cycle.dumpOk).length < keep := by
      rw [mem_loop_iff (s := .dump) hd hinc, length_written]
      rfl
    have hfiles : ⟨.files, c.stamp⟩ ∈ loop keep (before ++ c :: after) ↔
        (after.filter Cycle.filesOk).length < keep := by
      rw [mem_loop_iff (s := .files) hf hinc, length_written]
      rfl
    rw [hdump, hfiles]
    omega
  constructor
  · intro h before c after hsplit hd hf
    exact (hone before c after hsplit hd hf).mp (h c (by rw [hsplit]; simp) hd hf)
  · intro h c hc hd hf
    obtain ⟨before, after, hsplit⟩ := List.append_of_mem hc
    exact (hone before c after hsplit hd hf).mpr (h before c after hsplit hd hf)

/-- Along every run: each series is the newest of what was written of it, and the two archives of a
cycle stay or go together if and only if the two series are written evenly. -/
theorem rotation (keep : Nat) (cycles : List Cycle)
    (hinc : (cycles.map Cycle.stamp).Pairwise (· < ·)) :
    (∀ s, stamps s (loop keep cycles) = (written s cycles).rtake keep ∧
      (stamps s (loop keep cycles)).length = min keep (written s cycles).length) ∧
    (Paired keep cycles ↔ EvenlyWritten keep cycles) := by
  refine ⟨fun s => ?_, paired_iff hinc⟩
  have hnewest : stamps s (loop keep cycles) = (written s cycles).rtake keep := stamps_loop hinc
  refine ⟨hnewest, ?_⟩
  rw [hnewest, List.rtake, List.length_drop]
  omega

def goodNights : List Cycle := [⟨1, true, true⟩, ⟨2, true, true⟩, ⟨3, true, true⟩]

theorem rotation_of_good_nights :
    Paired 2 goodNights ∧ stamps .dump (loop 2 goodNights) = [2, 3] := by
  obtain ⟨hseries, hpaired⟩ := rotation 2 goodNights (by decide)
  refine ⟨hpaired.mpr fun before c after hsplit _ _ => ?_, (hseries .dump).1⟩
  have hboth : ∀ c' ∈ goodNights, c'.dumpOk = c'.filesOk := by decide
  rw [List.filter_congr fun c' hc' => hboth c' (by rw [hsplit]; simp [hc'])]

/-- One archive of each series is kept, and the second night writes the dump only: the first night's
dump goes, and its files stay. -/
theorem dump_without_files : ¬ ∀ (keep : Nat) (cycles : List Cycle), 1 ≤ keep →
    (cycles.map Cycle.stamp).Pairwise (· < ·) →
    (∀ s, stamps s (loop keep cycles) = (written s cycles).rtake keep) ∧ Paired keep cycles := by
  intro h
  have hpaired := (h 1 [⟨1, true, true⟩, ⟨2, true, false⟩] le_rfl (by decide)).2
  revert hpaired
  decide +kernel

end Series

end Backup
end Kurul
