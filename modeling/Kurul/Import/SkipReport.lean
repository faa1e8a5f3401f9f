import Mathlib.Algebra.BigOperators.Group.List.Basic
import Kurul.Import.PlanTwice

/-!
# Kurul.Import.SkipReport

Any sequence of calls on a `SkipCollector`, and the report that comes of it.
-/

namespace Kurul

open Sql

/-- A call. A sample may be `null` or missing. -/
inductive SkipCall where
  | add (scope : TrelloImportScope) (reason : TrelloImportSkipReason) (sample : Option JsString)
  | addMany (scope : TrelloImportScope) (reason : TrelloImportSkipReason) (count : Int)
      (samples : List (Option JsString))

namespace SkipCall

def key : SkipCall → SkipKey
  | add scope reason _ => (scope, reason)
  | addMany scope reason _ _ => (scope, reason)

def count : SkipCall → Int
  | add _ _ _ => 1
  | addMany _ _ count _ => count

def samples : SkipCall → List (Option JsString)
  | add _ _ sample => [sample]
  | addMany _ _ _ samples => samples

/-- A count of zero or less adds nothing. -/
def run (groups : SkipCollector) : SkipCall → SkipCollector
  | add scope reason sample => groups.add scope reason sample
  | addMany scope reason count samples =>
    if count ≤ 0 then groups
    else groups.addMany scope reason count.toNat (samples.map fun sample => sample.getD [])

/-- The samples that are not blank, trimmed. -/
def named (samples : List (Option JsString)) : List JsString :=
  (samples.map fun sample => trim (sample.getD [])).filter truthy

/-- What the calls of one group say in all. -/
def totalOf (calls : List SkipCall) (key : SkipKey) : Int :=
  ((calls.filter fun c => c.key = key).map count).sum

/-- What they name, in call order. -/
def samplesOf (calls : List SkipCall) (key : SkipKey) : List JsString :=
  (calls.filter fun c => c.key = key).flatMap fun c => named c.samples

/-- The calls that add something. -/
def additions (calls : List SkipCall) : List SkipCall := calls.filter fun c => 0 < c.count

/-- The collector after the calls. -/
def collected (calls : List SkipCall) : SkipCollector := calls.foldl run Store.empty

/-- Every pair of a scope and a reason, in the order they are declared in. -/
def skipKeys : List SkipKey := scopeOrder.flatMap fun scope => reasonOrder.map fun reason => (scope, reason)

/-- A member counted and not there, and one that is. -/
def emptyAndFull : List SkipCall :=
  [.addMany .member .unmappable 0 [some (js "Old")], .add .member .unmappable (some (js "New"))]

/-- A name that comes with a count of zero is not quoted. -/
theorem unquoted_sample : ∃ g ∈ (collected emptyAndFull).toReport,
    g.samples ≠ (samplesOf emptyAndFull (g.scope, g.reason)).take skipSampleLimit :=
  ⟨⟨.member, .unmappable, 1, [js "New"]⟩, List.mem_of_mem_head? rfl, by decide⟩

section Tally

variable {groups : SkipCollector} {scope : TrelloImportScope} {reason : TrelloImportSkipReason}
  {added calls calls' : List SkipCall} {key : SkipKey}

/-! ## Samples -/

/-- Blank ones are passed over, and there are twenty at most. -/
theorem pushSamples_eq {samples : List JsString} (h : samples.length ≤ skipSampleLimit)
    (more : List JsString) : SkipCollector.pushSamples samples more =
      (samples ++ (more.map trim).filter truthy).take skipSampleLimit := by
  induction more generalizing samples with
  | nil => simp [SkipCollector.pushSamples, List.take_of_length_le h]
  | cons sample more ih =>
    unfold SkipCollector.pushSamples
    split
    · rename_i hfull
      rw [List.take_left' (by omega)]
    · rename_i hroom
      split
      · rename_i hblank
        simp [ih h, hblank]
      · rename_i hnamed
        have hone : (samples ++ [trim sample]).length ≤ skipSampleLimit := by simp; omega
        simp [ih hone, hnamed]

/-- The samples of a group. -/
def quoted (groups : SkipCollector) (key : SkipKey) : List JsString :=
  ((groups.get? key).map SkipGroup.samples).getD []

theorem quoted_addMany {count : Nat} (hcount : count ≠ 0) (samples : List JsString) :
    quoted (groups.addMany scope reason count samples) key =
      if key = (scope, reason) then SkipCollector.pushSamples (quoted groups key) samples
      else quoted groups key := by
  unfold SkipCollector.addMany
  rw [if_neg hcount]
  have hput := Store.get?_put groups ⟨scope, reason, ((groups.get? (scope, reason)).getD
    ⟨scope, reason, 0, []⟩).count + count, SkipCollector.pushSamples ((groups.get? (scope, reason)).getD
    ⟨scope, reason, 0, []⟩).samples samples⟩ key
  change _ = if key = (scope, reason) then _ else _ at hput
  simp only [quoted, hput]
  by_cases hkey : key = (scope, reason)
  · subst hkey
    cases groups.get? (scope, reason) <;> simp
  · simp [hkey]

/-! ## The collector -/

/-- What the collector holds after calls that added `added`. -/
structure Tallied (groups : SkipCollector) (added : List SkipCall) : Prop where
  count : ∀ key, (groups.countOf key : Int) = totalOf added key
  samples : ∀ key, quoted groups key = (samplesOf added key).take skipSampleLimit
  counted : groups.Counted

theorem totalOf_append : totalOf (calls ++ calls') key = totalOf calls key + totalOf calls' key := by
  simp [totalOf]

theorem samplesOf_append : samplesOf (calls ++ calls') key = samplesOf calls key ++ samplesOf calls' key := by
  simp [samplesOf]

theorem tallied_empty : Tallied Store.empty [] where
  count _ := rfl
  samples _ := rfl
  counted := nofun

theorem Tallied.addMany (h : Tallied groups added) (c : SkipCall) (hc : c.key = (scope, reason))
    {count : Nat} (hcount : c.count = count) (hpos : 0 < count) {samples : List JsString}
    (hsamples : (samples.map trim).filter truthy = named c.samples) :
    Tallied (groups.addMany scope reason count samples) (added ++ [c]) where
  count key := by
    rw [SkipCollector.countOf_addMany, totalOf_append, Nat.cast_add, h.count]
    by_cases hkey : key = (scope, reason)
    · simp [totalOf, hkey, hc, hcount]
    · simp [totalOf, hkey, hc, Ne.symm hkey]
  samples key := by
    rw [quoted_addMany (by omega), samplesOf_append, h.samples]
    by_cases hkey : key = (scope, reason)
    · have hnew : samplesOf [c] key = named c.samples := by simp [samplesOf, hkey, hc]
      rw [if_pos hkey, pushSamples_eq (List.length_take_le _ _), hsamples, hnew, List.take_append,
        List.take_append, List.take_take, Nat.min_self, List.length_take]
      congr 2
      omega
    · simp [samplesOf, hkey, hc, Ne.symm hkey]
  counted := h.counted.addMany

/-- One call. -/
theorem Tallied.run (h : Tallied groups added) (c : SkipCall) :
    Tallied (c.run groups) (added ++ additions [c]) := by
  cases c with
  | add scope reason sample =>
    have hone : Tallied (groups.addMany scope reason 1 sample.toList)
        (added ++ [.add scope reason sample]) := by
      refine h.addMany (.add scope reason sample) rfl rfl Nat.one_pos ?_
      cases sample <;> simp [named, SkipCall.samples, trim]
    exact hone
  | addMany scope reason count samples =>
    simp only [SkipCall.run]
    split
    · rename_i hnone
      have hadds : additions [.addMany scope reason count samples] = [] :=
        List.filter_eq_nil_iff.mpr fun c hc => by
          rw [List.mem_singleton.mp hc, decide_eq_true_eq, not_lt]
          exact hnone
      rwa [hadds, List.append_nil]
    · rename_i hsome
      rw [not_le] at hsome
      have hadds : additions [.addMany scope reason count samples] =
          [.addMany scope reason count samples] := by
        simp [additions, SkipCall.count, hsome]
      rw [hadds]
      refine h.addMany (.addMany scope reason count samples) rfl
        (Int.toNat_of_nonneg hsome.le).symm (by omega) ?_
      simp [named, SkipCall.samples, Function.comp_def]

/-- Any calls, from any collector. -/
theorem Tallied.foldl (h : Tallied groups added) (calls : List SkipCall) :
    Tallied (calls.foldl SkipCall.run groups) (added ++ additions calls) := by
  induction calls generalizing groups added with
  | nil => simpa [additions] using h
  | cons c calls ih =>
    have hsplit : additions (c :: calls) = additions [c] ++ additions calls := by
      rw [additions, ← List.singleton_append, List.filter_append]
      rfl
    rw [List.foldl_cons, hsplit, ← List.append_assoc]
    exact ih (h.run c)

theorem tallied_collected (calls : List SkipCall) : Tallied (collected calls) (additions calls) :=
  tallied_empty.foldl calls

/-! ## The report -/

theorem totalOf_pos_iff_mem (h : Tallied groups added) :
    0 < totalOf added key ↔ ∃ g ∈ groups.rows, (g.scope, g.reason) = key := by
  rw [← h.count, SkipCollector.countOf]
  cases hget : groups.get? key with
  | none =>
    have hno := Store.get?_eq_none_iff.mp hget
    simp only [Option.map_none, Option.getD_none, Nat.cast_zero, lt_irrefl, false_iff]
    rintro ⟨g, hg, hkey⟩
    exact hno g hg hkey
  | some g =>
    obtain ⟨hg, hkey⟩ := Store.get?_eq_some_iff.mp hget
    simp only [Option.map_some, Option.getD_some, Nat.cast_pos]
    exact ⟨fun _ => ⟨g, hg, hkey⟩, fun _ => h.counted g hg⟩

theorem mem_skipKeys (key : SkipKey) : key ∈ skipKeys := by
  obtain ⟨scope, reason⟩ := key
  cases scope <;> cases reason <;> decide

/-- The report has the groups in the order of the keys. -/
theorem keys_toReport (h : Tallied groups added) :
    groups.toReport.map (fun g => (g.scope, g.reason)) = skipKeys.filter fun key => 0 < totalOf added key := by
  have hkeys : (groups.rows.map fun g => SkipKey.place (g.scope, g.reason)).Nodup := by
    have hplaces := groups.nodup.map SkipKey.place_injective
    rwa [List.map_map] at hplaces
  have hsorted : skipKeys.Pairwise fun a b => SkipKey.place a < SkipKey.place b := by decide +kernel
  refine eq_of_mem_iff (List.pairwise_map.mpr (sortBy_lt hkeys)) (hsorted.filter _) fun key => ?_
  simp only [List.mem_map, SkipCollector.toReport, mem_sortBy, List.mem_filter, mem_skipKeys, true_and,
    decide_eq_true_eq, totalOf_pos_iff_mem h]

theorem totalOf_perm (h : calls.Perm calls') : totalOf calls key = totalOf calls' key :=
  ((h.filter _).map count).sum_eq

/-- For every sequence of calls: the report has one group for each scope and reason that something was
added for, in the order of the scopes and within a scope of the reasons; each says how much was added
and quotes the first twenty of the names that were added with it; and any other order of the calls makes
the same groups with the same counts. -/
theorem toReport_tally (calls : List SkipCall) :
    let added := additions calls
    let report := (collected calls).toReport
    report.map (fun g => (g.scope, g.reason)) = (skipKeys.filter fun key => 0 < totalOf added key) ∧
    (∀ g ∈ report, (g.count : Int) = totalOf added (g.scope, g.reason) ∧
      g.samples = (samplesOf added (g.scope, g.reason)).take skipSampleLimit) ∧
    ∀ calls', calls.Perm calls' →
      (collected calls').toReport.map SkipGroup.summary = report.map SkipGroup.summary := by
  intro added report
  have h := tallied_collected calls
  refine ⟨keys_toReport h, fun g hg => ?_, fun calls' hperm => ?_⟩
  · have hget : (collected calls).get? (g.scope, g.reason) = some g :=
      Store.get?_eq_some_iff.mpr ⟨mem_sortBy.mp hg, rfl⟩
    refine ⟨?_, ?_⟩
    · rw [← h.count, SkipCollector.countOf, hget]
      rfl
    · rw [← h.samples, quoted, hget]
      rfl
  · have h' := tallied_collected calls'
    refine report_counts h.counted h'.counted fun key => ?_
    have hsum : totalOf (additions calls) key = totalOf (additions calls') key :=
      totalOf_perm (hperm.filter _)
    have hcount := h.count key
    have hcount' := h'.count key
    omega

end Tally
end SkipCall
end Kurul
