import Mathlib.Data.Prod.Lex
import Kurul.JsMap
import Kurul.JsString
import Kurul.Order.SortBy

/-!
# Kurul.Import.SkipCollector

What an import did not carry across, in `(scope, reason)` groups: a count that is never capped and
up to twenty names.

* `tally_addMany`  — a scope's total grows by what is added to it.
* `tally_toReport` — the report's totals are the collector's.
-/

namespace Kurul

open Sql

inductive TrelloImportScope where
  | list | column | card | label | checklist | checklistItem | attachment | member | comment
  deriving DecidableEq

inductive TrelloImportSkipReason where
  | outOfScope | archived | unmappable | unsupportedScheme | malformed | defaulted
  deriving DecidableEq

/-- `Object.values(TrelloImportScope)`. -/
def scopeOrder : List TrelloImportScope :=
  [.list, .column, .card, .label, .checklist, .checklistItem, .attachment, .member, .comment]

/-- `Object.values(TrelloImportSkipReason)`. -/
def reasonOrder : List TrelloImportSkipReason :=
  [.outOfScope, .archived, .unmappable, .unsupportedScheme, .malformed, .defaulted]

def skipSampleLimit : Nat := 20

/-- A group while it is collected, and as the report carries it. -/
structure SkipGroup where
  scope : TrelloImportScope
  reason : TrelloImportSkipReason
  count : Nat
  samples : List JsString

/-- The source joins the two names with a slash, which neither contains. -/
instance : Keyed (TrelloImportScope × TrelloImportSkipReason) SkipGroup :=
  ⟨fun g => (g.scope, g.reason)⟩

abbrev SkipCollector : Type := Store SkipGroup

/-- How much of a list of groups is about one scope. -/
def tally (groups : List SkipGroup) (scope : TrelloImportScope) : Nat :=
  ((groups.filter fun g => g.scope = scope).map SkipGroup.count).sum

namespace SkipCollector

def pushSamples : (samples more : List JsString) → List JsString
  | samples, [] => samples
  | samples, sample :: more =>
    if skipSampleLimit ≤ samples.length then samples
    else if trim sample = [] then pushSamples samples more
    else pushSamples (samples ++ [trim sample]) more

def addMany (groups : SkipCollector) (scope : TrelloImportScope) (reason : TrelloImportSkipReason)
    (count : Nat) (samples : List JsString) : SkipCollector :=
  if count = 0 then groups
  else
    let group := (groups.get? (scope, reason)).getD ⟨scope, reason, 0, []⟩
    groups.put ⟨scope, reason, group.count + count, pushSamples group.samples samples⟩

def add (groups : SkipCollector) (scope : TrelloImportScope) (reason : TrelloImportSkipReason)
    (sample : Option JsString) : SkipCollector :=
  groups.addMany scope reason 1 sample.toList

def toReport (groups : SkipCollector) : List SkipGroup :=
  sortBy (fun g => toLex (scopeOrder.idxOf g.scope, reasonOrder.idxOf g.reason)) groups.rows

end SkipCollector

theorem tally_eq_sum (groups : List SkipGroup) (scope : TrelloImportScope) :
    tally groups scope = (groups.map fun g => if g.scope = scope then g.count else 0).sum := by
  unfold tally
  induction groups with
  | nil => rfl
  | cons g groups ih =>
    by_cases h : g.scope = scope
    · simp [h, ih]
    · simp [h, ih]

theorem tally_perm {groups groups' : List SkipGroup} (h : groups.Perm groups')
    (scope : TrelloImportScope) : tally groups scope = tally groups' scope :=
  ((h.filter _).map SkipGroup.count).sum_nat

@[simp] theorem tally_toReport (groups : SkipCollector) (scope : TrelloImportScope) :
    tally groups.toReport scope = tally groups.rows scope :=
  tally_perm (sortBy_perm _ _) scope

@[simp] theorem tally_addMany (groups : SkipCollector) (scope s : TrelloImportScope)
    (reason : TrelloImportSkipReason) (count : Nat) (samples : List JsString) :
    tally (groups.addMany scope reason count samples).rows s =
      tally groups.rows s + if s = scope then count else 0 := by
  unfold SkipCollector.addMany
  split
  · rename_i h
    simp [h]
  · -- the old group's count is in the new one's
    have hsum := Store.sum_put (fun g : SkipGroup => if g.scope = s then g.count else 0) groups
      ⟨scope, reason, ((groups.get? (scope, reason)).getD ⟨scope, reason, 0, []⟩).count + count,
        SkipCollector.pushSamples ((groups.get? (scope, reason)).getD ⟨scope, reason, 0, []⟩).samples
          samples⟩
    rw [tally_eq_sum, tally_eq_sum]
    change _ + ((groups.get? (scope, reason)).map _).getD 0 = _ at hsum
    have hterm : ∀ n : Nat, (if scope = s then n else 0) = if s = scope then n else 0 := by
      intro n
      simp only [eq_comm]
    cases hg : groups.get? (scope, reason) with
    | none =>
      simp only [hg, Option.map_none, Option.getD_none, Nat.add_zero, Nat.zero_add] at hsum ⊢
      rw [hsum, hterm]
    | some g =>
      have hscope : g.scope = scope := congrArg Prod.fst (Store.key_of_get? hg)
      simp only [hg, Option.map_some, Option.getD_some, hscope, hterm] at hsum ⊢
      by_cases hs : s = scope
      · simp only [if_pos hs] at hsum ⊢
        omega
      · simp only [if_neg hs] at hsum ⊢
        omega

end Kurul
