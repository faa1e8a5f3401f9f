import Mathlib.Logic.Function.Basic
import Kurul.Import.PlanRows

/-!
# Kurul.Import.PlanTwice

The planner run twice, on exports that differ in the order of their sections. `Plan.Both` is the rule
two runs compose by: they have issued equally many identifiers and counted the same skips. `Added`
is what a stretch that only skips does to one of them.

* `report_counts` — the report's groups and counts are read off the counts alone.
-/

namespace Kurul

open Plan Sql

/-! ## Counts -/

/-- What a group of skips is collected under. -/
abbrev SkipKey : Type := TrelloImportScope × TrelloImportSkipReason

namespace SkipCollector

/-- How often something was skipped for one reason. -/
def countOf (groups : SkipCollector) (key : SkipKey) : Nat :=
  ((groups.get? key).map SkipGroup.count).getD 0

/-- No group is empty. -/
def Counted (groups : SkipCollector) : Prop := ∀ g ∈ groups.rows, 0 < g.count

variable {groups : SkipCollector} {scope : TrelloImportScope} {reason : TrelloImportSkipReason}
  {count : Nat} {samples : List JsString}

theorem countOf_addMany (key : SkipKey) : (groups.addMany scope reason count samples).countOf key =
    groups.countOf key + if key = (scope, reason) then count else 0 := by
  unfold addMany
  split
  case isTrue h => simp [h]
  case isFalse h =>
    have hput := Store.get?_put groups ⟨scope, reason, ((groups.get? (scope, reason)).getD
      ⟨scope, reason, 0, []⟩).count + count, pushSamples ((groups.get? (scope, reason)).getD
      ⟨scope, reason, 0, []⟩).samples samples⟩ key
    change _ = if key = (scope, reason) then _ else _ at hput
    simp only [countOf, hput]
    by_cases hkey : key = (scope, reason)
    · subst hkey
      cases groups.get? (scope, reason) <;> simp
    · simp [hkey]

theorem Counted.addMany (h : groups.Counted) : (groups.addMany scope reason count samples).Counted := by
  unfold SkipCollector.addMany
  split
  case isTrue => exact h
  case isFalse hcount =>
    intro g hg
    rcases Store.mem_rows_put.mp hg with rfl | ⟨hg, _⟩
    · exact Nat.add_pos_right _ (Nat.pos_of_ne_zero hcount)
    · exact h g hg

end SkipCollector

open SkipCollector

/-- A group without its samples. -/
def SkipGroup.summary (g : SkipGroup) : SkipKey × Nat := ((g.scope, g.reason), g.count)

/-- Where a group stands in the report. -/
def SkipKey.place (key : SkipKey) : ℕ ×ₗ ℕ :=
  toLex (scopeOrder.idxOf key.1, reasonOrder.idxOf key.2)

theorem SkipKey.place_injective : Function.Injective SkipKey.place := by
  have hscope : ∀ a b : TrelloImportScope, scopeOrder.idxOf a = scopeOrder.idxOf b → a = b := by
    intro a b
    cases a <;> cases b <;> decide
  have hreason : ∀ a b : TrelloImportSkipReason, reasonOrder.idxOf a = reasonOrder.idxOf b → a = b := by
    intro a b
    cases a <;> cases b <;> decide
  intro a b h
  obtain ⟨hs, hr⟩ := Prod.mk.inj (toLex.injective h)
  exact Prod.ext (hscope _ _ hs) (hreason _ _ hr)

/-- Two collectors with the same counts make reports that differ in their samples only. -/
theorem report_counts {groups groups' : SkipCollector} (hpos : groups.Counted)
    (hpos' : groups'.Counted) (h : ∀ key, groups'.countOf key = groups.countOf key) :
    groups'.toReport.map SkipGroup.summary = groups.toReport.map SkipGroup.summary := by
  have hsorted : ∀ groups : SkipCollector, (groups.toReport.map SkipGroup.summary).Pairwise
      fun a b => SkipKey.place a.1 < SkipKey.place b.1 := by
    intro groups
    refine List.pairwise_map.mpr (sortBy_lt ?_)
    have hkeys : (groups.rows.map fun g => (g.scope, g.reason)).Nodup := groups.nodup
    have hplaces := hkeys.map SkipKey.place_injective
    rwa [List.map_map] at hplaces
  have hmem : ∀ groups : SkipCollector, groups.Counted → ∀ e : SkipKey × Nat,
      e ∈ groups.toReport.map SkipGroup.summary ↔ groups.countOf e.1 = e.2 ∧ 0 < e.2 := by
    intro groups hpos e
    simp only [List.mem_map, toReport, mem_sortBy]
    constructor
    · rintro ⟨g, hg, rfl⟩
      have hget : groups.get? (g.scope, g.reason) = some g :=
        Store.get?_eq_some_iff.mpr ⟨hg, rfl⟩
      exact ⟨by simp [countOf, SkipGroup.summary, hget], hpos g hg⟩
    · rintro ⟨hcount, hpos⟩
      cases hget : groups.get? e.1 with
      | none =>
        simp only [countOf, hget] at hcount
        exact absurd hpos (by simp [← hcount])
      | some g =>
        obtain ⟨hg, hkey⟩ := Store.get?_eq_some_iff.mp hget
        refine ⟨g, hg, Prod.ext hkey ?_⟩
        simpa [countOf, hget, SkipGroup.summary] using hcount
  refine eq_of_mem_iff (hsorted groups') (hsorted groups) fun e => ?_
  rw [hmem groups' hpos', hmem groups hpos, h]

/-! ## Stretches that skip -/

/-- Between two states this many identifiers were issued and these skips were added. -/
structure Added (s s' : PlanState) (issued : Nat) (keys : List SkipKey) : Prop where
  issued : s'.issued = s.issued + issued
  counts : ∀ key, s'.skips.countOf key = s.skips.countOf key + keys.count key
  counted : s.skips.Counted → s'.skips.Counted

namespace Added

variable {s s' s'' : PlanState} {n n' : Nat} {keys keys' : List SkipKey}

theorem refl : Added s s 0 [] := ⟨rfl, fun _ => rfl, id⟩

theorem trans (h : Added s s' n keys) (h' : Added s' s'' n' keys') :
    Added s s'' (n + n') (keys ++ keys') := by
  refine ⟨by rw [h'.issued, h.issued, Nat.add_assoc], fun key => ?_, h'.counted ∘ h.counted⟩
  rw [h'.counts, h.counts, List.count_append, Nat.add_assoc]

/-- Skipping before the rest. -/
theorem trans_skip {key : SkipKey} (h : Added s s' 0 [key]) (h' : Added s' s'' n keys) :
    Added s s'' n (key :: keys) := by
  have := h.trans h'
  rwa [Nat.zero_add] at this

theorem skip (scope : TrelloImportScope) (reason : TrelloImportSkipReason) (sample : Option JsString) :
    Added s (Plan.skip scope reason sample s).2 0 [(scope, reason)] := by
  refine ⟨rfl, fun key => ?_, Counted.addMany⟩
  refine (countOf_addMany key).trans ?_
  by_cases hkey : key = (scope, reason)
  · simp [hkey]
  · simp [hkey, Ne.symm hkey]

theorem newId (uuidv7 : Nat → Id) : Added s (Plan.newId uuidv7 s).2 1 [] :=
  ⟨rfl, fun _ => rfl, id⟩

end Added

theorem addIssues_added (issues : List TrelloReadIssue) : ∀ s,
    Added s (addIssues issues s).2 0 (issues.map fun issue => (issue.scope, issue.reason)) := by
  induction issues with
  | nil => exact fun _ => .refl
  | cons issue rest ih => exact fun s => (Added.skip _ _ _).trans_skip (ih _)

/-- Why a list becomes no column. -/
def TrelloList.skipped (list : TrelloList) : Option SkipKey :=
  if list.closed then some (.list, .archived)
  else if isUnnamed list.name then some (.list, .malformed)
  else none

theorem sortLists_added (lists : List TrelloList) : ∀ s,
    Added s (sortLists lists s).2 0 (lists.filterMap TrelloList.skipped) := by
  induction lists with
  | nil => exact fun _ => .refl
  | cons list rest ih =>
    intro s
    by_cases hc : list.closed = true
    · simpa [sortLists, hc, TrelloList.skipped] using (Added.skip _ _ _).trans_skip (ih _)
    · by_cases hn : isUnnamed list.name = true
      · simpa [sortLists, hc, hn, TrelloList.skipped] using (Added.skip _ _ _).trans_skip (ih _)
      · simpa [sortLists, hc, hn, TrelloList.skipped] using ih s

/-- The archived lists, by id. -/
theorem sortLists_archived (lists : List TrelloList) : ∀ s,
    (sortLists lists s).1.2 = (lists.filter TrelloList.closed).map TrelloList.id := by
  induction lists with
  | nil => exact fun _ => rfl
  | cons list rest ih =>
    intro s
    by_cases hc : list.closed = true
    · simp [sortLists, hc, ih]
    · by_cases hn : isUnnamed list.name = true
      · simp [sortLists, hc, hn, ih]
      · simp [sortLists, hc, hn, ih]

/-- Why an entry that is given no place is skipped. -/
def skippedBy {κ α : Type} (scope : TrelloImportScope) (place : α → Except TrelloImportSkipReason κ)
    (entry : α) : Option SkipKey :=
  match place entry with
  | .error reason => some (scope, reason)
  | .ok _ => none

theorem sortCards_added {columnIdByTrelloId : JsMap JsString Id} {archivedListIds : List JsString}
    (cards : List TrelloCard) : ∀ sorted s,
    Added s (sortCards columnIdByTrelloId archivedListIds cards sorted s).2 0
      (cards.filterMap (skippedBy .card (cardColumn columnIdByTrelloId archivedListIds))) := by
  induction cards with
  | nil => exact fun _ _ => .refl
  | cons card rest ih =>
    intro sorted s
    cases hp : cardColumn columnIdByTrelloId archivedListIds card with
    | error reason =>
      simpa [sortCards, hp, skippedBy] using (Added.skip _ _ _).trans_skip (ih _ _)
    | ok columnId => simpa [sortCards, hp, skippedBy] using ih _ s

theorem sortChecklists_added {taskIdByTrelloCardId : JsMap JsString Id}
    {skippedCardReasons : JsMap JsString TrelloImportSkipReason}
    (checklists : List TrelloChecklist) : ∀ byTask s,
    Added s (sortChecklists taskIdByTrelloCardId skippedCardReasons checklists byTask s).2 0
      (checklists.filterMap (skippedBy .checklist
        (checklistTask taskIdByTrelloCardId skippedCardReasons))) := by
  induction checklists with
  | nil => exact fun _ _ => .refl
  | cons checklist rest ih =>
    intro byTask s
    cases hp : checklistTask taskIdByTrelloCardId skippedCardReasons checklist with
    | error reason =>
      simpa [sortChecklists, hp, skippedBy] using (Added.skip _ _ _).trans_skip (ih _ _)
    | ok taskId => simpa [sortChecklists, hp, skippedBy] using ih _ s

/-- Under its id, why a card becomes no task. -/
def reasonEntry (place : TrelloCard → Except TrelloImportSkipReason Id) (card : TrelloCard) :
    Option (JsString × TrelloImportSkipReason) :=
  match place card with
  | .error reason => some (card.id, reason)
  | .ok _ => none

/-- The reasons cards were skipped for, card by card. -/
theorem sortCards_reasons {columnIdByTrelloId : JsMap JsString Id} {archivedListIds : List JsString}
    (cards : List TrelloCard) : ∀ sorted s,
    (sortCards columnIdByTrelloId archivedListIds cards sorted s).1.skippedCardReasons =
      sorted.skippedCardReasons.setAll
        (cards.filterMap (reasonEntry (cardColumn columnIdByTrelloId archivedListIds))) := by
  induction cards with
  | nil => exact fun _ _ => rfl
  | cons card rest ih =>
    intro sorted s
    cases hp : cardColumn columnIdByTrelloId archivedListIds card with
    | error reason => simp [sortCards, hp, reasonEntry, ih]
    | ok columnId => simp [sortCards, hp, reasonEntry, ih]

/-! ## Labels -/

section Labels

variable {rt : Runtime} {uuidv7 : Nat → Id} {boardId : Id}

/-- The row of a label under the identifier issued for its place. -/
def labelRow (rt : Runtime) (uuidv7 : Nat → Id) (boardId : Id) (start : Nat)
    (labels : List TrelloLabel) (label : TrelloLabel) : PlannedLabel :=
  ⟨uuidv7 (start + (labels.map TrelloLabel.id).idxOf label.id), boardId, labelName label,
    (trelloColorToSlot rt label.color).slot⟩

/-- Whether a label is reported. -/
def TrelloLabel.reported (rt : Runtime) (label : TrelloLabel) : Option SkipKey :=
  if (trelloColorToSlot rt label.color).defaulted || isUnnamed label.name then
    some (.label, .defaulted)
  else none

variable (rt uuidv7 boardId) in
theorem planLabels_added (labels : List TrelloLabel) : ∀ byId s,
    Added s (planLabels rt uuidv7 boardId labels byId s).2 labels.length
      (labels.filterMap (TrelloLabel.reported rt)) := by
  induction labels with
  | nil => exact fun _ _ => .refl
  | cons label rest ih =>
    intro byId s
    rw [List.length_cons, Nat.add_comm]
    by_cases hd : ((trelloColorToSlot rt label.color).defaulted || isUnnamed label.name) = true
    · simp only [planLabels, bind_apply, hd, if_true, List.filterMap_cons, TrelloLabel.reported]
      exact (Added.newId uuidv7).trans ((Added.skip _ _ _).trans_skip (ih _ _))
    · simp only [planLabels, bind_apply, hd, List.filterMap_cons, TrelloLabel.reported]
      exact (Added.newId uuidv7).trans (ih _ _)

/-- Labels under distinct ids are numbered in their order. -/
theorem planLabels_numbered (labels : List TrelloLabel) (hnd : (labels.map TrelloLabel.id).Nodup) :
    ∀ byId s, (planLabels rt uuidv7 boardId labels byId s).1.1 =
        labels.map (labelRow rt uuidv7 boardId s.issued labels) ∧
      (∀ k, (planLabels rt uuidv7 boardId labels byId s).1.2.get k =
        if k ∈ labels.map TrelloLabel.id then
          some (uuidv7 (s.issued + (labels.map TrelloLabel.id).idxOf k)) else byId.get k) := by
  induction labels with
  | nil => exact fun _ _ => ⟨rfl, fun _ => rfl⟩
  | cons label rest ih =>
    intro byId s
    rw [List.map_cons, List.nodup_cons] at hnd
    obtain ⟨_, s₁, hbooks, heq⟩ := planLabels_cons rt boardId label rest byId s
    obtain ⟨n, hn, hids⟩ := hbooks.issued
    obtain rfl : n = 1 := by simpa using hids.length_eq.symm
    obtain ⟨hrows, hget⟩ := ih hnd.2 (byId.set label.id (newId uuidv7 s).1) s₁
    -- the rest is numbered from the next place on
    have hidx : ∀ k ∈ rest.map TrelloLabel.id,
        s₁.issued + (rest.map TrelloLabel.id).idxOf k =
          s.issued + ((label :: rest).map TrelloLabel.id).idxOf k := by
      intro k hk
      have hne : label.id ≠ k := fun h => hnd.1 (h ▸ hk)
      rw [List.map_cons, List.idxOf_cons_ne _ hne, hn]
      omega
    rw [heq]
    refine ⟨?_, fun k => ?_⟩
    · rw [List.map_cons]
      refine congrArg₂ List.cons (by simp [labelRow, newId]) ?_
      rw [hrows]
      refine List.map_congr_left fun other hother => ?_
      rw [labelRow, labelRow, hidx _ (List.mem_map_of_mem hother)]
    · rw [hget, JsMap.get_set, List.map_cons]
      by_cases hk : k ∈ rest.map TrelloLabel.id
      · rw [if_pos hk, if_pos (List.mem_cons_of_mem _ hk), hidx k hk, List.map_cons]
      · by_cases hlabel : k = label.id
        · subst hlabel
          simp [hk, newId]
        · simp [hk, hlabel]

end Labels

/-! ## Two runs side by side -/

/-- Two runs have come equally far, past the first `lo` identifiers. -/
structure Alike (lo : Nat) (s s' : PlanState) : Prop where
  issued : s'.issued = s.issued
  past : lo ≤ s.issued
  counts : ∀ key, s'.skips.countOf key = s.skips.countOf key
  counted : s.skips.Counted ∧ s'.skips.Counted

theorem Alike.added {lo n : Nat} {s s' t t' : PlanState} {keys keys' : List SkipKey}
    (h : Alike lo s s') (ht : Added s t n keys) (ht' : Added s' t' n keys') (hp : keys'.Perm keys) :
    Alike lo t t' := by
  refine ⟨by rw [ht'.issued, ht.issued, h.issued], ?_, fun key => ?_,
    ht.counted h.counted.1, ht'.counted h.counted.2⟩
  · have := h.past
    rw [ht.issued]
    omega
  · rw [ht'.counts, ht.counts, h.counts, hp.count_eq]

namespace Plan

variable {α α' β β' : Type} {lo : Nat}

/-- What two stretches give, run side by side. -/
def Both (lo : Nat) (p : Plan α) (p' : Plan α') (Q : α → α' → Prop) : Prop :=
  ∀ s s', Alike lo s s' → Q (p s).1 (p' s').1 ∧ Alike lo (p s).2 (p' s').2

variable {p : Plan α} {p' : Plan α'} {f : α → Plan β} {f' : α' → Plan β'} {P Q : α → α' → Prop}
  {R : β → β' → Prop}

theorem both_pure {a : α} {a' : α'} (h : Q a a') : Both lo (pure a) (pure a') Q :=
  fun _ _ hs => ⟨h, hs⟩

theorem Both.bind (h : Both lo p p' Q) (hf : ∀ a a', Q a a' → Both lo (f a) (f' a') R) :
    Both lo (p >>= f) (p' >>= f') R := by
  intro s s' hs
  obtain ⟨hQ, hs'⟩ := h s s' hs
  exact hf _ _ hQ _ _ hs'

theorem Both.mono (h : Both lo p p' P) (hQ : ∀ a a', P a a' → Q a a') : Both lo p p' Q :=
  fun s s' hs => ⟨hQ _ _ (h s s' hs).1, (h s s' hs).2⟩

theorem both_skip (scope : TrelloImportScope) (reason : TrelloImportSkipReason)
    (sample sample' : Option JsString) :
    Both lo (skip scope reason sample) (skip scope reason sample') fun _ _ => True :=
  fun _ _ hs => ⟨trivial, hs.added (.skip _ _ _) (.skip _ _ _) (.refl _)⟩

end Plan

/-! ## Renaming -/

section Rename

variable (f : Id → Id)

def PlannedColumn.rename (c : PlannedColumn) : PlannedColumn :=
  { c with id := f c.id, boardId := f c.boardId }

def PlannedLabel.rename (l : PlannedLabel) : PlannedLabel :=
  { l with id := f l.id, boardId := f l.boardId }

/-- Its creator is not made by the import. -/
def PlannedTask.rename (t : PlannedTask) : PlannedTask :=
  { t with id := f t.id, boardId := f t.boardId, columnId := f t.columnId }

def renameTaskLabel (r : TaskLabelRow) : TaskLabelRow :=
  { r with id := f r.id, taskId := f r.taskId, labelId := f r.labelId }

def renameChecklist (c : ChecklistRow) : ChecklistRow := { c with id := f c.id, taskId := f c.taskId }

def renameItem (i : ChecklistItemRow) : ChecklistItemRow :=
  { i with id := f i.id, checklistId := f i.checklistId }

def PlannedAttachment.rename (a : PlannedAttachment) : PlannedAttachment :=
  { a with id := f a.id, taskId := f a.taskId }

def TaskRows.rename (rows : TaskRows) : TaskRows :=
  ⟨rows.tasks.map (PlannedTask.rename f), rows.taskLabels.map (renameTaskLabel f),
    rows.attachments.map (PlannedAttachment.rename f)⟩

/-- A map that answers with the renamed identifiers. -/
def RenamedMap (m m' : JsMap JsString Id) : Prop := ∀ k, m'.get k = (m.get k).map f

end Rename

/-- A renaming of what one generator issues, from `lo` on to what the other issues in its place. -/
structure Renaming (uuidv7 uuidv7' : Nat → Id) (lo : Nat) (f : Id → Id) : Prop where
  issued : ∀ n, lo ≤ n → f (uuidv7 n) = uuidv7' n
  inj : Set.InjOn f (Set.range uuidv7)

section Both

variable {rt : Runtime} {uuidv7 uuidv7' : Nat → Id} {actorId boardId : Id} {lo : Nat} {f : Id → Id}
  (hf : Renaming uuidv7 uuidv7' lo f)

theorem RenamedMap.set {m m' : JsMap JsString Id} (h : RenamedMap f m m') (k : JsString) (v : Id) :
    RenamedMap f (m.set k v) (m'.set k (f v)) := by
  intro k'
  rw [JsMap.get_set, JsMap.get_set]
  split
  · rfl
  · exact h k'

include hf

theorem both_newId : Both lo (newId uuidv7) (newId uuidv7') fun id id' =>
    id' = f id ∧ id ∈ Set.range uuidv7 := by
  intro s s' hs
  refine ⟨⟨?_, s.issued, rfl⟩, hs.added (.newId _) (.newId _) (.refl _)⟩
  change uuidv7' s'.issued = f (uuidv7 s.issued)
  rw [hf.issued _ hs.past, hs.issued]

theorem planTaskLabels_both {m m' : JsMap JsString Id} (hm : RenamedMap f m m')
    (hrange : ∀ k v, m.get k = some v → v ∈ Set.range uuidv7) (cardName : JsString) (taskId : Id)
    (ids : List JsString) : ∀ attached : List Id, (∀ v ∈ attached, v ∈ Set.range uuidv7) →
    Both lo (planTaskLabels uuidv7 m cardName taskId attached ids)
      (planTaskLabels uuidv7' m' cardName (f taskId) (attached.map f) ids)
      fun rows rows' => rows' = rows.map (renameTaskLabel f) := by
  induction ids with
  | nil => exact fun _ _ => both_pure rfl
  | cons id rest ih =>
    intro attached hattached
    have hget := hm id
    cases hid : m.get id with
    | none =>
      rw [hid, Option.map_none] at hget
      simp only [planTaskLabels, hid, hget]
      exact (both_skip _ _ _ _).bind fun _ _ _ => ih attached hattached
    | some labelId =>
      rw [hid, Option.map_some] at hget
      have hlabel := hrange id labelId hid
      have hmem : f labelId ∈ attached.map f ↔ labelId ∈ attached := by
        refine ⟨fun h => ?_, List.mem_map_of_mem⟩
        obtain ⟨v, hv, heq⟩ := List.mem_map.mp h
        exact hf.inj (hattached v hv) hlabel heq ▸ hv
      simp only [planTaskLabels, hid, hget, hmem]
      split
      · exact ih attached hattached
      · refine (both_newId hf).bind fun id id' hid' => ?_
        rw [show attached.map f ++ [f labelId] = (attached ++ [labelId]).map f by simp]
        refine (ih (attached ++ [labelId]) fun v hv => ?_).bind fun rows rows' hrows => both_pure ?_
        · rcases List.mem_append.mp hv with hv | hv
          · exact hattached v hv
          · exact List.mem_singleton.mp hv ▸ hlabel
        · rw [hrows, hid'.1]
          rfl

theorem planAttachments_both (taskId : Id) (attachments : List TrelloAttachment) :
    Both lo (planAttachments rt uuidv7 actorId taskId attachments)
      (planAttachments rt uuidv7' actorId (f taskId) attachments)
      fun rows rows' => rows' = rows.map (PlannedAttachment.rename f) := by
  induction attachments with
  | nil => exact both_pure rfl
  | cons attachment rest ih =>
    cases hu : classifyUrl rt attachment.url with
    | error reason =>
      simp only [planAttachments, hu]
      exact (both_skip _ _ _ _).bind fun _ _ _ => ih
    | ok url =>
      simp only [planAttachments, hu]
      refine (both_newId hf).bind fun id id' hid => ih.bind fun rows rows' hrows => both_pure ?_
      rw [hrows, hid.1]
      rfl

theorem planCards_both {m m' : JsMap JsString Id} (hm : RenamedMap f m m')
    (hrange : ∀ k v, m.get k = some v → v ∈ Set.range uuidv7) (columnId : Id) (count : Nat)
    (cards : List TrelloCard) : ∀ index byId byId', RenamedMap f byId byId' →
    Both lo (planCards rt uuidv7 actorId boardId m columnId count index cards byId)
      (planCards rt uuidv7' actorId (f boardId) m' (f columnId) count index cards byId')
      fun r r' => r'.1 = r.1.rename f ∧ RenamedMap f r.2 r'.2 := by
  induction cards with
  | nil => exact fun _ _ _ hmap => both_pure ⟨rfl, hmap⟩
  | cons card rest ih =>
    intro index byId byId' hmap
    refine (both_newId hf).bind fun taskId taskId' hid => ?_
    obtain ⟨rfl, _⟩ := hid
    refine (planTaskLabels_both hf hm hrange card.name taskId card.idLabels [] (by simp)).bind
      fun labels labels' hlabels => (planAttachments_both hf taskId card.attachments).bind
      fun links links' hlinks => (ih (index + 1) _ _ (hmap.set card.id taskId)).bind
      fun r r' hr => both_pure ⟨?_, hr.2⟩
    rw [hlabels, hlinks, hr.1]
    simp only [TaskRows.append, TaskRows.rename, List.map_append, List.map_cons, List.map_nil]
    rfl

theorem planTasks_both {m m' : JsMap JsString Id} (hm : RenamedMap f m m')
    (hrange : ∀ k v, m.get k = some v → v ∈ Set.range uuidv7)
    {cardsByColumnId cardsByColumnId' : JsMap Id (List TrelloCard)} (columns : List PlannedColumn)
    (hcards : ∀ column ∈ columns, orderedByPos (cardsByColumnId'.all (f column.id)) =
      orderedByPos (cardsByColumnId.all column.id)) :
    ∀ byId byId', RenamedMap f byId byId' →
    Both lo (planTasks rt uuidv7 actorId boardId m cardsByColumnId columns byId)
      (planTasks rt uuidv7' actorId (f boardId) m' cardsByColumnId'
        (columns.map (PlannedColumn.rename f)) byId')
      fun r r' => r'.1 = r.1.rename f ∧ RenamedMap f r.2 r'.2 := by
  induction columns with
  | nil => exact fun _ _ hmap => both_pure ⟨rfl, hmap⟩
  | cons column rest ih =>
    intro byId byId' hmap
    have hcolumn := hcards column List.mem_cons_self
    simp only [List.map_cons, planTasks]
    rw [show (column.rename f).id = f column.id from rfl, hcolumn]
    refine (planCards_both hf hm hrange column.id _ _ 0 byId byId' hmap).bind fun r r' hr =>
      (ih (fun c hc => hcards c (List.mem_cons_of_mem _ hc)) _ _ hr.2).bind
      fun more more' hmore => both_pure ⟨?_, hmore.2⟩
    rw [hr.1, hmore.1]
    simp only [TaskRows.append, TaskRows.rename, List.map_append]

omit hf in
theorem usableItems_both (items : List TrelloCheckItem) :
    Both lo (usableItems items) (usableItems items) fun usable usable' => usable' = usable := by
  induction items with
  | nil => exact both_pure rfl
  | cons item rest ih =>
    by_cases hn : isUnnamed item.name = true
    · simp only [usableItems, hn, if_true]
      exact (both_skip _ _ _ _).bind fun _ _ _ => ih
    · simp only [usableItems, hn]
      exact ih.bind fun usable usable' h => both_pure (by rw [h])

theorem planItems_both (checklistId : Id) (count : Nat) (items : List TrelloCheckItem) : ∀ index,
    Both lo (planItems uuidv7 checklistId count index items)
      (planItems uuidv7' (f checklistId) count index items)
      fun rows rows' => rows' = rows.map (renameItem f) := by
  induction items with
  | nil => exact fun _ => both_pure rfl
  | cons item rest ih =>
    intro index
    refine (both_newId hf).bind fun id id' hid => (ih _).bind fun rows rows' hrows => both_pure ?_
    rw [hrows, hid.1]
    rfl

/-- Checklists that are planned alike. -/
structure TrelloChecklist.PlannedAs (k k' : TrelloChecklist) : Prop where
  name : k'.name = k.name
  items : orderedByPos k'.checkItems = orderedByPos k.checkItems

theorem planTaskChecklists_both (taskId : Id) (count : Nat) {checklists checklists' : List TrelloChecklist}
    (hlists : List.Forall₂ TrelloChecklist.PlannedAs checklists checklists') : ∀ index,
    Both lo (planTaskChecklists uuidv7 taskId count index checklists)
      (planTaskChecklists uuidv7' (f taskId) count index checklists')
      fun r r' => r' = (r.1.map (renameChecklist f), r.2.map (renameItem f)) := by
  induction hlists with
  | nil => exact fun _ => both_pure rfl
  | cons h _ ih =>
    intro index
    simp only [planTaskChecklists]
    rw [h.name, h.items]
    refine (both_newId hf).bind fun id id' hid => ?_
    obtain ⟨rfl, _⟩ := hid
    refine (usableItems_both _).bind fun usable usable' husable => ?_
    subst husable
    refine (planItems_both hf id usable'.length usable' 0).bind fun items items' hitems =>
      (ih (index + 1)).bind fun r r' hr => both_pure ?_
    rw [hitems, hr]
    simp only [List.map_cons, List.map_append]
    rfl

theorem planChecklists_both {byTask byTask' : JsMap Id (List TrelloChecklist)}
    (tasks : List PlannedTask) (hlists : ∀ task ∈ tasks, List.Forall₂ TrelloChecklist.PlannedAs
      (orderedByPos (byTask.all task.id)) (orderedByPos (byTask'.all (f task.id)))) :
    Both lo (planChecklists uuidv7 byTask tasks)
      (planChecklists uuidv7' byTask' (tasks.map (PlannedTask.rename f)))
      fun r r' => r' = (r.1.map (renameChecklist f), r.2.map (renameItem f)) := by
  induction tasks with
  | nil => exact both_pure rfl
  | cons task rest ih =>
    have htask := hlists task List.mem_cons_self
    simp only [List.map_cons, planChecklists]
    rw [show (task.rename f).id = f task.id from rfl, ← htask.length_eq]
    refine (planTaskChecklists_both hf task.id _ htask 0).bind fun r r' hr =>
      (ih fun t ht => hlists t (List.mem_cons_of_mem _ ht)).bind fun more more' hmore =>
      both_pure ?_
    rw [hr, hmore]
    simp only [List.map_append]

end Both

/-! ## Columns -/

section Columns

variable {uuidv7 uuidv7' : Nat → Id} {boardId : Id} {f : Id → Id}

/-- The columns take as many identifiers as there are lists. -/
theorem planColumns_added (count : Nat) (lists : List TrelloList) : ∀ index byId s,
    Added s (planColumns uuidv7 boardId count index lists byId s).2 lists.length [] := by
  induction lists with
  | nil => exact fun _ _ _ => .refl
  | cons list rest ih =>
    intro index byId s
    rw [List.length_cons, Nat.add_comm]
    exact (Added.newId uuidv7).trans (ih _ _ _)

/-- The same lists, planned in two runs that have issued equally many identifiers. -/
theorem planColumns_both (count : Nat) (lists : List TrelloList) : ∀ index byId byId' s s',
    s'.issued = s.issued → RenamedMap f byId byId' →
    (∀ n, s.issued ≤ n → n < s.issued + lists.length → f (uuidv7 n) = uuidv7' n) →
    let r := planColumns uuidv7 boardId count index lists byId s
    let r' := planColumns uuidv7' (f boardId) count index lists byId' s'
    r'.1.1 = r.1.1.map (PlannedColumn.rename f) ∧ RenamedMap f r.1.2 r'.1.2 := by
  induction lists with
  | nil => exact fun _ _ _ _ _ _ hmap _ => ⟨rfl, hmap⟩
  | cons list rest ih =>
    intro index byId byId' s s' hs hmap hf
    have hid : uuidv7' s'.issued = f (uuidv7 s.issued) := by
      rw [hf s.issued (by omega) (by simp), hs]
    have hset := hmap.set list.id (uuidv7 s.issued)
    rw [← hid] at hset
    obtain ⟨hrows, hmap'⟩ := ih (index + 1) _ _ (newId uuidv7 s).2 (newId uuidv7' s').2
      (by simp [newId, hs]) hset fun n hn hlt => hf n (by simp only [newId] at hn; omega)
        (by simp only [newId, List.length_cons] at hlt ⊢; omega)
    refine ⟨?_, hmap'⟩
    refine congrArg₂ List.cons ?_ hrows
    simp only [PlannedColumn.rename, newId, hid]

end Columns

end Kurul
