import Kurul.Import.PlanTwice

/-!
# Kurul.Import.Shuffled

Exports that hold the same entries in another order, and what the planner makes of them: the same
plan, up to the identifiers and the order of the labels.

* `relabel_injective` — where a label's identifier goes when the labels are reordered.
* `plan_shuffled`     — the two plans and their reports.
-/

namespace Kurul

open Plan

/-! ## Reordered exports -/

/-- A checklist with its items in another order. -/
structure TrelloChecklist.Reordered (k k' : TrelloChecklist) : Prop where
  id : k'.id = k.id
  idCard : k'.idCard = k.idCard
  name : k'.name = k.name
  pos : k'.pos = k.pos
  checkItems : k'.checkItems.Perm k.checkItems

/-- An export with its lists, cards, labels, checklists and their items in another order. -/
structure TrelloExport.Shuffled (source source' : TrelloExport) : Prop where
  name : source'.name = source.name
  desc : source'.desc = source.desc
  lists : source'.lists.Perm source.lists
  cards : source'.cards.Perm source.cards
  labels : source'.labels.Perm source.labels
  checklists : ∃ reordered, List.Forall₂ TrelloChecklist.Reordered source.checklists reordered ∧
    source'.checklists.Perm reordered
  commentCount : source'.commentCount = source.commentCount
  memberCount : source'.memberCount = source.memberCount

/-- Ids are distinct within each section. -/
structure TrelloExport.DistinctIds (source : TrelloExport) : Prop where
  lists : (source.lists.map TrelloList.id).Nodup
  cards : (source.cards.map TrelloCard.id).Nodup
  labels : (source.labels.map TrelloLabel.id).Nodup
  checklists : (source.checklists.map TrelloChecklist.id).Nodup
  checkItems : ∀ k ∈ source.checklists, (k.checkItems.map TrelloCheckItem.id).Nodup

/-- The same plan under other identifiers, its labels in another order, its report with other
samples. -/
structure TrelloImportPlan.RenamedBy (f : Id → Id) (plan plan' : TrelloImportPlan) : Prop where
  board : plan'.board = { plan.board with id := f plan.board.id }
  columns : plan'.columns = plan.columns.map (PlannedColumn.rename f)
  labels : plan'.labels.Perm (plan.labels.map (PlannedLabel.rename f))
  tasks : plan'.tasks = plan.tasks.map (PlannedTask.rename f)
  taskLabels : plan'.taskLabels = plan.taskLabels.map (renameTaskLabel f)
  checklists : plan'.checklists = plan.checklists.map (renameChecklist f)
  checklistItems : plan'.checklistItems = plan.checklistItems.map (renameItem f)
  attachments : plan'.attachments = plan.attachments.map (PlannedAttachment.rename f)
  skipped : plan'.skipped.map SkipGroup.summary = plan.skipped.map SkipGroup.summary

/-! ## Order -/

section Order

variable {T : Type} [HasPos T]

theorem posKey_nodup {rows : List T} (h : (rows.map HasPos.id).Nodup) : (rows.map posKey).Nodup := by
  refine List.Nodup.of_map (fun key : WithTop ℚ ×ₗ JsString => (ofLex key).2) ?_
  rw [List.map_map]
  exact h

/-- Entries under distinct ids have one order. -/
theorem orderedByPos_congr {rows rows' : List T} (hp : rows'.Perm rows)
    (h : (rows.map HasPos.id).Nodup) : orderedByPos rows' = orderedByPos rows :=
  sortBy_eq ((sortBy_perm _ _).trans hp.symm) (sortBy_lt (posKey_nodup h))

/-- Entries that are matched one to one with the same keys are matched in their orders. -/
theorem orderedByPos_forall₂ {r : T → T → Prop} {rows rows' : List T} (h : List.Forall₂ r rows rows')
    (hkey : ∀ a b, r a b → posKey b = posKey a) (hnd : (rows.map HasPos.id).Nodup) :
    List.Forall₂ r (orderedByPos rows) (orderedByPos rows') := by
  have hfst : (rows.zip rows').map Prod.fst = rows := List.map_fst_zip h.length_eq.le
  have hsnd : (rows.zip rows').map Prod.snd = rows' := List.map_snd_zip h.length_eq.ge
  have hzip : ∀ e ∈ rows.zip rows', r e.1 e.2 := fun e he => (List.forall₂_iff_zip.mp h).2 he
  -- both are the pairs, sorted by the key of either half
  have hpairs : sortBy (fun e : T × T => posKey e.2) (rows.zip rows') =
      sortBy (fun e : T × T => posKey e.1) (rows.zip rows') := by
    have hkeys : ((rows.zip rows').map fun e : T × T => posKey e.1).Nodup := by
      have := posKey_nodup hnd
      rwa [← hfst, List.map_map] at this
    refine sortBy_eq (sortBy_perm _ _) ((sortBy_lt hkeys).imp_of_mem fun {a b} ha hb hab => ?_)
    rwa [hkey _ _ (hzip a (mem_sortBy.mp ha)), hkey _ _ (hzip b (mem_sortBy.mp hb))]
  have hleft : orderedByPos rows =
      (sortBy (fun e : T × T => posKey e.1) (rows.zip rows')).map Prod.fst := by
    conv_lhs => rw [← hfst]
    exact sortBy_map _ _ _
  have hright : orderedByPos rows' =
      (sortBy (fun e : T × T => posKey e.1) (rows.zip rows')).map Prod.snd := by
    conv_lhs => rw [← hsnd]
    exact (sortBy_map _ _ _).trans (congrArg _ hpairs)
  rw [hleft, hright, List.forall₂_map_left_iff, List.forall₂_map_right_iff, List.forall₂_same]
  exact fun e he => hzip e (mem_sortBy.mp he)

end Order

/-! ## Where labels go -/

/-- Places from `start` on follow the ids from one list to another; other places stay. -/
def relabel (start : Nat) (ids ids' : List JsString) (n : Nat) : Nat :=
  if start ≤ n ∧ n < start + ids.length then start + ids'.idxOf (ids.getD (n - start) []) else n

section Relabel

variable {start : Nat} {ids ids' : List JsString}

theorem relabel_idxOf {id : JsString} (h : id ∈ ids) :
    relabel start ids ids' (start + ids.idxOf id) = start + ids'.idxOf id := by
  have hlt := List.idxOf_lt_length_of_mem h
  rw [relabel, if_pos (by omega), Nat.add_sub_cancel_left,
    List.getD_eq_getElem?_getD, List.getElem?_eq_getElem hlt, Option.getD_some, List.getElem_idxOf]

theorem relabel_outside {n : Nat} (h : n < start ∨ start + ids.length ≤ n) :
    relabel start ids ids' n = n := if_neg (by omega)

theorem relabel_injective (hnd : ids.Nodup) (hp : ids'.Perm ids) :
    Function.Injective (relabel start ids ids') := by
  have hinside : ∀ n, start ≤ n ∧ n < start + ids.length →
      ∃ id ∈ ids, n = start + ids.idxOf id := by
    intro n hn
    have hlt : n - start < ids.length := by omega
    refine ⟨ids[n - start], List.getElem_mem hlt, ?_⟩
    rw [hnd.idxOf_getElem _ hlt]
    omega
  have hrange : ∀ id ∈ ids, ids'.idxOf id < ids.length := by
    intro id hid
    rw [← hp.length_eq]
    exact List.idxOf_lt_length_of_mem (hp.mem_iff.mpr hid)
  intro a b hab
  by_cases ha : start ≤ a ∧ a < start + ids.length
  · obtain ⟨id, hid, rfl⟩ := hinside a ha
    have := hrange id hid
    rw [relabel_idxOf hid] at hab
    by_cases hb : start ≤ b ∧ b < start + ids.length
    · obtain ⟨id', hid', rfl⟩ := hinside b hb
      rw [relabel_idxOf hid'] at hab
      have heq := (List.idxOf_inj (hp.mem_iff.mpr hid)).mp (Nat.add_left_cancel hab)
      rw [heq]
    · rw [relabel_outside (by omega)] at hab
      omega
  · rw [relabel_outside (by omega)] at hab
    by_cases hb : start ≤ b ∧ b < start + ids.length
    · obtain ⟨id', hid', rfl⟩ := hinside b hb
      have := hrange id' hid'
      rw [relabel_idxOf hid'] at hab
      omega
    · rwa [relabel_outside (by omega)] at hab

end Relabel

/-! ## Places -/

section Places

variable {uuidv7 uuidv7' : Nat → Id} {f : Id → Id}

/-- Both maps place a card alike. -/
theorem cardColumn_renamed {m m' : JsMap JsString Id} (hm : RenamedMap f m m')
    {archived archived' : List JsString} (ha : ∀ id, id ∈ archived' ↔ id ∈ archived)
    (card : TrelloCard) :
    cardColumn m' archived' card = (cardColumn m archived card).map f := by
  unfold cardColumn
  split
  · rfl
  · split
    · rfl
    · cases hlist : card.idList with
      | none => rfl
      | some id =>
        have hget := hm id
        cases hid : m.get id with
        | none => simp [hid, hget, ha, Except.map]
        | some columnId => simp [hid, hget, Except.map]

theorem checklistTask_renamed {m m' : JsMap JsString Id} (hm : RenamedMap f m m')
    {reasons reasons' : JsMap JsString TrelloImportSkipReason}
    (hr : ∀ k, reasons'.get k = reasons.get k) {k k' : TrelloChecklist} (hk : k.Reordered k') :
    checklistTask m' reasons' k' = (checklistTask m reasons k).map f := by
  unfold checklistTask
  rw [hk.idCard, hk.name]
  have hempty : k'.checkItems.isEmpty = k.checkItems.isEmpty := by
    rw [Bool.eq_iff_iff, List.isEmpty_iff_length_eq_zero, List.isEmpty_iff_length_eq_zero,
      hk.checkItems.length_eq]
  cases hcard : k.idCard with
  | none => rfl
  | some id =>
    have hget := hm id
    cases hid : m.get id with
    | none => simp [hid, hget, hr, Except.map]
    | some taskId =>
      simp only [Option.bind_some, hid, hget, Option.map_some, hempty]
      split <;> rfl

theorem skippedBy_map {α : Type} {scope : TrelloImportScope}
    {place : α → Except TrelloImportSkipReason Id} {place' : α → Except TrelloImportSkipReason Id}
    {a a' : α} (h : place' a' = (place a).map f) :
    skippedBy scope place' a' = skippedBy scope place a := by
  rw [skippedBy, skippedBy, h]
  cases place a <;> rfl

/-- Renamed places are the same exactly where the places are. -/
theorem toOption_map_eq (hf : Set.InjOn f (Set.range uuidv7)) {ε : Type} {x : Except ε Id} {id : Id}
    (hx : ∀ v, x = .ok v → v ∈ Set.range uuidv7) (hid : id ∈ Set.range uuidv7) :
    (x.map f).toOption = some (f id) ↔ x.toOption = some id := by
  cases x with
  | error e => simp [Except.map, Except.toOption]
  | ok v =>
    simp only [Except.map, Except.toOption, Option.some.injEq]
    exact ⟨fun h => hf (hx v rfl) hid h, fun h => h ▸ rfl⟩

/-- Entries matched one to one give the same list where the matched ones give the same. -/
theorem filterMap_eq_of_forall₂ {α β : Type} {r : α → α → Prop} {l l' : List α} {g g' : α → Option β}
    (h : List.Forall₂ r l l') (hg : ∀ a b, r a b → g' b = g a) : l'.filterMap g' = l.filterMap g := by
  induction h with
  | nil => rfl
  | cons hab _ ih => rw [List.filterMap_cons, List.filterMap_cons, hg _ _ hab, ih]

theorem forall₂_filter {α : Type} {r : α → α → Prop} {l l' : List α} {p p' : α → Bool}
    (h : List.Forall₂ r l l') (hp : ∀ a b, r a b → p' b = p a) :
    List.Forall₂ r (l.filter p) (l'.filter p') := by
  induction h with
  | nil => exact .nil
  | @cons a b _ _ hab _ ih =>
    rw [List.filter_cons, List.filter_cons, hp a b hab]
    split
    · exact .cons hab ih
    · exact ih

theorem map_fst_filterMap_sublist {α β : Type} {g : α → Option (JsString × β)} {key : α → JsString}
    (hg : ∀ a e, g a = some e → e.1 = key a) (l : List α) :
    ((l.filterMap g).map Prod.fst).Sublist (l.map key) := by
  induction l with
  | nil => exact .slnil
  | cons a l ih =>
    cases hga : g a with
    | none => simpa [hga] using ih.cons (key a)
    | some e => simpa [hga, hg a e hga] using ih

end Places

/-! ## Two plans -/

theorem Added.skipMany {s : PlanState} (scope : TrelloImportScope) (reason : TrelloImportSkipReason)
    (count : Nat) (samples : List JsString) :
    Added s (Plan.skipMany scope reason count samples s).2 0 (List.replicate count (scope, reason)) := by
  refine ⟨rfl, fun key => ?_, SkipCollector.Counted.addMany⟩
  refine (SkipCollector.countOf_addMany key).trans ?_
  rw [List.count_replicate]
  by_cases hkey : key = (scope, reason)
  · simp [hkey]
  · simp [hkey, Ne.symm hkey]

section Labels

variable {rt : Runtime} {uuidv7 uuidv7' : Nat → Id} {f : Id → Id} {boardId : Id}
  {labels labels' : List TrelloLabel} {s s' : PlanState}

variable (rt boardId) in
/-- The labels of both exports, where the renaming follows them. -/
theorem planLabels_renamed (hnd : (labels.map TrelloLabel.id).Nodup) (hp : labels'.Perm labels)
    (hs : s'.issued = s.issued) (hf : ∀ n, f (uuidv7 n) =
      uuidv7' (relabel s.issued (labels.map TrelloLabel.id) (labels'.map TrelloLabel.id) n)) :
    let r := planLabels rt uuidv7 boardId labels .empty s
    let r' := planLabels rt uuidv7' (f boardId) labels' .empty s'
    r'.1.1.Perm (r.1.1.map (PlannedLabel.rename f)) ∧ RenamedMap f r.1.2 r'.1.2 ∧
      ∀ k v, r.1.2.get k = some v → v ∈ Set.range uuidv7 := by
  have hids := hp.map TrelloLabel.id
  obtain ⟨hrows, hget⟩ : (planLabels rt uuidv7 boardId labels .empty s).1.1 = _ ∧ _ :=
    planLabels_numbered labels hnd .empty s
  obtain ⟨hrows', hget'⟩ : (planLabels rt uuidv7' (f boardId) labels' .empty s').1.1 = _ ∧ _ :=
    planLabels_numbered labels' (hids.nodup_iff.mpr hnd) .empty s'
  refine ⟨?_, fun k => ?_, fun k v hv => ?_⟩
  · rw [hrows, hrows', List.map_map]
    refine (hp.map _).trans (.of_eq (List.map_congr_left fun label hlabel => ?_))
    simp only [Function.comp_apply, labelRow, PlannedLabel.rename, hf,
      relabel_idxOf (List.mem_map_of_mem hlabel), hs]
  · rw [hget, hget', JsMap.get_empty]
    by_cases hk : k ∈ labels.map TrelloLabel.id
    · rw [if_pos hk, if_pos (hids.mem_iff.mpr hk), Option.map_some, hf, relabel_idxOf hk, hs]
    · rw [if_neg hk, if_neg (mt hids.mem_iff.mp hk), Option.map_none]
  · rw [hget, JsMap.get_empty] at hv
    split at hv
    · exact ⟨_, Option.some.inj hv⟩
    · cases hv

end Labels

/-! ### The first half -/

/-- What is planned before the cards. -/
structure PlanHead where
  boardId : Id
  columns : List PlannedColumn
  columnIdByTrelloId : JsMap JsString Id
  archivedListIds : List JsString
  labels : List PlannedLabel
  labelIdByTrelloId : JsMap JsString Id

section Halves

variable (rt : Runtime) (uuidv7 : Nat → Id) (actorId : Id) (read : TrelloExportReadResult)

def planHead : Plan PlanHead := do
  addIssues read.issues
  let boardId ← newId uuidv7
  let (liveLists, archivedListIds) ← sortLists read.source.lists
  let orderedLists := orderedByPos liveLists
  let (columns, columnIdByTrelloId) ←
    planColumns uuidv7 boardId orderedLists.length 0 orderedLists .empty
  skipMany .column .defaulted columns.length (columns.map PlannedColumn.name)
  let (labels, labelIdByTrelloId) ← planLabels rt uuidv7 boardId read.source.labels .empty
  return ⟨boardId, columns, columnIdByTrelloId, archivedListIds, labels, labelIdByTrelloId⟩

def planRest (head : PlanHead) : Plan TrelloImportPlan := do
  let source := read.source
  let sorted ← sortCards head.columnIdByTrelloId head.archivedListIds source.cards ⟨.empty, .empty⟩
  let (rows, taskIdByTrelloCardId) ← planTasks rt uuidv7 actorId head.boardId
    head.labelIdByTrelloId sorted.cardsByColumnId head.columns .empty
  let checklistsByTaskId ← sortChecklists taskIdByTrelloCardId sorted.skippedCardReasons
    source.checklists .empty
  let (checklists, checklistItems) ← planChecklists uuidv7 checklistsByTaskId rows.tasks
  skipMany .member .unmappable source.memberCount []
  skipMany .comment .outOfScope source.commentCount []
  fun s => ({
    board := {
      id := head.boardId
      name := if isUnnamed source.name then js "Imported board" else source.name
      description := emptyToNull source.desc }
    columns := head.columns
    labels := head.labels
    tasks := rows.tasks
    taskLabels := rows.taskLabels
    checklists
    checklistItems
    attachments := rows.attachments
    skipped := s.skips.toReport }, s)

/-- The planner is its two halves. -/
theorem planBody_halves : planBody rt uuidv7 actorId read =
    planHead rt uuidv7 read >>= planRest rt uuidv7 actorId read := rfl

end Halves

/-- The same columns and labels under other identifiers. -/
structure PlanHead.RenamedBy (uuidv7 : Nat → Id) (f : Id → Id) (head head' : PlanHead) : Prop where
  boardId : head'.boardId = f head.boardId
  columns : head'.columns = head.columns.map (PlannedColumn.rename f)
  columns_range : ∀ c ∈ head.columns, c.id ∈ Set.range uuidv7
  columnMap : RenamedMap f head.columnIdByTrelloId head'.columnIdByTrelloId
  columnMap_range : ∀ k v, head.columnIdByTrelloId.get k = some v → v ∈ Set.range uuidv7
  archived : ∀ id, id ∈ head'.archivedListIds ↔ id ∈ head.archivedListIds
  labels : head'.labels.Perm (head.labels.map (PlannedLabel.rename f))
  labelMap : RenamedMap f head.labelIdByTrelloId head'.labelIdByTrelloId
  labelMap_range : ∀ k v, head.labelIdByTrelloId.get k = some v → v ∈ Set.range uuidv7

theorem planHead_shuffled {uuidv7 uuidv7' : Nat → Id}
    (hinj : Function.Injective uuidv7) (hinj' : Function.Injective uuidv7')
    {read read' : TrelloExportReadResult} (hd : read.source.DistinctIds)
    (h : read.source.Shuffled read'.source)
    (hissues : (read'.issues.map fun issue => (issue.scope, issue.reason)).Perm
      (read.issues.map fun issue => (issue.scope, issue.reason))) (rt : Runtime) :
    ∃ lo f, Renaming uuidv7 uuidv7' lo f ∧
      let r := planHead rt uuidv7 read ⟨0, Sql.Store.empty⟩
      let r' := planHead rt uuidv7' read' ⟨0, Sql.Store.empty⟩
      r.1.RenamedBy uuidv7 f r'.1 ∧ Alike lo r.2 r'.2 := by
  let s₁ := (addIssues read.issues ⟨0, Sql.Store.empty⟩).2
  let board := newId uuidv7 s₁
  let lists := sortLists read.source.lists board.2
  let ordered := orderedByPos lists.1.1
  let columns := planColumns uuidv7 board.1 ordered.length 0 ordered .empty lists.2
  let s₂ := (skipMany .column .defaulted columns.1.1.length (columns.1.1.map PlannedColumn.name)
    columns.2).2
  let s₁' := (addIssues read'.issues ⟨0, Sql.Store.empty⟩).2
  let board' := newId uuidv7' s₁'
  let lists' := sortLists read'.source.lists board'.2
  let ordered' := orderedByPos lists'.1.1
  let columns' := planColumns uuidv7' board'.1 ordered'.length 0 ordered' .empty lists'.2
  let s₂' := (skipMany .column .defaulted columns'.1.1.length (columns'.1.1.map PlannedColumn.name)
    columns'.2).2
  have hempty : Alike 0 ⟨0, Sql.Store.empty⟩ ⟨0, Sql.Store.empty⟩ :=
    ⟨rfl, le_rfl, fun _ => rfl, by simp [SkipCollector.Counted, Sql.Store.empty]⟩
  have hs₁ : Alike 0 s₁ s₁' := hempty.added (addIssues_added _ _) (addIssues_added _ _) hissues
  have hissued : s₁.issued = 0 := (addIssues_added read.issues _).issued
  have hlists : Alike 0 lists.2 lists'.2 :=
    (hs₁.added (.newId _) (.newId _) (.refl _)).added (sortLists_added _ _) (sortLists_added _ _)
      (h.lists.filterMap _)
  have hlistsIssued : lists.2.issued = 1 := by
    rw [(sortLists_added read.source.lists board.2).issued]
    simp [board, newId, hissued]
  -- the lists that become columns have one order
  have hordered : ordered' = ordered := by
    refine orderedByPos_congr ?_ ?_
    · rw [sortLists_live, sortLists_live]
      exact h.lists.filter _
    · rw [sortLists_live]
      exact hd.lists.sublist (List.filter_sublist.map _)
  have hcolumns : Added lists.2 columns.2 ordered.length [] := planColumns_added _ ordered 0 _ _
  have hcolumns' : Added lists'.2 columns'.2 ordered.length [] := by
    rw [← hordered]
    exact planColumns_added _ ordered' 0 _ _
  let start := 1 + ordered.length
  let ids := read.source.labels.map TrelloLabel.id
  let ids' := read'.source.labels.map TrelloLabel.id
  have hids : ids'.Perm ids := h.labels.map _
  let place := relabel start ids ids'
  let f : Id → Id := Function.extend uuidv7 (uuidv7' ∘ place) id
  have hf : ∀ n, f (uuidv7 n) = uuidv7' (place n) := fun n => hinj.extend_apply _ _ n
  have hrenaming : Renaming uuidv7 uuidv7' (start + ids.length) f := by
    refine ⟨fun n hn => ?_, ?_⟩
    · rw [hf]
      exact congrArg uuidv7' (relabel_outside (.inr hn))
    · rintro _ ⟨a, rfl⟩ _ ⟨b, rfl⟩ hab
      rw [hf, hf] at hab
      exact congrArg uuidv7 (relabel_injective hd.labels hids (hinj' hab))
  have hbefore : ∀ n, n < start → f (uuidv7 n) = uuidv7' n := by
    intro n hn
    rw [hf]
    exact congrArg uuidv7' (relabel_outside (.inl hn))
  have hboard : board'.1 = f board.1 := by
    change uuidv7' s₁'.issued = f (uuidv7 s₁.issued)
    rw [hs₁.issued, hissued, hbefore 0 (by omega)]
  obtain ⟨hrows, hcolumnMap⟩ : columns'.1.1 = columns.1.1.map (PlannedColumn.rename f) ∧
      RenamedMap f columns.1.2 columns'.1.2 := by
    change (planColumns uuidv7' board'.1 ordered'.length 0 ordered' .empty lists'.2).1.1 = _ ∧
      RenamedMap f _ (planColumns uuidv7' board'.1 ordered'.length 0 ordered' .empty lists'.2).1.2
    rw [hordered, hboard]
    refine planColumns_both _ ordered 0 .empty .empty lists.2 lists'.2 hlists.issued (fun _ => rfl)
      fun n _ hlt => hbefore n ?_
    rw [hlistsIssued] at hlt
    exact hlt
  have hs₂ : Alike 0 s₂ s₂' := by
    refine (hlists.added hcolumns hcolumns' (.refl _)).added (.skipMany _ _ _ _)
      (.skipMany _ _ _ _) (.of_eq ?_)
    rw [hrows, List.length_map]
  have hs₂Issued : s₂.issued = start := by
    change columns.2.issued = _
    rw [hcolumns.issued, hlistsIssued]
  obtain ⟨hlabels, hlabelMap, hlabelRange⟩ := planLabels_renamed rt board.1
    hd.labels h.labels hs₂.issued (f := f) (fun n => by rw [hf, hs₂Issued])
  have hcolumnsBooks : Books uuidv7 lists.2 columns.2 (columns.1.1.map PlannedColumn.id) 0 :=
    planColumns_books ordered 0 .empty lists.2
  have hlast : Alike (start + ids.length) (planLabels rt uuidv7 board.1 read.source.labels .empty s₂).2
      (planLabels rt uuidv7' board'.1 read'.source.labels .empty s₂').2 := by
    have hadded := planLabels_added rt uuidv7 board.1 read.source.labels .empty s₂
    have hadded' := planLabels_added rt uuidv7' board'.1 read'.source.labels .empty s₂'
    rw [h.labels.length_eq] at hadded'
    have halike := hs₂.added hadded hadded' (h.labels.filterMap _)
    refine ⟨halike.issued, ?_, halike.counts, halike.counted⟩
    rw [hadded.issued, hs₂Issued]
    simp [ids]
  refine ⟨start + ids.length, f, hrenaming, ?_, hlast⟩
  exact {
    boardId := hboard
    columns := hrows
    columns_range := fun c hc => (hcolumnsBooks.issued_of_mem (List.mem_map_of_mem hc))
    columnMap := hcolumnMap
    columnMap_range := fun k v hv => by
      have hmem := (planColumns_get ordered 0 .empty lists.2 k v hv).resolve_left (by simp)
      exact hcolumnsBooks.issued_of_mem hmem
    archived := fun id => by
      change id ∈ lists'.1.2 ↔ id ∈ lists.1.2
      rw [sortLists_archived, sortLists_archived]
      exact ((h.lists.filter _).map _).mem_iff
    labels := by
      change (planLabels rt uuidv7' board'.1 read'.source.labels .empty s₂').1.1.Perm _
      rw [hboard]
      exact hlabels
    labelMap := by
      change RenamedMap f _ (planLabels rt uuidv7' board'.1 read'.source.labels .empty s₂').1.2
      rw [hboard]
      exact hlabelMap
    labelMap_range := hlabelRange }

/-! ### The second half -/

section Rest

variable {rt : Runtime} {uuidv7 uuidv7' : Nat → Id} {actorId : Id} {lo : Nat} {f : Id → Id}

/-- What one stretch gives is also known when two run side by side. -/
theorem Plan.Both.and_gives {α α' : Type} {p : Plan α} {p' : Plan α'} {Q : α → α' → Prop}
    {P : α → Prop} (h : Both lo p p' Q) (hp : p.Gives P) : Both lo p p' fun a a' => Q a a' ∧ P a :=
  fun s s' hs => ⟨⟨(h s s' hs).1, hp s⟩, (h s s' hs).2⟩

/-- Cards sorted in both runs: the same cards in each column, and the same reasons. -/
theorem sortCards_both (hf : Renaming uuidv7 uuidv7' lo f) {m m' : JsMap JsString Id}
    (hm : RenamedMap f m m') (hrange : ∀ k v, m.get k = some v → v ∈ Set.range uuidv7)
    {archived archived' : List JsString} (ha : ∀ id, id ∈ archived' ↔ id ∈ archived)
    {cards cards' : List TrelloCard} (hp : cards'.Perm cards) (hnd : (cards.map TrelloCard.id).Nodup) :
    Both lo (sortCards m archived cards ⟨.empty, .empty⟩)
      (sortCards m' archived' cards' ⟨.empty, .empty⟩) fun sorted sorted' =>
        (∀ id ∈ Set.range uuidv7, orderedByPos (sorted'.cardsByColumnId.all (f id)) =
          orderedByPos (sorted.cardsByColumnId.all id)) ∧
        ∀ k, sorted'.skippedCardReasons.get k = sorted.skippedCardReasons.get k := by
  have hplace : ∀ card, cardColumn m' archived' card = (cardColumn m archived card).map f :=
    cardColumn_renamed hm ha
  intro s s' hs
  refine ⟨⟨fun id hid => ?_, fun k => ?_⟩,
    hs.added (sortCards_added _ _ _) (sortCards_added _ _ _) ?_⟩
  · rw [sortCards_all, sortCards_all, JsMap.all_empty, JsMap.all_empty, List.nil_append,
      List.nil_append, map_snd_filter_assigned, map_snd_filter_assigned]
    have hsame : (cards'.filter fun card => (cardColumn m' archived' card).toOption = some (f id)) =
        cards'.filter fun card => (cardColumn m archived card).toOption = some id := by
      refine List.filter_congr fun card _ => decide_eq_decide.mpr ?_
      rw [hplace]
      refine toOption_map_eq hf.inj (fun v hv => ?_) hid
      obtain ⟨k, hk⟩ := (cardColumn_ok hv).2
      exact hrange k v hk
    rw [hsame]
    exact orderedByPos_congr (hp.filter _) (hnd.sublist (List.filter_sublist.map _))
  · rw [sortCards_reasons, sortCards_reasons]
    have hsame : reasonEntry (cardColumn m' archived') = reasonEntry (cardColumn m archived) := by
      funext card
      rw [reasonEntry, reasonEntry, hplace]
      cases cardColumn m archived card <;> rfl
    rw [hsame]
    refine JsMap.get_setAll_perm (hnd.sublist (map_fst_filterMap_sublist ?_ _)) (hp.filterMap _) k
    intro card e he
    unfold reasonEntry at he
    split at he
    · rw [← Option.some.inj he]
    · cases he
  · have hsame : skippedBy .card (cardColumn m' archived') = skippedBy .card (cardColumn m archived) :=
      funext fun card => skippedBy_map (hplace card)
    rw [hsame]
    exact hp.filterMap _

/-- Checklists sorted in both runs: matching ones on each task. -/
theorem sortChecklists_both (hf : Renaming uuidv7 uuidv7' lo f) {m m' : JsMap JsString Id}
    (hm : RenamedMap f m m') (hrange : ∀ k v, m.get k = some v → v ∈ Set.range uuidv7)
    {reasons reasons' : JsMap JsString TrelloImportSkipReason}
    (hr : ∀ k, reasons'.get k = reasons.get k) {checklists reordered checklists' : List TrelloChecklist}
    (hlists : List.Forall₂ TrelloChecklist.Reordered checklists reordered)
    (hp : checklists'.Perm reordered) (hnd : (checklists.map TrelloChecklist.id).Nodup)
    (hitems : ∀ k ∈ checklists, (k.checkItems.map TrelloCheckItem.id).Nodup) :
    Both lo (sortChecklists m reasons checklists .empty) (sortChecklists m' reasons' checklists' .empty)
      fun byTask byTask' => ∀ id ∈ Set.range uuidv7, List.Forall₂ TrelloChecklist.PlannedAs
        (orderedByPos (byTask.all id)) (orderedByPos (byTask'.all (f id))) := by
  have hplace : ∀ k k', k.Reordered k' →
      checklistTask m' reasons' k' = (checklistTask m reasons k).map f :=
    fun _ _ => checklistTask_renamed hm hr
  have hsame : ∀ id ∈ Set.range uuidv7, ∀ k k', k.Reordered k' →
      decide ((checklistTask m' reasons' k').toOption = some (f id)) =
        decide ((checklistTask m reasons k).toOption = some id) := by
    intro id hid k k' hk
    refine decide_eq_decide.mpr ?_
    rw [hplace k k' hk]
    refine toOption_map_eq hf.inj (fun v hv => ?_) hid
    obtain ⟨k, hk⟩ := (checklistTask_ok hv).2
    exact hrange k v hk
  have hids : reordered.map TrelloChecklist.id = checklists.map TrelloChecklist.id := by
    rw [← List.forall₂_eq_eq_eq, List.forall₂_map_left_iff, List.forall₂_map_right_iff]
    exact hlists.flip.imp fun _ _ hk => hk.id
  intro s s' hs
  refine ⟨fun id hid => ?_, hs.added (sortChecklists_added _ _ _) (sortChecklists_added _ _ _) ?_⟩
  · rw [sortChecklists_all, sortChecklists_all, JsMap.all_empty, JsMap.all_empty, List.nil_append,
      List.nil_append, map_snd_filter_assigned, map_snd_filter_assigned]
    rw [orderedByPos_congr (hp.filter _) ((hids ▸ hnd).sublist (List.filter_sublist.map _))]
    have hmatched := orderedByPos_forall₂ (forall₂_filter hlists (hsame id hid))
      (fun k k' hk => congrArg toLex (Prod.ext hk.pos hk.id))
      (hnd.sublist (List.filter_sublist.map _))
    -- the items under distinct ids have one order too
    refine (List.forall₂_and_left (p := fun k : TrelloChecklist =>
      (k.checkItems.map TrelloCheckItem.id).Nodup) _ _).mpr ⟨fun k hk => ?_, hmatched⟩ |>.imp ?_
    · exact hitems k (List.mem_filter.mp ((orderedByPos_perm _).mem_iff.mp hk)).1
    · exact fun k k' ⟨hnd, hk⟩ => ⟨hk.name, orderedByPos_congr hk.checkItems hnd⟩
  · refine (hp.filterMap _).trans (.of_eq (filterMap_eq_of_forall₂ hlists fun k k' hk => ?_))
    rw [skippedBy, skippedBy, hplace k k' hk]
    cases checklistTask m reasons k <;> rfl

theorem planRest_shuffled (hf : Renaming uuidv7 uuidv7' lo f)
    {read read' : TrelloExportReadResult} (hd : read.source.DistinctIds)
    (h : read.source.Shuffled read'.source) {head head' : PlanHead}
    (hhead : head.RenamedBy uuidv7 f head') :
    Both lo (planRest rt uuidv7 actorId read head) (planRest rt uuidv7' actorId read' head')
      (TrelloImportPlan.RenamedBy f) := by
  obtain ⟨reordered, hlists, hperm⟩ := h.checklists
  have htaskIds : ∀ cardsByColumnId, (planTasks rt uuidv7 actorId head.boardId
      head.labelIdByTrelloId cardsByColumnId head.columns .empty).Gives fun r =>
        (∀ t ∈ r.1.tasks, t.id ∈ Set.range uuidv7) ∧
        ∀ k v, r.2.get k = some v → v ∈ Set.range uuidv7 := by
    intro cardsByColumnId s
    obtain ⟨parts, _, _, hplans⟩ := planTasks_parts rt uuidv7 actorId head.boardId
      head.labelIdByTrelloId cardsByColumnId head.columns .empty s
    obtain ⟨n, hbooks⟩ := hplans.books
    have htask : ∀ t ∈ (planTasks rt uuidv7 actorId head.boardId head.labelIdByTrelloId
        cardsByColumnId head.columns .empty s).1.1.tasks, t.id ∈ Set.range uuidv7 :=
      fun t ht => hbooks.issued_of_mem
        (List.mem_append_left _ (List.mem_append_left _ (List.mem_map_of_mem ht)))
    refine ⟨htask, fun k v hv => ?_⟩
    obtain ⟨p, hp, rfl⟩ := (hplans.get k v hv).resolve_left (by simp)
    refine htask p.task ?_
    rw [hplans.rows_eq]
    exact List.mem_map_of_mem hp
  unfold planRest
  refine (sortCards_both hf hhead.columnMap hhead.columnMap_range hhead.archived h.cards hd.cards).bind ?_
  rintro sorted sorted' ⟨hcards, hreasons⟩
  rw [hhead.boardId, hhead.columns]
  refine ((planTasks_both hf hhead.labelMap hhead.labelMap_range head.columns
    (fun c hc => hcards c.id (hhead.columns_range c hc)) .empty .empty fun _ => rfl).and_gives
    (htaskIds _)).bind ?_
  rintro tasks tasks' ⟨⟨hrows, hmap⟩, htasks, htaskMap⟩
  refine (sortChecklists_both hf hmap htaskMap hreasons hlists hperm hd.checklists
    hd.checkItems).bind fun byTask byTask' hbyTask => ?_
  dsimp only
  rw [hrows, show (tasks.1.rename f).tasks = tasks.1.tasks.map (PlannedTask.rename f) from rfl]
  refine (planChecklists_both hf tasks.1.tasks fun t ht => hbyTask t.id (htasks t ht)).bind
    fun checklists checklists' hchecklists => ?_
  intro s s' hs
  have hlast := (hs.added (.skipMany .member .unmappable read.source.memberCount [])
    (.skipMany .member .unmappable read'.source.memberCount []) (.of_eq (by rw [h.memberCount]))).added
    (.skipMany .comment .outOfScope read.source.commentCount [])
    (.skipMany .comment .outOfScope read'.source.commentCount []) (.of_eq (by rw [h.commentCount]))
  subst hchecklists
  refine ⟨?_, hlast⟩
  exact {
    board := by simp only [h.name, h.desc]; rfl
    columns := rfl
    labels := hhead.labels
    tasks := rfl
    taskLabels := rfl
    checklists := rfl
    checklistItems := rfl
    attachments := rfl
    skipped := report_counts hlast.counted.1 hlast.counted.2 hlast.counts }

/-- Exports with the same entries have the same plan. -/
theorem plan_shuffled (hinj : Function.Injective uuidv7) (hinj' : Function.Injective uuidv7')
    {read read' : TrelloExportReadResult} (hd : read.source.DistinctIds)
    (h : read.source.Shuffled read'.source)
    (hissues : (read'.issues.map fun issue => (issue.scope, issue.reason)).Perm
      (read.issues.map fun issue => (issue.scope, issue.reason))) :
    ∃ f : Id → Id, Set.InjOn f (Set.range uuidv7) ∧
      (planTrelloImport rt uuidv7 actorId read).RenamedBy f
        (planTrelloImport rt uuidv7' actorId read') := by
  obtain ⟨lo, f, hf, hhead, hs⟩ := planHead_shuffled hinj hinj' hd h hissues rt
  exact ⟨f, hf.inj, (planRest_shuffled hf hd h hhead _ _ hs).1⟩

end Rest

end Kurul
