import Kurul.Import.Accounting
import Kurul.Import.Shuffled

/-!
# Kurul.Import.TrelloOrder

The order of an import is Trello's and nothing else: each set of siblings is spread in the order of
`pos` and id, and an export with its arrays in another order makes the same plan.

* `Outcome.inTrelloOrder`  — columns, their tasks, their checklists and their items.
* `readExport_shuffled`    — what is read from an export with its arrays reordered.
* `import_order`           — both.
-/

namespace Kurul

open Plan Json

/-! ## Siblings -/

/-- By `pos`, entries without one last, and then by id. -/
def Before {T : Type} [HasPos T] (a b : T) : Prop :=
  match HasPos.pos a, HasPos.pos b with
  | some p, some q => p < q ∨ p = q ∧ HasPos.id a < HasPos.id b
  | some _, none => True
  | none, some _ => False
  | none, none => HasPos.id a < HasPos.id b

/-- Rows of these entries in their order, at 1000, 2000 and so on. -/
structure SpreadInOrder {T R : Type} [HasPos T] (position : R → Position) (of : T → R → Prop)
    (entries : List T) (rows : List R) : Prop where
  order : ∃ sorted : List T, sorted.Perm entries ∧ sorted.Pairwise Before ∧ List.Forall₂ of sorted rows
  positions : rows.map position = (List.range rows.length).map fun i : Nat => 1000 * ((i : Position) + 1)

/-- A card that becomes a task in the column of a list. -/
def TrelloCard.isOn (list : TrelloList) (card : TrelloCard) : Bool :=
  !card.closed && !isUnnamed card.name && decide (card.idList = some list.id)

/-- A checklist that is written on the task of a card. -/
def TrelloChecklist.isOn (card : TrelloCard) (checklist : TrelloChecklist) : Bool :=
  !isUnnamed checklist.name && !checklist.checkItems.isEmpty &&
    decide (checklist.idCard = some card.id)

section Plan

variable (source : TrelloExport) (plan : TrelloImportPlan)

/-- The rows of a checklist, and under it its items'. -/
def WroteChecklistInOrder (checklist : TrelloChecklist) (row : ChecklistRow) : Prop :=
  row.title = checklist.name ∧
    SpreadInOrder ChecklistItemRow.position (fun item i => i.content = item.name)
      (checklist.checkItems.filter fun item => !isUnnamed item.name)
      (plan.checklistItems.filter fun i => i.checklistId = row.id)

def WroteTaskInOrder (card : TrelloCard) (task : PlannedTask) : Prop :=
  task.title = card.name ∧
    SpreadInOrder ChecklistRow.position (WroteChecklistInOrder plan)
      (source.checklists.filter (TrelloChecklist.isOn card))
      (plan.checklists.filter fun c => c.taskId = task.id)

def WroteColumnInOrder (list : TrelloList) (column : PlannedColumn) : Prop :=
  column.name = list.name ∧
    SpreadInOrder PlannedTask.position (WroteTaskInOrder source plan)
      (source.cards.filter (TrelloCard.isOn list))
      (plan.tasks.filter fun t => t.columnId = column.id)

/-- Siblings stand in Trello's order, column by column, task by task and checklist by checklist. -/
def TrelloImportPlan.InTrelloOrder : Prop :=
  SpreadInOrder PlannedColumn.position (WroteColumnInOrder source plan)
    (source.lists.filter TrelloList.live) plan.columns

end Plan

section Siblings

variable {T R : Type} [HasPos T]

theorem before_of_posKey {a b : T} (h : posKey a < posKey b) : Before a b := by
  rcases Prod.Lex.toLex_lt_toLex.mp h with hpos | ⟨hpos, hid⟩
  · unfold Before
    cases ha : HasPos.pos a with
    | none =>
      rw [ha] at hpos
      exact absurd hpos (not_lt_of_ge le_top)
    | some p =>
      cases hb : HasPos.pos b with
      | none => trivial
      | some q =>
        rw [ha, hb] at hpos
        exact .inl (WithTop.coe_lt_coe.mp hpos)
  · unfold Before
    simp only at hpos hid
    rw [hpos]
    cases HasPos.pos b with
    | none => exact hid
    | some q => exact .inr ⟨rfl, hid⟩

theorem orderedByPos_lt {rows : List T} (hnd : (rows.map HasPos.id).Nodup) :
    (orderedByPos rows).Pairwise fun a b => posKey a < posKey b :=
  sortBy_lt (posKey_nodup hnd)

/-- What stands in its order and is evenly spread is spread in order. -/
theorem spreadInOrder {position : R → Position} {of : T → R → Prop} {entries sorted : List T}
    {rows : List R} (hperm : sorted.Perm entries)
    (hsorted : sorted.Pairwise fun a b => posKey a < posKey b) (hof : List.Forall₂ of sorted rows)
    (hpos : rows.map position = rebalancePositions rows.length) :
    SpreadInOrder position of entries rows := by
  refine ⟨⟨sorted, hperm, hsorted.imp before_of_posKey, hof⟩, ?_⟩
  rw [hpos, rebalancePositions]
  refine List.map_congr_left fun i _ => ?_
  rw [positionGap, mul_comm]

/-- Matched groups, put together, match their members. -/
theorem mem_zip_flatten {C A B : Type} {F : C → List A} {cs : List C} {gs : List (List B)}
    (h : List.Forall₂ (fun c g => (F c).length = g.length) cs gs) {c : C} {g : List B}
    (hc : (c, g) ∈ cs.zip gs) {a : A} {b : B} (hab : (a, b) ∈ (F c).zip g) :
    (a, b) ∈ (cs.flatMap F).zip gs.flatten := by
  induction h with
  | nil => cases hc
  | cons hlen _ ih =>
    rw [List.flatMap_cons, List.flatten_cons, List.zip_append hlen]
    rcases List.mem_cons.mp hc with heq | hc
    · obtain ⟨rfl, rfl⟩ := Prod.mk.inj heq
      exact List.mem_append_left _ hab
    · exact List.mem_append_right _ (ih hc)

/-- Of groups under distinct keys, the members with one key are its group. -/
theorem filter_flatten_zip {C B : Type} {key : C → Id} {k : B → Id} {cs : List C}
    {gs : List (List B)} (hlen : cs.length = gs.length) (hnd : (cs.map key).Nodup)
    (hkey : ∀ e ∈ cs.zip gs, ∀ b ∈ e.2, k b = key e.1) {c : C} {g : List B}
    (hc : (c, g) ∈ cs.zip gs) : (gs.flatten.filter fun b => k b = key c) = g := by
  have hfst : (cs.zip gs).map Prod.fst = cs := List.map_fst_zip hlen.le
  have hsnd : (cs.zip gs).map Prod.snd = gs := List.map_snd_zip hlen.ge
  have hflat : gs.flatten = (cs.zip gs).flatMap Prod.snd := by
    conv_lhs => rw [← hsnd]
    rw [List.flatMap_def]
  rw [hflat]
  refine filter_flatMap_key (fun e : C × List B => key e.1) ?_ hkey hc
  rw [← hfst, List.map_map] at hnd
  exact hnd

end Siblings

/-- In a map set from matched lists a value is found under the key it is matched with alone. -/
theorem get_zipWith_iff {α β : Type} {as : List α} {bs : List β} {key : α → JsString} {val : β → Id}
    (hlen : as.length = bs.length) (hkeys : (as.map key).Nodup) (hvals : (bs.map val).Nodup) {a : α}
    {b : β} (hab : (a, b) ∈ as.zip bs) (k : JsString) :
    ((JsMap.empty : JsMap JsString Id).setAll (List.zipWith (fun a b => (key a, val b)) as bs)).get k =
      some (val b) ↔ k = key a := by
  have hfst : (as.zip bs).map Prod.fst = as := List.map_fst_zip hlen.le
  have hsnd : (as.zip bs).map Prod.snd = bs := List.map_snd_zip hlen.ge
  have hzip : List.zipWith (fun a b => (key a, val b)) as bs =
      (as.zip bs).map fun e => (key e.1, val e.2) := (List.map_uncurry_zip_eq_zipWith ..).symm
  rw [← hfst, List.map_map] at hkeys
  rw [← hsnd, List.map_map] at hvals
  rw [hzip]
  constructor
  · intro h
    obtain ⟨e, he, heq⟩ := List.mem_map.mp ((JsMap.get_setAll_mem h).resolve_left (by simp))
    obtain ⟨hkey, hval⟩ := Prod.mk.inj heq
    have hsame : e = (a, b) := List.inj_on_of_nodup_map hvals he hab hval
    rw [← hkey, hsame]
  · rintro rfl
    have hmem : (key a, val b) ∈ (as.zip bs).map fun e => (key e.1, val e.2) :=
      List.mem_map.mpr ⟨(a, b), hab, rfl⟩
    exact JsMap.get_setAll (by rw [List.map_map]; exact hkeys) hmem _

/-! ## A plan in order -/

section Outcome

variable {rt : Runtime} {source : TrelloExport} {plan : TrelloImportPlan} (o : Outcome rt source plan)
  (hd : source.DistinctIds)

include o hd

omit o in
theorem TrelloExport.DistinctIds.ordered : ((orderedByPos (source.lists.filter TrelloList.live)).map
    TrelloList.id).Nodup :=
  ((orderedByPos_perm _).map _).nodup_iff.mpr (hd.lists.sublist (List.filter_sublist.map _))

/-- The cards of a list's column are those on the list. -/
theorem Outcome.cardsOf_column (hnd : (plan.columns.map PlannedColumn.id).Nodup) {list : TrelloList}
    {column : PlannedColumn} (h : (list, column) ∈
      (orderedByPos (source.lists.filter TrelloList.live)).zip plan.columns) :
    o.cardsOf column.id = source.cards.filter (TrelloCard.isOn list) := by
  have hget : ∀ k, o.columnIdByTrelloId.get k = some column.id ↔ k = list.id := by
    rw [o.columns_map]
    exact get_zipWith_iff o.columns_of.length_eq hd.ordered hnd h
  rw [o.cardsOf_eq, map_snd_filter_assigned]
  refine List.filter_congr fun card _ => ?_
  rw [Bool.eq_iff_iff, decide_eq_true_iff]
  unfold cardColumn TrelloCard.isOn
  cases hclosed : card.closed
  · cases hname : isUnnamed card.name
    · cases hlist : card.idList with
      | none => simp [Except.toOption]
      | some id =>
        have hid := hget id
        cases hfound : o.columnIdByTrelloId.get id with
        | none => simpa [hfound, Except.toOption] using hid
        | some columnId => simpa [hfound, Except.toOption] using hid
    · simp [Except.toOption]
  · simp [Except.toOption]

/-- The checklists of a card's task are those on the card. -/
theorem Outcome.checklistsOf_task (hnd : (plan.columns.map PlannedColumn.id).Nodup)
    (hnd' : (plan.tasks.map PlannedTask.id).Nodup) {card : TrelloCard} {task : PlannedTask}
    (h : (card, task) ∈ o.cards.zip plan.tasks) :
    o.checklistsOf task.id = source.checklists.filter (TrelloChecklist.isOn card) := by
  have hcards : (o.cards.map TrelloCard.id).Nodup :=
    ((o.cards_perm hnd).map _).nodup_iff.mpr (hd.cards.sublist (List.filter_sublist.map _))
  have hget : ∀ k, o.taskIdByTrelloCardId.get k = some task.id ↔ k = card.id := by
    rw [o.tasks_map]
    exact get_zipWith_iff o.cards_of.length_eq hcards hnd' h
  rw [o.checklistsOf_eq, map_snd_filter_assigned]
  refine List.filter_congr fun checklist _ => ?_
  rw [Bool.eq_iff_iff, decide_eq_true_iff]
  unfold checklistTask TrelloChecklist.isOn
  cases hcard : checklist.idCard with
  | none => simp [Except.toOption]
  | some id =>
    have hid := hget id
    cases hfound : o.taskIdByTrelloCardId.get id with
    | none => simpa [hfound, Except.toOption] using fun _ _ => hid
    | some taskId =>
      cases hname : isUnnamed checklist.name
      · cases hitems : checklist.checkItems.isEmpty
        · simpa [hfound, Except.toOption] using hid
        · simp [hfound, Except.toOption]
      · simp [hfound, Except.toOption]

/-- The items under a checklist's row are its own, in order. -/
theorem Outcome.checklist_inOrder (hnd : (plan.checklists.map ChecklistRow.id).Nodup)
    {w : WrittenChecklist} (hw : w ∈ o.written.flatten) (hk : w.checklist ∈ source.checklists) :
    WroteChecklistInOrder plan w.checklist w.row := by
  obtain ⟨taskId, hon⟩ := o.written_on hw
  have hitems : (plan.checklistItems.filter fun i => i.checklistId = w.row.id) = w.items := by
    rw [o.items_eq]
    refine filter_flatMap_key (fun v : WrittenChecklist => v.row.id) ?_ (fun v hv i hi => ?_) hw
    · rwa [o.checklists_eq, List.map_map] at hnd
    · obtain ⟨taskId, hv⟩ := o.written_on hv
      obtain ⟨item, _, hof⟩ := exists_of_forall₂_right hv.items hi
      exact hof.checklistId
  refine ⟨hon.title, ?_⟩
  rw [hitems]
  refine spreadInOrder ((orderedByPos_perm _).filter _)
    ((orderedByPos_lt (hd.checkItems _ hk)).sublist List.filter_sublist) ?_ hon.positions
  exact hon.items.imp fun _ _ hof => hof.content

/-- The checklists under a task's row are those on its card, in order. -/
theorem Outcome.task_inOrder (hcolumns : (plan.columns.map PlannedColumn.id).Nodup)
    (htasks : (plan.tasks.map PlannedTask.id).Nodup)
    (hchecklists : (plan.checklists.map ChecklistRow.id).Nodup) {card : TrelloCard}
    {task : PlannedTask} (h : (card, task) ∈ o.cards.zip plan.tasks) :
    WroteTaskInOrder source plan card task := by
  obtain ⟨columnId, hof⟩ := (List.forall₂_iff_zip.mp o.cards_of).2 h
  have hlen := o.tasks_hold.length_eq
  obtain ⟨written, hwritten⟩ : ∃ written, (task, written) ∈ plan.tasks.zip o.written := by
    have hmem : task ∈ (plan.tasks.zip o.written).map Prod.fst := by
      rw [List.map_fst_zip hlen.le]
      exact (List.of_mem_zip h).2
    obtain ⟨e, he, rfl⟩ := List.mem_map.mp hmem
    exact ⟨e.2, he⟩
  have hold : ∀ e ∈ plan.tasks.zip o.written, e.1.Holds (o.checklistsOf e.1.id) e.2 :=
    fun e he => (List.forall₂_iff_zip.mp o.tasks_hold).2 he
  have hmine : (plan.checklists.filter fun c => c.taskId = task.id) =
      written.map WrittenChecklist.row := by
    rw [o.checklists_eq, List.filter_map]
    refine congrArg _ ?_
    exact filter_flatten_zip (k := fun w : WrittenChecklist => w.row.taskId) hlen htasks
      (fun e he w hw => ((hold e he).on w hw).taskId) hwritten
  obtain ⟨hon, hlists, hpos⟩ := hold _ hwritten
  rw [o.checklistsOf_task hd hcolumns htasks h] at hlists
  refine ⟨hof.title, ?_⟩
  rw [hmine]
  refine spreadInOrder (orderedByPos_perm _) (orderedByPos_lt
    (hd.checklists.sublist (List.filter_sublist.map _))) ?_ (by simpa [Function.comp_def] using hpos)
  rw [← hlists, List.forall₂_map_left_iff, List.forall₂_map_right_iff, List.forall₂_same]
  intro w hw
  refine o.checklist_inOrder hd hchecklists
    (List.mem_flatten.mpr ⟨written, (List.of_mem_zip hwritten).2, hw⟩) ?_
  have hlist : w.checklist ∈ written.map WrittenChecklist.checklist := List.mem_map_of_mem hw
  rw [hlists, (orderedByPos_perm _).mem_iff] at hlist
  exact (List.mem_filter.mp hlist).1

/-- The tasks in a column are those of the cards on its list, in order. -/
theorem Outcome.column_inOrder (hcolumns : (plan.columns.map PlannedColumn.id).Nodup)
    (htasks : (plan.tasks.map PlannedTask.id).Nodup)
    (hchecklists : (plan.checklists.map ChecklistRow.id).Nodup) {list : TrelloList}
    {column : PlannedColumn} (h : (list, column) ∈
      (orderedByPos (source.lists.filter TrelloList.live)).zip plan.columns) :
    WroteColumnInOrder source plan list column := by
  have hof := (List.forall₂_iff_zip.mp o.columns_of).2 h
  have hlen := o.columns_hold.length_eq
  obtain ⟨tasks, hgroup⟩ : ∃ tasks, (column, tasks) ∈ plan.columns.zip o.tasks := by
    have hmem : column ∈ (plan.columns.zip o.tasks).map Prod.fst := by
      rw [List.map_fst_zip hlen.le]
      exact (List.of_mem_zip h).2
    obtain ⟨e, he, rfl⟩ := List.mem_map.mp hmem
    exact ⟨e.2, he⟩
  have hold : ∀ e ∈ plan.columns.zip o.tasks, e.1.Holds rt (o.cardsOf e.1.id) e.2 :=
    fun e he => (List.forall₂_iff_zip.mp o.columns_hold).2 he
  have hmine : (plan.tasks.filter fun t => t.columnId = column.id) = tasks := by
    rw [o.tasks_eq]
    refine filter_flatten_zip hlen hcolumns (fun e he t ht => ?_) hgroup
    obtain ⟨card, _, hof⟩ := exists_of_forall₂_right (hold e he).of ht
    exact hof.columnId
  obtain ⟨hcards, hpos⟩ := hold _ hgroup
  have hsame := o.cardsOf_column hd hcolumns h
  refine ⟨hof.name, ?_⟩
  rw [hmine, ← hsame]
  refine spreadInOrder (orderedByPos_perm _) (orderedByPos_lt ?_) ?_ hpos
  · rw [hsame]
    exact hd.cards.sublist (List.filter_sublist.map _)
  · refine List.forall₂_iff_zip.mpr ⟨hcards.length_eq, fun {card task} hpair => ?_⟩
    refine o.task_inOrder hd hcolumns htasks hchecklists ?_
    rw [o.tasks_eq]
    exact mem_zip_flatten (o.columns_hold.imp fun _ _ hold => hold.of.length_eq) hgroup hpair

theorem Outcome.inTrelloOrder (hcolumns : (plan.columns.map PlannedColumn.id).Nodup)
    (htasks : (plan.tasks.map PlannedTask.id).Nodup)
    (hchecklists : (plan.checklists.map ChecklistRow.id).Nodup) : plan.InTrelloOrder source := by
  refine spreadInOrder (orderedByPos_perm _)
    (orderedByPos_lt (hd.lists.sublist (List.filter_sublist.map _))) ?_ o.columns_positions
  exact List.forall₂_iff_zip.mpr ⟨o.columns_of.length_eq, fun {_ _} h =>
    o.column_inOrder hd hcolumns htasks hchecklists h⟩

end Outcome

/-! ## Exports in another order -/

/-- An array with its entries in another order, each of them matched. -/
def ShuffledMember (r : Json → Json → Prop) (value value' : Option Json) : Prop :=
  value' = value ∨ ∃ entries matched entries', value = some (.arr entries) ∧
    value' = some (.arr entries') ∧ List.Forall₂ r entries matched ∧ entries'.Perm matched

/-- An entry with its `checkItems` in another order. -/
def ShuffledItems (entry entry' : Json) : Prop :=
  entry' = entry ∨ ∃ members members', entry = .obj members ∧ entry' = .obj members' ∧
    (∀ name, name ≠ js "checkItems" → member name members' = member name members) ∧
    ShuffledMember Eq (member (js "checkItems") members) (member (js "checkItems") members')

/-- An export with its `lists`, `cards`, `labels` and `checklists` in another order, and the
`checkItems` of its checklists. -/
structure ShuffledExport (raw raw' : List (JsString × Json)) : Prop where
  lists : ShuffledMember Eq (member (js "lists") raw) (member (js "lists") raw')
  cards : ShuffledMember Eq (member (js "cards") raw) (member (js "cards") raw')
  labels : ShuffledMember Eq (member (js "labels") raw) (member (js "labels") raw')
  checklists : ShuffledMember ShuffledItems (member (js "checklists") raw)
    (member (js "checklists") raw')
  others : ∀ name, name ∉ [js "lists", js "cards", js "labels", js "checklists"] →
    member name raw' = member name raw

/-- What issues are counted under. -/
def issueKeys (issues : List TrelloReadIssue) : List SkipKey :=
  issues.map fun issue => (issue.scope, issue.reason)

section Section

variable {T : Type} {scope : TrelloImportScope} {read : Json → Option T × List TrelloReadIssue}

theorem readEntries_keys (entries : List Json) :
    issueKeys (readEntries scope read entries).2 = entries.flatMap fun entry =>
      issueKeys (read entry).2 ++ if (read entry).1.isNone then [(scope, .malformed)] else [] := by
  induction entries with
  | nil => rfl
  | cons entry rest ih =>
    rcases h : read entry with ⟨row, own⟩
    simp only [issueKeys] at ih
    cases row with
    | none => simp [readEntries, h, issueKeys, ih]
    | some row => simp [readEntries, h, issueKeys, ih]

variable (scope) in
theorem readEntries_matched {R : Json → Json → Prop} {r : T → T → Prop}
    (hread : ∀ entry entry', R entry entry' → Option.Rel r (read entry).1 (read entry').1 ∧
      (issueKeys (read entry').2).Perm (issueKeys (read entry).2))
    {entries matched : List Json} (h : List.Forall₂ R entries matched) :
    List.Forall₂ r (readEntries scope read entries).1 (readEntries scope read matched).1 ∧
      (issueKeys (readEntries scope read matched).2).Perm
        (issueKeys (readEntries scope read entries).2) := by
  simp only [readEntries_rows, readEntries_keys]
  induction h with
  | nil => exact ⟨.nil, .refl _⟩
  | @cons entry entry' rest rest' hr _ ih =>
    obtain ⟨hrow, hkeys⟩ := hread entry entry' hr
    obtain ⟨hrows, hrest⟩ := ih
    simp only [List.flatMap_cons, List.filterMap_cons]
    generalize (read entry).1 = row, (read entry').1 = row' at hrow ⊢
    have hsome : row'.isNone = row.isNone := by cases hrow <;> rfl
    refine ⟨?_, (hkeys.append (.of_eq (by rw [hsome]))).append hrest⟩
    cases hrow with
    | some hab => exact .cons hab hrows
    | none => exact hrows

variable (scope) in
/-- What is read from a section whose entries are matched with those of another. -/
theorem readSection_shuffled {R : Json → Json → Prop} {r : T → T → Prop} (hrefl : ∀ a, r a a)
    (hread : ∀ entry entry', R entry entry' → Option.Rel r (read entry).1 (read entry').1 ∧
      (issueKeys (read entry').2).Perm (issueKeys (read entry).2))
    {value value' : Option Json} (h : ShuffledMember R value value') :
    (∃ matched, List.Forall₂ r (readSection scope read value).1 matched ∧
      (readSection scope read value').1.Perm matched) ∧
    (issueKeys (readSection scope read value').2).Perm
      (issueKeys (readSection scope read value).2) := by
  obtain rfl | ⟨entries, matched, entries', rfl, rfl, hmatched, hperm⟩ := h
  · exact ⟨⟨_, List.forall₂_same.mpr fun a _ => hrefl a, .refl _⟩, .refl _⟩
  · obtain ⟨hrows, hkeys⟩ := readEntries_matched scope hread hmatched
    refine ⟨⟨_, hrows, ?_⟩, .trans ?_ hkeys⟩
    · simp only [readSection, readEntries_rows]
      exact hperm.filterMap _
    · simp only [readSection, readEntries_keys]
      exact hperm.flatMap_right _

variable (scope) in
theorem readSection_quietly_shuffled (read : Json → Option T) {value value' : Option Json}
    (h : ShuffledMember Eq value value') :
    (readSection scope (quietly read) value').1.Perm (readSection scope (quietly read) value).1 ∧
    (issueKeys (readSection scope (quietly read) value').2).Perm
      (issueKeys (readSection scope (quietly read) value).2) := by
  have hread : ∀ entry entry', entry = entry' →
      Option.Rel Eq (quietly read entry).1 (quietly read entry').1 ∧
        (issueKeys (quietly read entry').2).Perm (issueKeys (quietly read entry).2) := by
    rintro entry _ rfl
    refine ⟨?_, .refl _⟩
    cases (quietly read entry).1 with
    | none => exact .none
    | some row => exact .some rfl
  obtain ⟨⟨matched, hmatched, hperm⟩, hkeys⟩ := readSection_shuffled scope (fun _ => rfl) hread h
  rw [List.forall₂_eq_eq_eq] at hmatched
  exact ⟨hmatched ▸ hperm, hkeys⟩

end Section

/-- A checklist entry with its items in another order. -/
theorem readChecklist_shuffled {entry entry' : Json} (h : ShuffledItems entry entry') :
    Option.Rel TrelloChecklist.Reordered (readChecklist entry).1 (readChecklist entry').1 ∧
      (issueKeys (readChecklist entry').2).Perm (issueKeys (readChecklist entry).2) := by
  obtain rfl | ⟨members, members', rfl, rfl, hothers, hitems⟩ := h
  · refine ⟨?_, .refl _⟩
    cases (readChecklist entry').1 with
    | none => exact .none
    | some checklist => exact .some ⟨rfl, rfl, rfl, rfl, .refl _⟩
  · have hmember : ∀ name : String, js name ≠ js "checkItems" →
        member (js name) members' = member (js name) members := fun name => hothers (js name)
    have harray : (checkItemEntries members').value.Perm (checkItemEntries members).value ∧
        (checkItemEntries members').unusable = (checkItemEntries members).unusable := by
      unfold checkItemEntries
      obtain heq | ⟨items, matched, items', hvalue, hvalue', hmatched, hperm⟩ := hitems
      · rw [heq]
        exact ⟨.refl _, rfl⟩
      · rw [List.forall₂_eq_eq_eq] at hmatched
        rw [hvalue, hvalue']
        exact ⟨hmatched ▸ hperm, rfl⟩
    simp only [readChecklist, hmember "id" (by decide), hmember "idCard" (by decide),
      hmember "name" (by decide), hmember "pos" (by decide), harray.2]
    cases readId (member (js "id") members) with
    | none => exact ⟨.none, .refl _⟩
    | some id =>
      have hkeys : (issueKeys (((checkItemEntries members').value.filter fun item =>
          (readCheckItem item).isNone).map fun _ => unreadableItem)).Perm
          (issueKeys (((checkItemEntries members).value.filter fun item =>
            (readCheckItem item).isNone).map fun _ => unreadableItem)) :=
        ((harray.1.filter _).map _).map _
      dsimp only
      split
      · exact ⟨.none, hkeys⟩
      · exact ⟨.some ⟨rfl, rfl, rfl, rfl, harray.1.filterMap _⟩, hkeys⟩

/-- The same entries are read, and the same are reported, whatever their order. -/
theorem readExport_shuffled {raw raw' : List (JsString × Json)} (h : ShuffledExport raw raw')
    (name : JsString) :
    (readExport name raw).source.Shuffled (readExport name raw').source ∧
      (issueKeys (readExport name raw').issues).Perm (issueKeys (readExport name raw).issues) := by
  obtain ⟨hlists, hlistKeys⟩ := readSection_quietly_shuffled .list readList h.lists
  obtain ⟨hcards, hcardKeys⟩ := readSection_quietly_shuffled .card readCard h.cards
  obtain ⟨hlabels, hlabelKeys⟩ := readSection_quietly_shuffled .label readLabel h.labels
  obtain ⟨hchecklists, hchecklistKeys⟩ := readSection_shuffled .checklist
    (fun _ => (⟨rfl, rfl, rfl, rfl, .refl _⟩ : TrelloChecklist.Reordered _ _))
    (fun _ _ hitems => readChecklist_shuffled hitems) h.checklists
  have hdesc := h.others (js "desc") (by decide)
  have hactions := h.others (js "actions") (by decide)
  have hmembers := h.others (js "members") (by decide)
  constructor
  · exact {
      name := rfl
      desc := by simp only [readExport, hdesc]
      lists := hlists
      cards := hcards
      labels := hlabels
      checklists := hchecklists
      commentCount := by simp only [readExport, hactions]
      memberCount := by simp only [readExport, hmembers] }
  · simp only [readExport, issueKeys, List.map_append, hactions, hmembers]
    exact ((((hlistKeys.append hcardKeys).append hlabelKeys).append hchecklistKeys).append
      (.refl _)).append (.refl _)

/-! ## Order and nothing else -/

theorem parseTrelloExport_shuffled {raw raw' : List (JsString × Json)} (h : ShuffledExport raw raw')
    {read : TrelloExportReadResult} (hread : parseTrelloExport (some (.obj raw)) = .ok read) :
    ∃ name, read = readExport name raw ∧
      parseTrelloExport (some (.obj raw')) = .ok (readExport name raw') := by
  have hname := h.others (js "name") (by decide)
  unfold parseTrelloExport at hread ⊢
  dsimp only at hread ⊢
  rw [hname]
  split at hread
  case h_1 name entries hraw hlists =>
    refine ⟨name, (Except.ok.inj hread).symm, ?_⟩
    rw [hraw]
    obtain heq | ⟨_, _, entries', _, hvalue', _⟩ := h.lists
    · rw [heq, hlists]
    · rw [hvalue']
  case h_2 => cases hread

/-- Whatever the order of its arrays, an export of entries under distinct ids makes one plan, and
siblings stand in it by `pos` and id alone. -/
theorem import_order {rt : Runtime} {uuidv7 : Nat → Id} {actorId : Id}
    (hinj : Function.Injective uuidv7) {raw : List (JsString × Json)} {read : TrelloExportReadResult}
    (hread : parseTrelloExport (some (.obj raw)) = .ok read) (hd : read.source.DistinctIds) :
    (planTrelloImport rt uuidv7 actorId read).InTrelloOrder read.source ∧
    ∀ raw', ShuffledExport raw raw' → ∀ uuidv7', Function.Injective uuidv7' →
      ∃ read' f, parseTrelloExport (some (.obj raw')) = .ok read' ∧
        Set.InjOn f (Set.range uuidv7) ∧
        (planTrelloImport rt uuidv7 actorId read).RenamedBy f
          (planTrelloImport rt uuidv7' actorId read') := by
  obtain ⟨p⟩ : Nonempty (Planned rt actorId read (planTrelloImport rt uuidv7 actorId read)) :=
    planned hinj read
  obtain ⟨o⟩ : Nonempty (Outcome rt read.source (planTrelloImport rt uuidv7 actorId read)) :=
    planBody_gives read _
  refine ⟨o.inTrelloOrder hd (p.ids_nodup.sublist ((List.sublist_append_left _ _).cons _))
    p.tasks_nodup p.checklists_nodup, fun raw' h uuidv7' hinj' => ?_⟩
  obtain ⟨name, rfl, hread'⟩ := parseTrelloExport_shuffled h hread
  obtain ⟨hsource, hissues⟩ := readExport_shuffled h name
  obtain ⟨f, hf, hplan⟩ := plan_shuffled hinj hinj' hd hsource hissues
  exact ⟨_, f, hread', hf, hplan⟩

/-! ## An export and its arrays turned round -/

/-- Two lists, the second first by `pos`, a card without `pos` behind one that has it, and a
checklist whose first item is unnamed. -/
def unsortedExport (turn : List Json → List Json) : List (JsString × Json) :=
  [(js "name", .str (js "b")),
    (js "lists", .arr (turn [
      .obj [(js "id", .str (js "l")), (js "name", .str (js "L")), (js "pos", .num (.finite 7))],
      .obj [(js "id", .str (js "m")), (js "name", .str (js "M")), (js "pos", .num (.finite 2))]])),
    (js "cards", .arr (turn [
      .obj [(js "id", .str (js "c")), (js "name", .str (js "C")), (js "idList", .str (js "l")),
        (js "idLabels", .arr [.str (js "h")])],
      .obj [(js "id", .str (js "d")), (js "name", .str (js "D")), (js "idList", .str (js "l")),
        (js "pos", .num (.finite 9))]])),
    (js "labels", .arr (turn [
      .obj [(js "id", .str (js "g")), (js "name", .str (js "G"))],
      .obj [(js "id", .str (js "h")), (js "name", .str (js "H"))]])),
    (js "checklists", .arr (turn [
      .obj [(js "id", .str (js "k")), (js "name", .str (js "K")), (js "idCard", .str (js "c")),
        (js "checkItems", .arr (turn [
          .obj [(js "id", .str (js "i"))],
          .obj [(js "id", .str (js "j")), (js "name", .str (js "J"))]]))]]))]

theorem turned_shuffled : ShuffledExport (unsortedExport id) (unsortedExport List.reverse) := by
  have hturn : ∀ entries : List Json, ShuffledMember Eq (some (.arr entries)) (some (.arr entries.reverse)) :=
    fun entries => .inr ⟨entries, entries, entries.reverse, rfl, rfl,
      List.forall₂_same.mpr fun _ _ => rfl, List.reverse_perm _⟩
  refine ⟨hturn _, hturn _, hturn _, .inr ⟨_, _, _, rfl, rfl, .cons ?_ .nil, .refl _⟩, ?_⟩
  · refine .inr ⟨_, _, rfl, rfl, fun name hname => ?_, hturn _⟩
    simp [member, Ne.symm hname]
  · intro name hname
    simp only [List.mem_cons, List.not_mem_nil, or_false, not_or] at hname
    obtain ⟨hlists, hcards, hlabels, hchecklists⟩ := hname
    simp [unsortedExport, member, Ne.symm hlists, Ne.symm hcards, Ne.symm hlabels, Ne.symm hchecklists]

/-- Turned round, the export makes the same plan, its columns in the order of `pos`. -/
theorem import_order_unsorted :
    (planTrelloImport .bare countedIds (js "u") (readExport (js "b") (unsortedExport id))).InTrelloOrder
        (readExport (js "b") (unsortedExport id)).source ∧
      ∃ read' f, parseTrelloExport (some (.obj (unsortedExport List.reverse))) = .ok read' ∧
        Set.InjOn f (Set.range countedIds) ∧
        (planTrelloImport .bare countedIds (js "u")
          (readExport (js "b") (unsortedExport id))).RenamedBy f
          (planTrelloImport .bare countedIds (js "u") read') := by
  have hread : parseTrelloExport (some (.obj (unsortedExport id))) =
      .ok (readExport (js "b") (unsortedExport id)) := by rfl
  have hd : (readExport (js "b") (unsortedExport id)).source.DistinctIds :=
    ⟨by decide +kernel, by decide +kernel, by decide +kernel, by decide +kernel, by decide +kernel⟩
  obtain ⟨horder, hsame⟩ := import_order countedIds_injective hread hd
  exact ⟨horder, hsame _ turned_shuffled countedIds countedIds_injective⟩

end Kurul
