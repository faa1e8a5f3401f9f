import Kurul.Import.LabelColors
import Kurul.Import.PlanRows

/-!
# Kurul.Import.Storable

What a database column takes: text without U+0000, and no time before 4713 BC. Neither the reader
nor the planner looks for either, so a plan can be stored exactly where the entries that come across
have none.

* `plan_storable` — a plan is storable exactly when what comes across is.
-/

namespace Kurul

open Plan

/-! ## What a column takes -/

/-- Text without U+0000. -/
def Clean (s : JsString) : Prop := 0 ∉ s

instance (s : JsString) : Decidable (Clean s) := inferInstanceAs (Decidable (0 ∉ s))

/-- The first instant of 4713 BC. -/
def earliestTimestamp : Instant := -210863520000000

example : toISOString earliestTimestamp = js "-004712-01-01T00:00:00.000Z" := by decide +kernel

def PlannedBoard.texts (b : PlannedBoard) : List JsString := [b.id, b.name] ++ b.description.toList

def PlannedColumn.texts (c : PlannedColumn) : List JsString := [c.id, c.boardId, c.name]

/-- A member of `Object.prototype` is no text. -/
def PlannedLabel.texts (l : PlannedLabel) : List JsString :=
  [l.id, l.boardId, l.name] ++
    match l.color with
    | .slot name => [name]
    | .inherited => []

def PlannedTask.texts (t : PlannedTask) : List JsString :=
  [t.id, t.boardId, t.columnId, t.title] ++ t.description.toList ++ [t.createdById]

def TaskLabelRow.texts (r : TaskLabelRow) : List JsString := [r.id, r.taskId, r.labelId]

def ChecklistRow.texts (c : ChecklistRow) : List JsString := [c.id, c.taskId, c.title]

def ChecklistItemRow.texts (i : ChecklistItemRow) : List JsString := [i.id, i.checklistId, i.content]

def PlannedAttachment.texts (a : PlannedAttachment) : List JsString :=
  [a.id, a.taskId, a.uploadedById, a.filename, a.url] ++ a.storageKey.toList ++ a.mimeType.toList

/-- Every row of a plan can be stored. -/
structure TrelloImportPlan.Storable (plan : TrelloImportPlan) : Prop where
  board : ∀ s ∈ plan.board.texts, Clean s
  columns : ∀ c ∈ plan.columns, ∀ s ∈ c.texts, Clean s
  labels : ∀ l ∈ plan.labels, ∀ s ∈ l.texts, Clean s
  tasks : ∀ t ∈ plan.tasks, ∀ s ∈ t.texts, Clean s
  dueDates : ∀ t ∈ plan.tasks, ∀ due ∈ t.dueDate, earliestTimestamp ≤ due
  taskLabels : ∀ r ∈ plan.taskLabels, ∀ s ∈ r.texts, Clean s
  checklists : ∀ c ∈ plan.checklists, ∀ s ∈ c.texts, Clean s
  checklistItems : ∀ i ∈ plan.checklistItems, ∀ s ∈ i.texts, Clean s
  attachments : ∀ a ∈ plan.attachments, ∀ s ∈ a.texts, Clean s

/-! ## Storable exports -/

/-- A card whose texts and date a column takes. -/
structure TrelloCard.Storable (rt : Runtime) (card : TrelloCard) : Prop where
  name : Clean card.name
  desc : ∀ s ∈ card.desc, Clean s
  due : ∀ raw ∈ card.due, ∀ due ∈ rt.parseDate raw, earliestTimestamp ≤ due
  attachments : ∀ a ∈ card.attachments, (classifyUrl rt a.url).isOk → Clean a.name

/-- An export of which everything that comes across is storable. -/
structure TrelloExport.Storable (rt : Runtime) (source : TrelloExport) : Prop where
  name : Clean source.name
  desc : ∀ s ∈ source.desc, Clean s
  lists : ∀ list ∈ source.lists, list.live → Clean list.name
  labels : ∀ label ∈ source.labels, Clean label.name ∧
    (isUnnamed label.name → ∀ color ∈ label.color, Clean color)
  cards : ∀ card ∈ source.cards, card.comesAcross source → card.Storable rt
  checklists : ∀ checklist ∈ source.checklists, checklist.comesAcross source →
    Clean checklist.name ∧ ∀ item ∈ checklist.checkItems, Clean item.name

/-! ## Identifiers -/

section Texts

variable {rt : Runtime} {uuidv7 : Nat → Id} {actorId : Id}

/-- Every identifier of a plan has been generated for it. -/
theorem planBody_ids (read : TrelloExportReadResult) :
    (planBody rt uuidv7 actorId read).Gives fun plan => ∀ id ∈ plan.ids, ∃ n, uuidv7 n = id := by
  refine gives_then (gives_newId.bind fun boardId hboard => gives_any.bind fun sorted _ =>
    Gives.bind (P := fun r => ∀ id ∈ r.1.map PlannedColumn.id, ∃ n, uuidv7 n = id)
      (fun s id hid => (planColumns_books _ 0 .empty s).issued_of_mem hid) fun columns hcolumns =>
    gives_then (Gives.bind (P := fun r => ∀ id ∈ r.1.map PlannedLabel.id, ∃ n, uuidv7 n = id)
      (fun s id hid => ?_) fun labels hlabels => gives_any.bind fun cards _ =>
    Gives.bind (P := fun r => ∀ id ∈ r.1.ids, ∃ n, uuidv7 n = id) (fun s id hid => ?_)
      fun rows hrows => gives_any.bind fun byTask _ =>
    Gives.bind (P := fun r => ∀ id ∈ r.1.map ChecklistRow.id ++ r.2.map ChecklistItemRow.id,
      ∃ n, uuidv7 n = id) (fun s id hid => ?_) fun checklists hchecklists =>
    gives_then (gives_then fun s id hid => ?_)))
  · exact (planLabels_books rt uuidv7 boardId _ .empty s).choose_spec.issued_of_mem hid
  · obtain ⟨_, _, _, hplans⟩ := planTasks_parts rt uuidv7 actorId boardId labels.2
      cards.cardsByColumnId columns.1 .empty s
    exact hplans.books.choose_spec.issued_of_mem hid
  · obtain ⟨_, _, _, hplans⟩ := planChecklists_parts uuidv7 byTask rows.1.tasks s
    exact hplans.books.issued_of_mem hid
  · rcases List.mem_cons.mp hid with rfl | hid
    · exact hboard
    · rcases List.mem_append.mp hid with hid | hid
      · exact hcolumns id hid
      · rcases List.mem_append.mp hid with hid | hid
        · exact hlabels id hid
        · rcases List.mem_append.mp hid with hid | hid
          · exact hrows id hid
          · exact hchecklists id hid

end Texts

/-! ## Texts -/

theorem isSpace_zero : isSpace 0 = false := by decide

/-- White space alone has no U+0000. -/
theorem clean_of_isUnnamed {s : JsString} (h : isUnnamed s = true) : Clean s := by
  intro hzero
  have hspace := trim_eq_nil_iff.mp (of_decide_eq_true h) 0 hzero
  rw [isSpace_zero] at hspace
  cases hspace

theorem mem_zero_dropWhile (s : JsString) : 0 ∈ s.dropWhile isSpace ↔ 0 ∈ s := by
  refine ⟨fun h => (List.dropWhile_sublist _).subset h, fun h => ?_⟩
  rw [← List.takeWhile_append_dropWhile (p := isSpace) (l := s)] at h
  refine (List.mem_append.mp h).resolve_left fun htake => ?_
  have hspace := List.mem_takeWhile_imp htake
  rw [isSpace_zero] at hspace
  cases hspace

@[simp] theorem clean_trim {s : JsString} : Clean (trim s) ↔ Clean s := by
  simp [Clean, trim, mem_zero_dropWhile]

/-- Dropping a blank text drops no U+0000. -/
theorem clean_emptyToNull {value : Option JsString} :
    (∀ s ∈ emptyToNull value, Clean s) ↔ ∀ s ∈ value, Clean s := by
  refine ⟨fun h s hs => ?_, fun h s hs => h s ?_⟩
  · by_cases hblank : trim s = []
    · exact clean_of_isUnnamed (decide_eq_true hblank)
    · exact h s (Option.mem_filter_iff.mpr ⟨hs, decide_eq_true hblank⟩)
  · exact (Option.mem_filter_iff.mp hs).1

theorem clean_labelName {label : TrelloLabel} : Clean (labelName label) ↔
    Clean label.name ∧ (isUnnamed label.name → ∀ color ∈ label.color, Clean color) := by
  unfold labelName
  split
  case isTrue hname =>
    have hlabel : Clean (js "Label") := by decide +kernel
    cases hcolor : label.color with
    | none => simp [hlabel, clean_of_isUnnamed hname]
    | some color =>
      by_cases hblank : trim color = []
      · have hclean : Clean color := clean_of_isUnnamed (decide_eq_true hblank)
        simp [hname, hblank, hlabel, hclean, clean_of_isUnnamed hname]
      · simp [hname, hblank, clean_of_isUnnamed hname]
  case isFalse hname => simp [hname]

theorem clean_slot {rt : Runtime} {color : Option JsString} {name : JsString}
    (h : (trelloColorToSlot rt color).slot = .slot name) : Clean name := by
  have hslots : ∀ slot ∈ labelColorSlots, Clean slot := by decide +kernel
  have hfallback : Clean (js "slot-1") := by decide +kernel
  unfold trelloColorToSlot at h
  dsimp only at h
  split at h
  case h_1 slot hlookup =>
    obtain rfl : slot = name := SlotValue.slot.inj h
    exact hslots _ (lookup_slot hlookup).1
  case h_2 =>
    split at h
    · cases h
    · exact SlotValue.slot.inj h ▸ hfallback

/-- A URL is written out without U+0000. -/
def Runtime.CleanHrefs (rt : Runtime) : Prop := ∀ s u, rt.parseUrl s = some u → Clean u.href

theorem clean_classifyUrl {rt : Runtime} (hrt : rt.CleanHrefs) {raw url : JsString}
    (h : classifyUrl rt raw = .ok url) : Clean url := by
  unfold classifyUrl at h
  split at h
  case h_1 => cases h
  case h_2 parsed hparsed =>
    split at h
    · exact Except.ok.inj h ▸ hrt _ _ hparsed
    · cases h

/-- Both texts of a link, where the runtime writes clean URLs. -/
theorem clean_links {rt : Runtime} (hrt : rt.CleanHrefs) {card : TrelloCard} :
    (∀ link ∈ card.links rt, Clean link.1 ∧ Clean link.2) ↔
      ∀ a ∈ card.attachments, (classifyUrl rt a.url).isOk → Clean a.name := by
  have hone : ∀ a : TrelloAttachment, (∀ link ∈ storedLink rt a, Clean link.1 ∧ Clean link.2) ↔
      ((classifyUrl rt a.url).isOk → Clean a.name) := by
    intro a
    unfold storedLink
    cases hu : classifyUrl rt a.url with
    | error reason => simp [Except.isOk, Except.toBool]
    | ok url =>
      have hclean := clean_classifyUrl hrt hu
      by_cases hname : isUnnamed a.name = true
      · simp [hname, hclean, clean_of_isUnnamed hname]
      · simp [hname, hclean, Except.isOk, Except.toBool]
  simp only [TrelloCard.links, List.mem_filterMap, ← hone]
  constructor
  · exact fun h a ha link hlink => h link ⟨a, ha, hlink⟩
  · rintro h link ⟨a, ha, hlink⟩
    exact h a ha link hlink

/-! ## A whole plan -/

/-- In lists matched one to one, a property of the one side is one of the other. -/
theorem forall_mem_iff_of_forall₂ {α β : Type} {r : α → β → Prop} {P : α → Prop} {Q : β → Prop}
    {l : List α} {l' : List β} (h : List.Forall₂ r l l')
    (hiff : ∀ a ∈ l, ∀ b ∈ l', r a b → (P a ↔ Q b)) : (∀ a ∈ l, P a) ↔ ∀ b ∈ l', Q b := by
  induction h with
  | nil => simp
  | @cons a b l l' hab _ ih =>
    rw [List.forall_mem_cons, List.forall_mem_cons,
      hiff a List.mem_cons_self b List.mem_cons_self hab, ih fun a ha b hb =>
        hiff a (List.mem_cons_of_mem _ ha) b (List.mem_cons_of_mem _ hb)]

section Plan

variable {rt : Runtime} {actorId : Id} {read : TrelloExportReadResult} {plan : TrelloImportPlan}

/-- Every reference of a row is to the actor or to a row of the plan. -/
theorem Planned.ids_clean (p : Planned rt actorId read plan) (hactor : Clean actorId)
    (hids : ∀ id ∈ plan.ids, Clean id) :
    Clean plan.board.id ∧
    (∀ c ∈ plan.columns, Clean c.id ∧ Clean c.boardId) ∧
    (∀ l ∈ plan.labels, Clean l.id ∧ Clean l.boardId) ∧
    (∀ t ∈ plan.tasks, Clean t.id ∧ Clean t.boardId ∧ Clean t.columnId ∧ Clean t.createdById) ∧
    (∀ r ∈ plan.taskLabels, Clean r.id ∧ Clean r.taskId ∧ Clean r.labelId) ∧
    (∀ c ∈ plan.checklists, Clean c.id ∧ Clean c.taskId) ∧
    (∀ i ∈ plan.checklistItems, Clean i.id ∧ Clean i.checklistId) ∧
    ∀ a ∈ plan.attachments, Clean a.id ∧ Clean a.taskId ∧ Clean a.uploadedById := by
  simp only [TrelloImportPlan.ids, TaskRows.ids, List.forall_mem_cons, List.forall_mem_append,
    List.forall_mem_map] at hids
  obtain ⟨hboard, hcolumns, hlabels, ⟨⟨htasks, htaskLabels⟩, hattachments⟩, hchecklists, hitems⟩ :=
    hids
  have htask : ∀ part ∈ p.cards, Clean part.task.id := by
    intro part hpart
    exact htasks _ (p.tasks_eq ▸ List.mem_map_of_mem hpart)
  refine ⟨hboard, fun c hc => ⟨hcolumns c hc, ?_⟩, fun l hl => ⟨hlabels l hl, ?_⟩,
    fun t ht => ⟨htasks t ht, ?_⟩, fun r hr => ⟨htaskLabels r hr, ?_⟩,
    fun c hc => ⟨hchecklists c hc, ?_⟩, fun i hi => ⟨hitems i hi, ?_⟩,
    fun a ha => ⟨hattachments a ha, ?_⟩⟩
  · obtain ⟨list, _, hof⟩ := exists_of_forall₂_right p.columns_of hc
    exact hof.boardId ▸ hboard
  · exact p.labels_board l hl ▸ hboard
  · rw [p.tasks_eq] at ht
    obtain ⟨part, hpart, rfl⟩ := List.mem_map.mp ht
    obtain ⟨c, hc, hid⟩ := List.mem_map.mp (p.task_column part hpart)
    rw [part.board, part.creator, ← hid]
    exact ⟨hboard, hcolumns c hc, hactor⟩
  · rw [p.taskLabels_eq] at hr
    obtain ⟨part, hpart, hr⟩ := List.mem_flatMap.mp hr
    obtain ⟨hof, k, hk⟩ := part.labels r hr
    obtain ⟨l, hl, hid⟩ := List.mem_map.mp (p.label_ids k _ hk)
    exact ⟨hof ▸ htask part hpart, hid ▸ hlabels l hl⟩
  · rw [p.checklists_eq] at hc
    obtain ⟨part, hpart, rfl⟩ := List.mem_map.mp hc
    obtain ⟨t, ht, hid⟩ := List.mem_map.mp (p.checklist_task part hpart)
    exact hid ▸ htasks t ht
  · rw [p.checklistItems_eq] at hi
    obtain ⟨part, hpart, hi⟩ := List.mem_flatMap.mp hi
    rw [(part.items_of i hi).1]
    exact hchecklists _ (p.checklists_eq ▸ List.mem_map_of_mem hpart)
  · rw [p.attachments_eq] at ha
    obtain ⟨part, hpart, ha⟩ := List.mem_flatMap.mp ha
    have hlink := part.links a ha
    exact ⟨hlink.taskId ▸ htask part hpart, hlink.uploader ▸ hactor⟩

theorem Outcome.cards_storable (o : Outcome rt read.source plan)
    (hnd : (plan.columns.map PlannedColumn.id).Nodup) (hrt : rt.CleanHrefs) :
    ((∀ t ∈ plan.tasks, (Clean t.title ∧ ∀ s ∈ t.description, Clean s) ∧
        ∀ due ∈ t.dueDate, earliestTimestamp ≤ due) ∧
      ∀ a ∈ plan.attachments, Clean a.filename ∧ Clean a.url) ↔
    ∀ card ∈ read.source.cards, card.comesAcross read.source → card.Storable rt := by
  have htasks := forall_mem_iff_of_forall₂ o.cards_of
    (P := fun card => (Clean card.name ∧ ∀ s ∈ card.desc, Clean s) ∧
      ∀ raw ∈ card.due, ∀ due ∈ rt.parseDate raw, earliestTimestamp ≤ due)
    (Q := fun t => (Clean t.title ∧ ∀ s ∈ t.description, Clean s) ∧
      ∀ due ∈ t.dueDate, earliestTimestamp ≤ due) fun card _ t _ ⟨columnId, hof⟩ => by
        rw [hof.title, hof.description, hof.dueDate, clean_emptyToNull]
        simp only [Option.mem_def, Option.bind_eq_some_iff, exists_imp, and_imp]
        exact and_congr_right fun _ => ⟨fun h due raw hraw => h raw hraw due,
          fun h raw hraw due => h due raw hraw⟩
  have hlinks : (∀ a ∈ plan.attachments, Clean a.filename ∧ Clean a.url) ↔
      ∀ card ∈ o.cards, ∀ a ∈ card.attachments, (classifyUrl rt a.url).isOk → Clean a.name := by
    have hmap : (∀ a ∈ plan.attachments, Clean a.filename ∧ Clean a.url) ↔
        ∀ link ∈ plan.attachments.map (fun row => (row.filename, row.url)),
          Clean link.1 ∧ Clean link.2 := by simp
    rw [hmap, o.links, ← Outcome.cards]
    simp only [← clean_links hrt, List.mem_flatMap]
    exact ⟨fun h card hcard link hlink => h link ⟨card, hcard, hlink⟩,
      fun h link ⟨card, hcard, hlink⟩ => h card hcard link hlink⟩
  rw [← htasks, hlinks, ← forall₂_and]
  simp only [(o.cards_perm hnd).mem_iff, List.mem_filter, and_imp]
  exact forall₃_congr fun card _ _ => ⟨fun ⟨⟨⟨hname, hdesc⟩, hdue⟩, hlink⟩ =>
    ⟨hname, hdesc, hdue, hlink⟩, fun h => ⟨⟨⟨h.name, h.desc⟩, h.due⟩, h.attachments⟩⟩

theorem Outcome.checklists_clean (o : Outcome rt read.source plan)
    (hnd : (plan.columns.map PlannedColumn.id).Nodup)
    (hnd' : (plan.tasks.map PlannedTask.id).Nodup) :
    ((∀ c ∈ plan.checklists, Clean c.title) ∧ ∀ i ∈ plan.checklistItems, Clean i.content) ↔
    ∀ checklist ∈ read.source.checklists, checklist.comesAcross read.source →
      Clean checklist.name ∧ ∀ item ∈ checklist.checkItems, Clean item.name := by
  have hwritten : ∀ w ∈ o.written.flatten,
      (Clean w.row.title ∧ ∀ i ∈ w.items, Clean i.content) ↔
        Clean w.checklist.name ∧ ∀ item ∈ w.checklist.checkItems, Clean item.name := by
    intro w hw
    obtain ⟨taskId, hon⟩ := o.written_on hw
    rw [hon.title, ← forall_mem_iff_of_forall₂ hon.items (P := fun item => Clean item.name)
      fun item _ row _ hof => by rw [hof.content]]
    simp only [TrelloChecklist.usable, List.mem_filter, (orderedByPos_perm _).mem_iff, and_imp]
    refine and_congr_right fun _ => forall₂_congr fun item _ => ⟨fun h => ?_, fun h _ => h⟩
    by_cases hname : isUnnamed item.name = true
    · exact clean_of_isUnnamed hname
    · exact h (by simpa using hname)
  rw [o.checklists_eq, o.items_eq]
  calc ((∀ c ∈ o.written.flatten.map WrittenChecklist.row, Clean c.title) ∧
        ∀ i ∈ o.written.flatten.flatMap WrittenChecklist.items, Clean i.content)
      ↔ ∀ w ∈ o.written.flatten, Clean w.row.title ∧ ∀ i ∈ w.items, Clean i.content := by
        simp only [List.forall_mem_map, List.forall_mem_flatMap, ← forall₂_and]
    _ ↔ ∀ w ∈ o.written.flatten,
          Clean w.checklist.name ∧ ∀ item ∈ w.checklist.checkItems, Clean item.name :=
        forall₂_congr hwritten
    _ ↔ ∀ checklist ∈ o.written.flatten.map WrittenChecklist.checklist,
          Clean checklist.name ∧ ∀ item ∈ checklist.checkItems, Clean item.name := by
        rw [List.forall_mem_map]
    _ ↔ _ := by
        rw [o.written_checklists]
        simp only [(o.checklists_perm hnd hnd').mem_iff, List.mem_filter, and_imp]

theorem Outcome.storable (o : Outcome rt read.source plan) (p : Planned rt actorId read plan)
    (hrt : rt.CleanHrefs) (hactor : Clean actorId) (hids : ∀ id ∈ plan.ids, Clean id) :
    plan.Storable ↔ read.source.Storable rt := by
  obtain ⟨hboard, hcolumn, hlabel, htask, htaskLabel, hchecklist, hitem, hattachment⟩ :=
    p.ids_clean hactor hids
  have hnd : (plan.columns.map PlannedColumn.id).Nodup :=
    p.ids_nodup.sublist (((List.sublist_append_left _ _)).cons _)
  have hname : Clean plan.board.name ↔ Clean read.source.name := by
    rw [o.name]
    split
    case isTrue h =>
      have himported : Clean (js "Imported board") := by decide +kernel
      exact iff_of_true himported (clean_of_isUnnamed h)
    case isFalse => exact Iff.rfl
  have hlists : (∀ c ∈ plan.columns, Clean c.name) ↔
      ∀ list ∈ read.source.lists, list.live → Clean list.name := by
    rw [← forall_mem_iff_of_forall₂ o.columns_of (P := fun list => Clean list.name)
      fun list _ c _ hof => by rw [hof.name]]
    simp only [(orderedByPos_perm _).mem_iff, List.mem_filter, and_imp]
  have hlabels : (∀ l ∈ plan.labels, Clean l.name) ↔ ∀ label ∈ read.source.labels,
      Clean label.name ∧ (isUnnamed label.name → ∀ color ∈ label.color, Clean color) :=
    (forall_mem_iff_of_forall₂ o.labels_of fun label _ l _ hof => by
      rw [hof.name, clean_labelName]).symm
  have hslot : ∀ l ∈ plan.labels, ∀ slot, l.color = .slot slot → Clean slot := by
    intro l hl slot hcolor
    obtain ⟨label, _, hof⟩ := exists_of_forall₂_right o.labels_of hl
    exact clean_slot (hof.color ▸ hcolor)
  have hcards := o.cards_storable hnd hrt
  have hchecklists := o.checklists_clean hnd p.tasks_nodup
  have hlink : ∀ a ∈ plan.attachments, a.storageKey = none ∧ a.mimeType = none := by
    intro a ha
    rw [p.attachments_eq] at ha
    obtain ⟨part, _, ha⟩ := List.mem_flatMap.mp ha
    exact ⟨(part.links a ha).storageKey, (part.links a ha).mimeType⟩
  constructor
  · intro h
    have hboardTexts := h.board
    simp only [PlannedBoard.texts, o.description, List.forall_mem_append, List.forall_mem_cons,
      Option.mem_toList] at hboardTexts
    exact {
      name := hname.mp hboardTexts.1.2.1
      desc := clean_emptyToNull.mp hboardTexts.2
      lists := hlists.mp fun c hc => h.columns c hc _ (by simp [PlannedColumn.texts])
      labels := hlabels.mp fun l hl => h.labels l hl _ (by simp [PlannedLabel.texts])
      cards := hcards.mp ⟨fun t ht => ⟨⟨h.tasks t ht _ (by simp [PlannedTask.texts]),
          fun s hs => h.tasks t ht s (by simp [PlannedTask.texts, Option.mem_def.mp hs])⟩,
          h.dueDates t ht⟩,
        fun a ha => ⟨h.attachments a ha _ (by simp [PlannedAttachment.texts]),
          h.attachments a ha _ (by simp [PlannedAttachment.texts])⟩⟩
      checklists := hchecklists.mp
        ⟨fun c hc => h.checklists c hc _ (by simp [ChecklistRow.texts]),
          fun i hi => h.checklistItems i hi _ (by simp [ChecklistItemRow.texts])⟩ }
  · intro h
    obtain ⟨htasks, hlinks⟩ := hcards.mpr h.cards
    obtain ⟨htitles, hcontents⟩ := hchecklists.mpr h.checklists
    exact {
      board := by
        simp only [PlannedBoard.texts, o.description, List.forall_mem_append, List.forall_mem_cons,
          Option.mem_toList]
        exact ⟨⟨hboard, hname.mpr h.name, by simp⟩, clean_emptyToNull.mpr h.desc⟩
      columns := fun c hc => by
        simpa [PlannedColumn.texts, hcolumn c hc] using hlists.mpr h.lists c hc
      labels := fun l hl => by
        have hlname := hlabels.mpr h.labels l hl
        cases hcolor : l.color with
        | slot slot => simp [PlannedLabel.texts, hcolor, hlabel l hl, hlname, hslot l hl slot hcolor]
        | inherited => simp [PlannedLabel.texts, hcolor, hlabel l hl, hlname]
      tasks := fun t ht => by
        obtain ⟨⟨htitle, hdescription⟩, _⟩ := htasks t ht
        simp only [PlannedTask.texts, List.forall_mem_append, List.forall_mem_cons,
          Option.mem_toList]
        obtain ⟨hid, hboardId, hcolumnId, hcreator⟩ := htask t ht
        exact ⟨⟨⟨hid, hboardId, hcolumnId, htitle, by simp⟩, hdescription⟩, hcreator, by simp⟩
      dueDates := fun t ht => (htasks t ht).2
      taskLabels := fun r hr => by simp [TaskLabelRow.texts, htaskLabel r hr]
      checklists := fun c hc => by simp [ChecklistRow.texts, hchecklist c hc, htitles c hc]
      checklistItems := fun i hi => by simp [ChecklistItemRow.texts, hitem i hi, hcontents i hi]
      attachments := fun a ha => by
        simp [PlannedAttachment.texts, hattachment a ha, hlinks a ha, hlink a ha] }

/-- Neither the reader nor the planner looks at what a column takes: whatever was read, its plan is
storable exactly when everything that comes across is. -/
theorem plan_storable {uuidv7 : Nat → Id} (hrt : rt.CleanHrefs) (hinj : Function.Injective uuidv7)
    (hids : ∀ n, Clean (uuidv7 n)) (hactor : Clean actorId) (read : TrelloExportReadResult) :
    (planTrelloImport rt uuidv7 actorId read).Storable ↔ read.source.Storable rt := by
  obtain ⟨p⟩ : Nonempty (Planned rt actorId read (planTrelloImport rt uuidv7 actorId read)) :=
    planned hinj read
  obtain ⟨o⟩ : Nonempty (Outcome rt read.source (planTrelloImport rt uuidv7 actorId read)) :=
    planBody_gives read _
  refine o.storable p hrt hactor fun id hid => ?_
  obtain ⟨n, rfl⟩ := planBody_ids read _ id hid
  exact hids n

end Plan

/-! ## Two exports -/

theorem bare_cleanHrefs : Runtime.bare.CleanHrefs := fun _ _ h => nomatch h

theorem countedIds_clean (n : Nat) : Clean (countedIds n) := by
  intro h
  have hzero : (0 : CodeUnit) = 120 := (List.mem_replicate.mp h).2
  exact absurd hzero (by decide)

/-- A list, archived or not, and a card on it, both with this name. -/
def listAndCard (closed : Bool) (name : JsString) : List (JsString × Json) :=
  [(js "name", .str (js "b")),
    (js "lists", .arr [.obj [(js "id", .str (js "l")), (js "name", .str name),
      (js "closed", .bool closed)]]),
    (js "cards", .arr [.obj [(js "id", .str (js "c")), (js "name", .str name),
      (js "idList", .str (js "l"))]])]

/-- U+0000 in what does not come across harms nothing. -/
theorem plan_storable_archived :
    (planTrelloImport .bare countedIds (js "u")
      (readExport (js "b") (listAndCard true [97, 0, 98]))).Storable := by
  refine (plan_storable bare_cleanHrefs countedIds_injective countedIds_clean (by decide +kernel) _).mpr ?_
  have hlists : ∀ list ∈ (readExport (js "b") (listAndCard true [97, 0, 98])).source.lists,
      ¬ list.live = true := by decide +kernel
  have hcards : ∀ card ∈ (readExport (js "b") (listAndCard true [97, 0, 98])).source.cards,
      ¬ card.comesAcross (readExport (js "b") (listAndCard true [97, 0, 98])).source = true := by
    decide +kernel
  exact {
    name := by decide +kernel
    desc := by decide +kernel
    lists := fun list hlist hlive => absurd hlive (hlists list hlist)
    labels := by decide +kernel
    cards := fun card hcard hacross => absurd hacross (hcards card hcard)
    checklists := by decide +kernel }

/-- U+0000 is not white space, and nothing else is looked for in a card's name. -/
theorem nul_comes_across :
    ¬ ∀ (rt : Runtime) (uuidv7 : Nat → Id) (actorId : Id) (parsed : Option Json)
      (read : TrelloExportReadResult), rt.CleanHrefs → Function.Injective uuidv7 →
      (∀ n, Clean (uuidv7 n)) → Clean actorId → parseTrelloExport parsed = .ok read →
      (planTrelloImport rt uuidv7 actorId read).Storable := by
  intro h
  have hread : parseTrelloExport (some (.obj (listAndCard false [97, 0, 98]))) =
      .ok (readExport (js "b") (listAndCard false [97, 0, 98])) := by rfl
  have hplan := h .bare countedIds (js "u") _ _ bare_cleanHrefs countedIds_injective countedIds_clean
    (by decide +kernel) hread
  have htask : ((planTrelloImport .bare countedIds (js "u")
      (readExport (js "b") (listAndCard false [97, 0, 98]))).tasks.all fun t => decide (Clean t.title)) =
        false := by decide +kernel
  refine absurd htask (Bool.not_eq_false _ ▸ List.all_eq_true.mpr fun t ht => ?_)
  exact decide_eq_true (hplan.tasks t ht _ (by simp [PlannedTask.texts]))

end Kurul
