import Kurul.Import.PlanParts

/-!
# Kurul.Import.PlanRows

What the planner's stretches give, row by row and in order, whatever was generated and skipped
before them. `Plan.Gives` is the rule they compose by.

* `planTasks_gives`      — each column's cards in order, with their positions and links.
* `planChecklists_gives` — each task's checklists in order, and under each its items.
* `Outcome`, `planBody_gives` — a whole plan against the export it was made from.
* `Outcome.cards_perm`, `Outcome.checklists_perm` — which cards and checklists come across.
-/

namespace Kurul

open Plan

namespace Plan

variable {α β : Type} {p : Plan α} {f : α → Plan β} {P P' : α → Prop} {Q : β → Prop}

/-- What a stretch gives, in every state it may be run in. -/
def Gives (p : Plan α) (P : α → Prop) : Prop := ∀ s, P (p s).1

theorem gives_pure {a : α} (h : P a) : (pure a : Plan α).Gives P := fun _ => h

theorem Gives.bind (h : p.Gives P) (hf : ∀ a, P a → (f a).Gives Q) : (p >>= f).Gives Q :=
  fun s => hf _ (h s) _

theorem Gives.mono (h : p.Gives P) (hP : ∀ a, P a → P' a) : p.Gives P' := fun s => hP _ (h s)

theorem Gives.and (h : p.Gives P) (h' : p.Gives P') : p.Gives fun a => P a ∧ P' a :=
  fun s => ⟨h s, h' s⟩

theorem gives_any : p.Gives fun _ => True := fun _ => trivial

/-- A stretch that gives nothing. -/
theorem gives_then {p : Plan Unit} {q : Plan β} (h : q.Gives Q) : (p >>= fun _ => q).Gives Q :=
  gives_any.bind fun _ _ => h

theorem gives_newId {uuidv7 : Nat → Id} : (newId uuidv7).Gives fun id => ∃ n, uuidv7 n = id :=
  fun s => ⟨s.issued, rfl⟩

end Plan

/-! ## Positions -/

/-- The positions of `count` entries, from `index` on. -/
def spreadFrom (count index n : Nat) : List Position :=
  (List.range' index n).map (positionsFor count)

theorem spreadFrom_succ (count index n : Nat) :
    spreadFrom count index (n + 1) = positionsFor count index :: spreadFrom count (index + 1) n := rfl

/-- Entries are spread evenly, the first one gap from the start. -/
theorem spreadFrom_eq (count : Nat) : spreadFrom count 0 count = rebalancePositions count := by
  refine List.ext_getElem (by simp [spreadFrom]) fun i hi hi' => ?_
  simp only [spreadFrom, List.getElem_map, List.getElem_range', Nat.zero_add, Nat.one_mul,
    positionsFor]
  rw [List.getElem?_eq_getElem hi', Option.getD_some]

/-! ## Columns and labels -/

section Rows

variable {rt : Runtime} {uuidv7 : Nat → Id} {actorId boardId : Id}

theorem planColumns_gives (count : Nat) (lists : List TrelloList) : ∀ index byId,
    (planColumns uuidv7 boardId count index lists byId).Gives fun r =>
      List.Forall₂ (PlannedColumn.Of boardId) lists r.1 ∧
      r.1.map PlannedColumn.position = spreadFrom count index lists.length ∧
      r.2 = byId.setAll (List.zipWith (fun list column => (list.id, column.id)) lists r.1) := by
  induction lists with
  | nil => exact fun _ _ => gives_pure ⟨.nil, rfl, rfl⟩
  | cons list rest ih =>
    intro index byId
    refine gives_newId.bind fun id _ => (ih _ _).bind fun r ⟨hof, hpos, hmap⟩ => gives_pure ?_
    refine ⟨.cons ⟨rfl, rfl⟩ hof, ?_, hmap⟩
    rw [List.map_cons, hpos, List.length_cons, spreadFrom_succ]

/-- A label made from a label. -/
structure PlannedLabel.Of (rt : Runtime) (boardId : Id) (label : TrelloLabel) (row : PlannedLabel) :
    Prop where
  boardId : row.boardId = boardId
  name : row.name = labelName label
  color : row.color = (trelloColorToSlot rt label.color).slot

theorem planLabels_gives (labels : List TrelloLabel) : ∀ byId,
    (planLabels rt uuidv7 boardId labels byId).Gives fun r =>
      List.Forall₂ (PlannedLabel.Of rt boardId) labels r.1 ∧
      r.2 = byId.setAll (List.zipWith (fun label row => (label.id, row.id)) labels r.1) := by
  induction labels with
  | nil => exact fun _ => gives_pure ⟨.nil, rfl⟩
  | cons label rest ih =>
    intro byId s
    obtain ⟨_, s₁, _, heq⟩ := planLabels_cons rt boardId label rest byId s
    obtain ⟨hof, hmap⟩ := ih (byId.set label.id (newId uuidv7 s).1) s₁
    rw [heq]
    exact ⟨.cons ⟨rfl, rfl, rfl⟩ hof, hmap⟩

/-! ## Tasks -/

/-- A task made from a card. -/
structure PlannedTask.Of (rt : Runtime) (columnId : Id) (card : TrelloCard) (task : PlannedTask) :
    Prop where
  columnId : task.columnId = columnId
  title : task.title = card.name
  description : task.description = emptyToNull card.desc
  dueDate : task.dueDate = card.due.bind rt.parseDate

/-- The name and the URL an attachment is stored with, where it can be stored. -/
def storedLink (rt : Runtime) (attachment : TrelloAttachment) : Option (JsString × JsString) :=
  match classifyUrl rt attachment.url with
  | .error _ => none
  | .ok url => some (if isUnnamed attachment.name then url else attachment.name, url)

theorem planAttachments_gives (taskId : Id) (attachments : List TrelloAttachment) :
    (planAttachments rt uuidv7 actorId taskId attachments).Gives fun rows =>
      rows.map (fun row => (row.filename, row.url)) = attachments.filterMap (storedLink rt) := by
  induction attachments with
  | nil => exact gives_pure rfl
  | cons attachment rest ih =>
    cases hu : classifyUrl rt attachment.url with
    | error reason =>
      have hnone : storedLink rt attachment = none := by simp [storedLink, hu]
      simp only [planAttachments, hu, List.filterMap_cons, hnone]
      exact gives_then ih
    | ok url =>
      have hsome : storedLink rt attachment =
          some (if isUnnamed attachment.name then url else attachment.name, url) := by
        simp [storedLink, hu]
      simp only [planAttachments, hu, List.filterMap_cons, hsome]
      refine gives_newId.bind fun id _ => ih.bind fun rows hrows => gives_pure ?_
      rw [List.map_cons, hrows]

/-- The links of a card. -/
def TrelloCard.links (rt : Runtime) (card : TrelloCard) : List (JsString × JsString) :=
  card.attachments.filterMap (storedLink rt)

/-- Under which ids a map of cards finds their tasks. -/
def cardEntries (cards : List TrelloCard) (tasks : List PlannedTask) : List (JsString × Id) :=
  List.zipWith (fun card task => (card.id, task.id)) cards tasks

theorem planCards_gives (labelIdByTrelloId : JsMap JsString Id) (columnId : Id) (count : Nat)
    (cards : List TrelloCard) : ∀ index byId,
    (planCards rt uuidv7 actorId boardId labelIdByTrelloId columnId count index cards byId).Gives
      fun r =>
        List.Forall₂ (PlannedTask.Of rt columnId) cards r.1.tasks ∧
        r.1.tasks.map PlannedTask.position = spreadFrom count index cards.length ∧
        r.1.attachments.map (fun row => (row.filename, row.url)) =
          cards.flatMap (TrelloCard.links rt) ∧
        r.2 = byId.setAll (cardEntries cards r.1.tasks) := by
  induction cards with
  | nil => exact fun _ _ => gives_pure ⟨.nil, rfl, rfl, rfl⟩
  | cons card rest ih =>
    intro index byId
    refine gives_newId.bind fun taskId _ => gives_any.bind fun labels _ =>
      (planAttachments_gives taskId card.attachments).bind fun links hlinks =>
      (ih _ _).bind fun r ⟨hof, hpos, hrest, hmap⟩ => gives_pure ⟨.cons ⟨rfl, rfl, rfl, rfl⟩ hof, ?_, ?_, hmap⟩
    · simp only [TaskRows.append, List.map_cons, List.cons_append, List.nil_append]
      rw [hpos, List.length_cons, spreadFrom_succ]
    · simp only [TaskRows.append, List.map_append, List.flatMap_cons]
      rw [hlinks, hrest, TrelloCard.links]

/-- The tasks of a column: its cards in their order, evenly spread. -/
structure PlannedColumn.Holds (rt : Runtime) (column : PlannedColumn) (cards : List TrelloCard)
    (tasks : List PlannedTask) : Prop where
  of : List.Forall₂ (PlannedTask.Of rt column.id) (orderedByPos cards) tasks
  positions : tasks.map PlannedTask.position = rebalancePositions tasks.length

theorem planTasks_gives (labelIdByTrelloId : JsMap JsString Id)
    (cardsByColumnId : JsMap Id (List TrelloCard)) (columns : List PlannedColumn) : ∀ byId,
    (planTasks rt uuidv7 actorId boardId labelIdByTrelloId cardsByColumnId columns byId).Gives
      fun r => ∃ groups : List (List PlannedTask),
        List.Forall₂ (fun column tasks => column.Holds rt (cardsByColumnId.all column.id) tasks)
          columns groups ∧
        r.1.tasks = groups.flatten ∧
        r.1.attachments.map (fun row => (row.filename, row.url)) =
          (columns.flatMap fun column => orderedByPos (cardsByColumnId.all column.id)).flatMap
            (TrelloCard.links rt) ∧
        r.2 = byId.setAll (cardEntries
          (columns.flatMap fun column => orderedByPos (cardsByColumnId.all column.id))
          r.1.tasks) := by
  induction columns with
  | nil => exact fun _ => gives_pure ⟨[], .nil, rfl, rfl, rfl⟩
  | cons column rest ih =>
    intro byId
    refine (planCards_gives labelIdByTrelloId column.id _ _ 0 byId).bind
      fun r ⟨hof, hpos, hlinks, hmap⟩ => (ih _).bind
      fun more ⟨groups, hgroups, htasks, hmore, hmap'⟩ => gives_pure ?_
    refine ⟨r.1.tasks :: groups, .cons ⟨hof, ?_⟩ hgroups, ?_, ?_, ?_⟩
    · rw [hpos, spreadFrom_eq, ← hof.length_eq]
    · simp only [TaskRows.append, List.flatten_cons, htasks]
    · simp only [TaskRows.append, List.map_append, List.flatMap_cons, List.flatMap_append, hlinks,
        hmore]
    · simp only [hmap', hmap, TaskRows.append, List.flatMap_cons, cardEntries]
      rw [← JsMap.setAll_append, List.zipWith_append hof.length_eq]

/-! ## Checklists -/

theorem planItems_gives (checklistId : Id) (count : Nat) (items : List TrelloCheckItem) : ∀ index,
    (planItems uuidv7 checklistId count index items).Gives fun rows =>
      List.Forall₂ (ItemOf checklistId) items rows ∧
      rows.map ChecklistItemRow.position = spreadFrom count index items.length := by
  induction items with
  | nil => exact fun _ => gives_pure ⟨.nil, rfl⟩
  | cons item rest ih =>
    intro index
    refine gives_newId.bind fun id _ => (ih _).bind fun rows ⟨hof, hpos⟩ => gives_pure ?_
    refine ⟨.cons ⟨rfl, rfl⟩ hof, ?_⟩
    rw [List.map_cons, hpos, List.length_cons, spreadFrom_succ]

/-- The items of a checklist that say something, in their order. -/
def TrelloChecklist.usable (checklist : TrelloChecklist) : List TrelloCheckItem :=
  (orderedByPos checklist.checkItems).filter fun item => !isUnnamed item.name

/-- A checklist with the rows it became. -/
structure WrittenChecklist where
  checklist : TrelloChecklist
  row : ChecklistRow
  items : List ChecklistItemRow

/-- The rows are the checklist's: its usable items in their order, evenly spread. -/
structure WrittenChecklist.On (taskId : Id) (w : WrittenChecklist) : Prop where
  taskId : w.row.taskId = taskId
  title : w.row.title = w.checklist.name
  items : List.Forall₂ (ItemOf w.row.id) w.checklist.usable w.items
  positions : w.items.map ChecklistItemRow.position = rebalancePositions w.items.length

theorem planTaskChecklists_gives (taskId : Id) (count : Nat) (checklists : List TrelloChecklist) :
    ∀ index, (planTaskChecklists uuidv7 taskId count index checklists).Gives fun r =>
      ∃ written : List WrittenChecklist, (∀ w ∈ written, w.On taskId) ∧
        written.map WrittenChecklist.checklist = checklists ∧
        r = (written.map WrittenChecklist.row, written.flatMap WrittenChecklist.items) ∧
        r.1.map ChecklistRow.position = spreadFrom count index checklists.length := by
  induction checklists with
  | nil => exact fun _ => gives_pure ⟨[], by simp, rfl, rfl, rfl⟩
  | cons checklist rest ih =>
    intro index
    have husable : (usableItems (orderedByPos checklist.checkItems)).Gives
        fun items => items = checklist.usable := usableItems_eq _
    refine gives_newId.bind fun id _ => husable.bind fun usable hu =>
      (planItems_gives id usable.length usable 0).bind fun items ⟨hitems, hpos⟩ =>
      (ih _).bind fun r ⟨written, hon, hlists, hrows, hspread⟩ => gives_pure ?_
    subst hu hrows
    let row : ChecklistRow := ⟨id, taskId, checklist.name, positionsFor count index⟩
    refine ⟨⟨checklist, row, items⟩ :: written, ?_, ?_, rfl, ?_⟩
    · rintro w (_ | ⟨_, hw⟩)
      · exact ⟨rfl, rfl, hitems, by rw [hpos, spreadFrom_eq, ← hitems.length_eq]⟩
      · exact hon w hw
    · rw [List.map_cons, hlists]
    · rw [List.map_cons, hspread, List.length_cons, spreadFrom_succ]

/-- The checklists of a task: in their order, evenly spread. -/
structure PlannedTask.Holds (task : PlannedTask) (checklists : List TrelloChecklist)
    (written : List WrittenChecklist) : Prop where
  on : ∀ w ∈ written, w.On task.id
  checklists : written.map WrittenChecklist.checklist = orderedByPos checklists
  positions : written.map (fun w => w.row.position) = rebalancePositions written.length

theorem planChecklists_gives (checklistsByTaskId : JsMap Id (List TrelloChecklist))
    (tasks : List PlannedTask) :
    (planChecklists uuidv7 checklistsByTaskId tasks).Gives fun r =>
      ∃ groups : List (List WrittenChecklist),
        List.Forall₂ (fun task => task.Holds (checklistsByTaskId.all task.id)) tasks groups ∧
        r = (groups.flatten.map WrittenChecklist.row,
          groups.flatten.flatMap WrittenChecklist.items) := by
  induction tasks with
  | nil => exact gives_pure ⟨[], .nil, rfl⟩
  | cons task rest ih =>
    refine (planTaskChecklists_gives task.id _ _ 0).bind fun r ⟨written, hon, hlists, hrows, hpos⟩ =>
      ih.bind fun more ⟨groups, hgroups, hmore⟩ => gives_pure ⟨written :: groups, .cons ?_ hgroups, ?_⟩
    · refine ⟨hon, hlists, ?_⟩
      rw [hrows, List.map_map] at hpos
      rw [← hlists, List.length_map] at hpos
      exact hpos.trans (spreadFrom_eq _)
    · subst hrows hmore
      simp only [List.flatten_cons, List.map_append, List.flatMap_append]

end Rows

/-! ## A whole plan -/

/-- Under which ids the map of columns finds them. -/
def columnEntries (lists : List TrelloList) (columns : List PlannedColumn) : List (JsString × Id) :=
  List.zipWith (fun list column => (list.id, column.id)) lists columns

section Outcome

variable (rt : Runtime) (source : TrelloExport) (plan : TrelloImportPlan)

/-- A plan against the export it was made from, with the maps it was made with. -/
structure Outcome where
  name : plan.board.name = if isUnnamed source.name then js "Imported board" else source.name
  description : plan.board.description = emptyToNull source.desc
  -- lists and labels
  columns_of : List.Forall₂ (PlannedColumn.Of plan.board.id)
    (orderedByPos (source.lists.filter TrelloList.live)) plan.columns
  columns_positions : plan.columns.map PlannedColumn.position =
    rebalancePositions plan.columns.length
  labels_of : List.Forall₂ (PlannedLabel.Of rt plan.board.id) source.labels plan.labels
  columnIdByTrelloId : JsMap JsString Id
  columns_map : columnIdByTrelloId = JsMap.empty.setAll
    (columnEntries (orderedByPos (source.lists.filter TrelloList.live)) plan.columns)
  -- cards
  archivedListIds : List JsString
  cardsOf : Id → List TrelloCard
  cardsOf_eq : ∀ id, cardsOf id = ((assigned (cardColumn columnIdByTrelloId archivedListIds)
    source.cards).filter fun e => e.1 = id).map Prod.snd
  tasks : List (List PlannedTask)
  columns_hold : List.Forall₂ (fun column => column.Holds rt (cardsOf column.id)) plan.columns tasks
  tasks_eq : plan.tasks = tasks.flatten
  links : plan.attachments.map (fun row => (row.filename, row.url)) =
    (plan.columns.flatMap fun column => orderedByPos (cardsOf column.id)).flatMap
      (TrelloCard.links rt)
  taskIdByTrelloCardId : JsMap JsString Id
  tasks_map : taskIdByTrelloCardId = JsMap.empty.setAll
    (cardEntries (plan.columns.flatMap fun column => orderedByPos (cardsOf column.id)) plan.tasks)
  -- checklists
  skippedCardReasons : JsMap JsString TrelloImportSkipReason
  checklistsOf : Id → List TrelloChecklist
  checklistsOf_eq : ∀ id, checklistsOf id = ((assigned (checklistTask taskIdByTrelloCardId
    skippedCardReasons) source.checklists).filter fun e => e.1 = id).map Prod.snd
  written : List (List WrittenChecklist)
  tasks_hold : List.Forall₂ (fun task => task.Holds (checklistsOf task.id)) plan.tasks written
  checklists_eq : plan.checklists = written.flatten.map WrittenChecklist.row
  items_eq : plan.checklistItems = written.flatten.flatMap WrittenChecklist.items

end Outcome

section Body

variable {rt : Runtime} {uuidv7 : Nat → Id} {actorId : Id}

theorem sortCards_gives {columnIdByTrelloId : JsMap JsString Id} {archivedListIds : List JsString}
    (cards : List TrelloCard) :
    (sortCards columnIdByTrelloId archivedListIds cards ⟨.empty, .empty⟩).Gives fun sorted =>
      ∀ id, sorted.cardsByColumnId.all id =
        ((assigned (cardColumn columnIdByTrelloId archivedListIds) cards).filter
          fun e => e.1 = id).map Prod.snd := by
  intro s id
  rw [sortCards_all, JsMap.all_empty, List.nil_append]

theorem sortChecklists_gives {taskIdByTrelloCardId : JsMap JsString Id}
    {skippedCardReasons : JsMap JsString TrelloImportSkipReason} (checklists : List TrelloChecklist) :
    (sortChecklists taskIdByTrelloCardId skippedCardReasons checklists .empty).Gives fun byTask =>
      ∀ id, byTask.all id =
        ((assigned (checklistTask taskIdByTrelloCardId skippedCardReasons) checklists).filter
          fun e => e.1 = id).map Prod.snd := by
  intro s id
  rw [sortChecklists_all, JsMap.all_empty, List.nil_append]

theorem planBody_gives (read : TrelloExportReadResult) :
    (planBody rt uuidv7 actorId read).Gives fun plan => Nonempty (Outcome rt read.source plan) := by
  have hlists : (sortLists read.source.lists).Gives
      fun r => r.1 = read.source.lists.filter TrelloList.live := sortLists_live _
  refine gives_then (gives_newId.bind fun boardId _ => hlists.bind fun sorted hlive =>
    (planColumns_gives _ _ 0 .empty).bind fun columns ⟨hcolumns, hpos, hcolumnMap⟩ =>
    gives_then ((planLabels_gives _ .empty).bind fun labels ⟨hlabels, _⟩ =>
    (sortCards_gives _).bind fun cards hcards =>
    (planTasks_gives _ _ _ .empty).bind fun rows ⟨tasks, hhold, htasks, hlinks, htaskMap⟩ =>
    (sortChecklists_gives _).bind fun byTask hbyTask =>
    (planChecklists_gives _ _).bind fun checklists ⟨written, hwritten, hrows⟩ =>
    gives_then (gives_then fun s => ⟨?_⟩)))
  rw [hlive] at hcolumns hpos hcolumnMap
  exact {
    name := rfl
    description := rfl
    columns_of := hcolumns
    columns_positions := by rw [hpos, spreadFrom_eq, hcolumns.length_eq]
    labels_of := hlabels
    columnIdByTrelloId := columns.2
    columns_map := hcolumnMap
    archivedListIds := sorted.2
    cardsOf := cards.cardsByColumnId.all
    cardsOf_eq := hcards
    tasks
    columns_hold := hhold
    tasks_eq := htasks
    links := hlinks
    taskIdByTrelloCardId := rows.2
    tasks_map := htaskMap
    skippedCardReasons := cards.skippedCardReasons
    checklistsOf := byTask.all
    checklistsOf_eq := hbyTask
    written
    tasks_hold := hwritten
    checklists_eq := congrArg Prod.fst hrows
    items_eq := congrArg Prod.snd hrows }

end Body

/-! ## What comes across -/

/-- A card that becomes a task: open, named, and on a list that becomes a column. -/
def TrelloCard.comesAcross (source : TrelloExport) (card : TrelloCard) : Bool :=
  !card.closed && !isUnnamed card.name &&
    card.idList.any fun id => source.lists.any fun list => list.live && list.id = id

/-- A checklist that is written: named, not empty, and on a card that becomes a task. -/
def TrelloChecklist.comesAcross (source : TrelloExport) (checklist : TrelloChecklist) : Bool :=
  !isUnnamed checklist.name && !checklist.checkItems.isEmpty &&
    checklist.idCard.any fun id => source.cards.any fun card =>
      card.comesAcross source && card.id = id

section Outcome

variable {rt : Runtime} {source : TrelloExport} {plan : TrelloImportPlan} (o : Outcome rt source plan)

theorem map_snd_assigned {ε κ α : Type} (place : α → Except ε κ) (entries : List α) :
    (assigned place entries).map Prod.snd = entries.filter fun entry => (place entry).isOk := by
  induction entries with
  | nil => rfl
  | cons entry rest ih =>
    cases hp : place entry with
    | error e => simpa [assigned, hp, Except.toOption, Except.isOk, Except.toBool] using ih
    | ok k => simpa [assigned, hp, Except.toOption, Except.isOk, Except.toBool] using ih

theorem isOk_cardColumn (columnIdByTrelloId : JsMap JsString Id) (archivedListIds : List JsString)
    (card : TrelloCard) :
    (cardColumn columnIdByTrelloId archivedListIds card).isOk = (!card.closed &&
      !isUnnamed card.name && card.idList.any fun id => (columnIdByTrelloId.get id).isSome) := by
  unfold cardColumn
  cases hclosed : card.closed
  · cases hname : isUnnamed card.name
    · cases hlist : card.idList with
      | none => simp [Except.isOk, Except.toBool]
      | some id => cases hget : columnIdByTrelloId.get id <;> simp [hget, Except.isOk, Except.toBool]
    · simp [Except.isOk, Except.toBool]
  · simp [Except.isOk, Except.toBool]

theorem isOk_checklistTask (taskIdByTrelloCardId : JsMap JsString Id)
    (skippedCardReasons : JsMap JsString TrelloImportSkipReason) (checklist : TrelloChecklist) :
    (checklistTask taskIdByTrelloCardId skippedCardReasons checklist).isOk =
      (!isUnnamed checklist.name && !checklist.checkItems.isEmpty &&
        checklist.idCard.any fun id => (taskIdByTrelloCardId.get id).isSome) := by
  unfold checklistTask
  cases hcard : checklist.idCard with
  | none => simp [Except.isOk, Except.toBool]
  | some id =>
    cases hget : taskIdByTrelloCardId.get id with
    | none => simp [hget, Except.isOk, Except.toBool]
    | some taskId =>
      cases hname : isUnnamed checklist.name
      · cases hitems : checklist.checkItems.isEmpty <;>
          simp [hget, Except.isOk, Except.toBool]
      · simp [hget, Except.isOk, Except.toBool]

theorem any_zipWith_key {α β : Type} {as : List α} {bs : List β} (h : as.length = bs.length)
    (key : α → JsString) (val : β → Id) (k : JsString) :
    ((List.zipWith (fun a b => (key a, val b)) as bs).any fun e => e.1 = k) =
      as.any fun a => key a = k := by
  induction as generalizing bs with
  | nil => rfl
  | cons a as ih =>
    cases bs with
    | nil => cases h
    | cons b bs => simp [ih (Nat.succ.inj h)]

theorem mem_zipWith_key {α β : Type} {as : List α} {bs : List β} {key : α → JsString} {val : β → Id}
    {e : JsString × Id} (h : e ∈ List.zipWith (fun a b => (key a, val b)) as bs) :
    ∃ a b, (a, b) ∈ as.zip bs ∧ key a = e.1 ∧ val b = e.2 := by
  rw [← List.map_uncurry_zip_eq_zipWith] at h
  obtain ⟨⟨a, b⟩, hmem, rfl⟩ := List.mem_map.mp h
  exact ⟨a, b, hmem, rfl, rfl⟩

theorem orderedByPos_perm {T : Type} [HasPos T] (rows : List T) : (orderedByPos rows).Perm rows :=
  sortBy_perm _ _

include o

/-- The map of columns knows the lists that become columns. -/
theorem Outcome.isSome_column (k : JsString) : (o.columnIdByTrelloId.get k).isSome =
    source.lists.any fun list => list.live && list.id = k := by
  rw [o.columns_map, JsMap.isSome_get_setAll, JsMap.get_empty, Option.isSome_none, Bool.false_or,
    columnEntries, any_zipWith_key o.columns_of.length_eq, (orderedByPos_perm _).any_eq, List.any_filter]

theorem Outcome.isOk_card (card : TrelloCard) :
    (cardColumn o.columnIdByTrelloId o.archivedListIds card).isOk = card.comesAcross source := by
  simp only [isOk_cardColumn, o.isSome_column, TrelloCard.comesAcross]

/-- Column by column, the cards that become tasks. -/
def Outcome.cards : List TrelloCard :=
  plan.columns.flatMap fun column => orderedByPos (o.cardsOf column.id)

theorem Outcome.cards_perm (hnd : (plan.columns.map PlannedColumn.id).Nodup) :
    o.cards.Perm (source.cards.filter (TrelloCard.comesAcross source)) := by
  have hcolumn : ∀ e ∈ assigned (cardColumn o.columnIdByTrelloId o.archivedListIds) source.cards,
      e.1 ∈ plan.columns.map PlannedColumn.id := by
    intro e he
    obtain ⟨k, hk⟩ := (cardColumn_ok (mem_assigned.mp he).2).2
    rw [o.columns_map] at hk
    obtain ⟨_, column, hmem, _, heq⟩ := mem_zipWith_key
      ((JsMap.get_setAll_mem hk).resolve_left (by simp))
    exact List.mem_map.mpr ⟨_, (List.of_mem_zip hmem).2, heq⟩
  have hperm := flatMap_assigned_perm hnd hcolumn
  rw [List.flatMap_map, map_snd_assigned] at hperm
  simp only [← o.cardsOf_eq, o.isOk_card] at hperm
  exact (List.Perm.flatMap_left _ fun _ _ => orderedByPos_perm _).trans hperm

theorem Outcome.cards_of : List.Forall₂ (fun card task => ∃ columnId, task.Of rt columnId card)
    o.cards plan.tasks := by
  have main : ∀ {columns : List PlannedColumn} {tasks : List (List PlannedTask)},
      List.Forall₂ (fun column => column.Holds rt (o.cardsOf column.id)) columns tasks →
      List.Forall₂ (fun card task => ∃ columnId, task.Of rt columnId card)
        (columns.flatMap fun column => orderedByPos (o.cardsOf column.id)) tasks.flatten := by
    intro columns tasks h
    induction h with
    | nil => exact .nil
    | cons h _ ih => exact List.rel_append (h.of.imp fun _ _ hof => ⟨_, hof⟩) ih
  rw [o.tasks_eq]
  exact main o.columns_hold

/-- The map of cards knows the cards that become tasks. -/
theorem Outcome.isSome_task (hnd : (plan.columns.map PlannedColumn.id).Nodup) (k : JsString) :
    (o.taskIdByTrelloCardId.get k).isSome =
      source.cards.any fun card => card.comesAcross source && card.id = k := by
  rw [o.tasks_map, JsMap.isSome_get_setAll, JsMap.get_empty, Option.isSome_none, Bool.false_or,
    ← List.any_filter, ← (o.cards_perm hnd).any_eq]
  exact any_zipWith_key o.cards_of.length_eq TrelloCard.id PlannedTask.id k

/-- Task by task, the checklists that are written. -/
def Outcome.checklists : List TrelloChecklist :=
  plan.tasks.flatMap fun task => orderedByPos (o.checklistsOf task.id)

theorem Outcome.checklists_perm (hnd : (plan.columns.map PlannedColumn.id).Nodup)
    (hnd' : (plan.tasks.map PlannedTask.id).Nodup) :
    o.checklists.Perm (source.checklists.filter (TrelloChecklist.comesAcross source)) := by
  have htask : ∀ e ∈ assigned (checklistTask o.taskIdByTrelloCardId o.skippedCardReasons)
      source.checklists, e.1 ∈ plan.tasks.map PlannedTask.id := by
    intro e he
    obtain ⟨k, hk⟩ := (checklistTask_ok (mem_assigned.mp he).2).2
    rw [o.tasks_map] at hk
    obtain ⟨_, task, hmem, _, heq⟩ := mem_zipWith_key
      ((JsMap.get_setAll_mem hk).resolve_left (by simp))
    exact List.mem_map.mpr ⟨_, (List.of_mem_zip hmem).2, heq⟩
  have hperm := flatMap_assigned_perm hnd' htask
  rw [List.flatMap_map, map_snd_assigned] at hperm
  simp only [← o.checklistsOf_eq, isOk_checklistTask, o.isSome_task hnd] at hperm
  exact (List.Perm.flatMap_left _ fun _ _ => orderedByPos_perm _).trans hperm

theorem Outcome.written_checklists :
    o.written.flatten.map WrittenChecklist.checklist = o.checklists := by
  have main : ∀ {tasks : List PlannedTask} {written : List (List WrittenChecklist)},
      List.Forall₂ (fun task => task.Holds (o.checklistsOf task.id)) tasks written →
      written.flatten.map WrittenChecklist.checklist =
        tasks.flatMap fun task => orderedByPos (o.checklistsOf task.id) := by
    intro tasks written h
    induction h with
    | nil => rfl
    | cons h _ ih => rw [List.flatten_cons, List.map_append, h.checklists, ih, List.flatMap_cons]
  exact main o.tasks_hold

theorem Outcome.written_on {w : WrittenChecklist} (hw : w ∈ o.written.flatten) :
    ∃ taskId, w.On taskId := by
  have main : ∀ {tasks : List PlannedTask} {written : List (List WrittenChecklist)},
      List.Forall₂ (fun task => task.Holds (o.checklistsOf task.id)) tasks written →
      ∀ w ∈ written.flatten, ∃ taskId, w.On taskId := by
    intro tasks written h
    induction h with
    | nil => simp
    | cons h _ ih =>
      intro w hw
      rcases List.mem_append.mp hw with hw | hw
      · exact ⟨_, h.on w hw⟩
      · exact ih w hw
  exact main o.tasks_hold w hw

end Outcome

end Kurul
