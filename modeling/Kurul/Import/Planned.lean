import Kurul.Import.PlanParts

/-!
# Kurul.Import.Planned

A whole plan, taken apart: which list each column is of, a part for each task and each checklist,
what was dropped, and how the skip report adds up. `planned` puts the stretches of
`Kurul.Import.PlanParts` together.
-/

namespace Kurul

open Plan

/-- Every identifier of a plan. -/
def TrelloImportPlan.ids (plan : TrelloImportPlan) : List Id :=
  plan.board.id :: (plan.columns.map PlannedColumn.id ++ (plan.labels.map PlannedLabel.id ++
    (TaskRows.ids ⟨plan.tasks, plan.taskLabels, plan.attachments⟩ ++
      (plan.checklists.map ChecklistRow.id ++ plan.checklistItems.map ChecklistItemRow.id))))

structure Planned (rt : Runtime) (actorId : Id) (read : TrelloExportReadResult)
    (plan : TrelloImportPlan) where
  ids_nodup : plan.ids.Nodup
  -- lists and labels
  lists : List TrelloList
  lists_perm : lists.Perm (read.source.lists.filter TrelloList.live)
  columns_of : List.Forall₂ (PlannedColumn.Of plan.board.id) lists plan.columns
  labels_board : ∀ label ∈ plan.labels, label.boardId = plan.board.id
  labelIdByTrelloId : JsMap JsString Id
  label_ids : ∀ k v, labelIdByTrelloId.get k = some v → v ∈ plan.labels.map PlannedLabel.id
  -- cards
  cards : List (CardPart rt actorId plan.board.id labelIdByTrelloId)
  droppedCards : List TrelloCard
  cards_perm : (cards.map CardPart.card ++ droppedCards).Perm read.source.cards
  cards_named : ∀ p ∈ cards, isUnnamed p.card.name = false
  task_column : ∀ p ∈ cards, p.task.columnId ∈ plan.columns.map PlannedColumn.id
  tasks_eq : plan.tasks = cards.map CardPart.task
  taskLabels_eq : plan.taskLabels = cards.flatMap CardPart.taskLabels
  attachments_eq : plan.attachments = cards.flatMap CardPart.attachments
  -- checklists
  checklists : List ChecklistPart
  droppedChecklists : List TrelloChecklist
  checklists_perm : (checklists.map ChecklistPart.checklist ++ droppedChecklists).Perm
    read.source.checklists
  checklists_named : ∀ p ∈ checklists, isUnnamed p.checklist.name = false
  checklist_task : ∀ p ∈ checklists, p.row.taskId ∈ plan.tasks.map PlannedTask.id
  checklists_eq : plan.checklists = checklists.map ChecklistPart.row
  checklistItems_eq : plan.checklistItems = checklists.flatMap ChecklistPart.items
  -- the report
  tally_list : tally plan.skipped .list =
    issueCount read.issues .list + (read.source.lists.filter fun list => !list.live).length
  tally_card : tally plan.skipped .card = issueCount read.issues .card + droppedCards.length
  tally_attachment : tally plan.skipped .attachment =
    issueCount read.issues .attachment + lostAttachments cards
  tally_checklist : tally plan.skipped .checklist =
    issueCount read.issues .checklist + droppedChecklists.length
  tally_checklistItem : tally plan.skipped .checklistItem =
    issueCount read.issues .checklistItem + lostItems checklists
  tally_member : tally plan.skipped .member =
    issueCount read.issues .member + read.source.memberCount
  tally_comment : tally plan.skipped .comment =
    issueCount read.issues .comment + read.source.commentCount

variable {rt : Runtime} {uuidv7 : Nat → Id} {actorId : Id}

theorem planned (hinj : Function.Injective uuidv7) (read : TrelloExportReadResult) :
    Nonempty (Planned rt actorId read (planTrelloImport rt uuidv7 actorId read)) := by
  let source := read.source
  let s₁ := (addIssues read.issues ⟨0, Sql.Store.empty⟩).2
  let boardId := newId uuidv7 s₁
  let sortedLists := sortLists source.lists boardId.2
  let ordered := orderedByPos sortedLists.1.1
  let columns := planColumns uuidv7 boardId.1 ordered.length 0 ordered .empty sortedLists.2
  let s₂ := (skipMany .column .defaulted columns.1.1.length (columns.1.1.map PlannedColumn.name)
    columns.2).2
  let labels := planLabels rt uuidv7 boardId.1 source.labels .empty s₂
  let sorted := sortCards columns.1.2 sortedLists.1.2 source.cards ⟨.empty, .empty⟩ labels.2
  let tasks := planTasks rt uuidv7 actorId boardId.1 labels.1.2 sorted.1.cardsByColumnId columns.1.1
    .empty sorted.2
  let byTask := sortChecklists tasks.1.2 sorted.1.skippedCardReasons source.checklists .empty tasks.2
  let checklists := planChecklists uuidv7 byTask.1 tasks.1.1.tasks byTask.2
  let s₃ := (skipMany .member .unmappable source.memberCount [] checklists.2).2
  let s₄ := (skipMany .comment .outOfScope source.commentCount [] s₃).2
  obtain ⟨m, hlabelBooks⟩ := planLabels_books rt uuidv7 boardId.1 source.labels .empty s₂
  obtain ⟨cards, hcards, hcolumn, hplans⟩ := planTasks_parts rt uuidv7 actorId boardId.1 labels.1.2
    sorted.1.cardsByColumnId columns.1.1 .empty sorted.2
  obtain ⟨lists, hchecklists, htask, hwritten⟩ := planChecklists_parts uuidv7 byTask.1
    tasks.1.1.tasks byTask.2
  obtain ⟨n, hcardBooks⟩ := hplans.books
  have hcolumnBooks : Books uuidv7 sortedLists.2 columns.2 (columns.1.1.map PlannedColumn.id) 0 :=
    planColumns_books ordered 0 .empty sortedLists.2
  -- everything generated and everything skipped, from the first statement to the last
  have hbooks : Books uuidv7 ⟨0, Sql.Store.empty⟩ s₄ (planTrelloImport rt uuidv7 actorId read).ids _ :=
    ((addIssues_books read.issues _).trans (Books.newId.trans ((sortLists_books source.lists _).trans
      (hcolumnBooks.trans (Books.skipMany.trans (hlabelBooks.trans ((sortCards_books source.cards _ _).trans
        (hcardBooks.trans ((sortChecklists_books source.checklists _ _).trans
          (hwritten.books.trans (Books.skipMany.trans Books.skipMany))))))))))).perm
      (.of_eq (by simp only [List.append_nil]; rfl)) rfl
  have htally : ∀ scope, tally (planTrelloImport rt uuidv7 actorId read).skipped scope = _ :=
    fun scope => (tally_toReport s₄.skips scope).trans ((hbooks.tally scope).trans (Nat.zero_add _))
  have hcolumnsNodup : (columns.1.1.map PlannedColumn.id).Nodup := hcolumnBooks.nodup hinj
  have htasksNodup : (tasks.1.1.tasks.map PlannedTask.id).Nodup :=
    (List.nodup_append.mp (List.nodup_append.mp (hcardBooks.nodup hinj)).1).1
  have htasksEq : tasks.1.1 = TaskRows.ofParts cards := hplans.rows_eq
  -- every card with a column becomes a task, once
  have hassigned : (cards.map CardPart.card).Perm
      ((assigned (cardColumn columns.1.2 sortedLists.1.2) source.cards).map Prod.snd) := by
    refine hcards.trans ?_
    simp only [show ∀ k, sorted.1.cardsByColumnId.all k = _ from
      fun k => sortCards_all source.cards k ⟨.empty, .empty⟩ labels.2, JsMap.all_empty, List.nil_append]
    have hperm := flatMap_assigned_perm hcolumnsNodup
      (l := assigned (cardColumn columns.1.2 sortedLists.1.2) source.cards) fun e he => ?_
    · rwa [List.flatMap_map] at hperm
    obtain ⟨k, hk⟩ := (cardColumn_ok (mem_assigned.mp he).2).2
    exact (planColumns_get ordered 0 .empty sortedLists.2 k e.1 hk).resolve_left (by simp)
  -- every checklist with a task is written, once
  have hwrittenLists : (lists.map ChecklistPart.checklist).Perm
      ((assigned (checklistTask tasks.1.2 sorted.1.skippedCardReasons) source.checklists).map
        Prod.snd) := by
    refine hchecklists.trans ?_
    simp only [show ∀ k, byTask.1.all k = _ from
      fun k => sortChecklists_all source.checklists k .empty tasks.2, JsMap.all_empty, List.nil_append]
    have hperm := flatMap_assigned_perm htasksNodup
      (l := assigned (checklistTask tasks.1.2 sorted.1.skippedCardReasons) source.checklists)
      fun e he => ?_
    · rwa [List.flatMap_map] at hperm
    obtain ⟨k, hk⟩ := (checklistTask_ok (mem_assigned.mp he).2).2
    obtain ⟨p, hp, hid⟩ := (hplans.get k e.1 hk).resolve_left (by simp)
    rw [htasksEq, ← hid]
    exact List.mem_map_of_mem (List.mem_map_of_mem hp)
  have hcolumnCard : ∀ p ∈ cards, ∃ columnId,
      cardColumn columns.1.2 sortedLists.1.2 p.card = .ok columnId := by
    intro p hp
    obtain ⟨e, he, heq⟩ := List.mem_map.mp (hassigned.mem_iff.mp (List.mem_map_of_mem hp))
    exact ⟨e.1, heq ▸ (mem_assigned.mp he).2⟩
  have htaskList : ∀ p ∈ lists, ∃ taskId,
      checklistTask tasks.1.2 sorted.1.skippedCardReasons p.checklist = .ok taskId := by
    intro p hp
    obtain ⟨e, he, heq⟩ := List.mem_map.mp (hwrittenLists.mem_iff.mp (List.mem_map_of_mem hp))
    exact ⟨e.1, heq ▸ (mem_assigned.mp he).2⟩
  exact ⟨{
    ids_nodup := hbooks.nodup hinj
    lists := ordered
    lists_perm := (sortBy_perm _ _).trans (.of_eq (sortLists_live source.lists boardId.2))
    columns_of := planColumns_of ordered 0 .empty sortedLists.2
    labels_board := planLabels_board source.labels .empty s₂
    labelIdByTrelloId := labels.1.2
    label_ids := fun k v h => (planLabels_get source.labels .empty s₂ k v h).resolve_left (by simp)
    cards
    droppedCards := dropped (cardColumn columns.1.2 sortedLists.1.2) source.cards
    cards_perm := (hassigned.append_right _).trans (assigned_dropped_perm _ _)
    cards_named := fun p hp => (cardColumn_ok (hcolumnCard p hp).choose_spec).1
    task_column := hcolumn
    tasks_eq := congrArg TaskRows.tasks htasksEq
    taskLabels_eq := congrArg TaskRows.taskLabels htasksEq
    attachments_eq := congrArg TaskRows.attachments htasksEq
    checklists := lists
    droppedChecklists := dropped (checklistTask tasks.1.2 sorted.1.skippedCardReasons)
      source.checklists
    checklists_perm := (hwrittenLists.append_right _).trans (assigned_dropped_perm _ _)
    checklists_named := fun p hp => (checklistTask_ok (htaskList p hp).choose_spec).1
    checklist_task := htask
    checklists_eq := congrArg Prod.fst hwritten.rows_eq
    checklistItems_eq := congrArg Prod.snd hwritten.rows_eq
    tally_list := by rw [htally]; simp [source]
    tally_card := by rw [htally]; simp
    tally_attachment := by rw [htally]; simp; rfl
    tally_checklist := by rw [htally]; simp
    tally_checklistItem := by rw [htally]; simp
    tally_member := by rw [htally]; simp [source]
    tally_comment := by rw [htally]; simp [source] }⟩

section Nodup

variable {read : TrelloExportReadResult} {plan : TrelloImportPlan} (p : Planned rt actorId read plan)

include p

theorem Planned.tasks_nodup : (plan.tasks.map PlannedTask.id).Nodup :=
  p.ids_nodup.sublist (by
    simp only [TrelloImportPlan.ids, TaskRows.ids, List.append_assoc]
    exact ((((List.sublist_append_left _ _).trans (List.sublist_append_right _ _)).trans
      (List.sublist_append_right _ _))).cons _)

theorem Planned.checklists_nodup : (plan.checklists.map ChecklistRow.id).Nodup :=
  p.ids_nodup.sublist (by
    simp only [TrelloImportPlan.ids]
    exact (((((List.sublist_append_left _ _).trans (List.sublist_append_right _ _)).trans
      (List.sublist_append_right _ _)).trans (List.sublist_append_right _ _))).cons _)

end Nodup
end Kurul
