import Mathlib.Algebra.Group.Pi.Lemmas
import Kurul.Import.TrelloImportPlanner
import Kurul.Order.Grouping

/-!
# Kurul.Import.PlanParts

What the planner's stretches do, each by induction on what it walks. `Books` is the ledger they
share: the identifiers generated and the skips added between two states. A card that becomes a task
is a `CardPart`, a checklist that is written a `ChecklistPart`: the entry, its row, and the rows
under it.

* `planCards_parts`, `planTasks_parts`                   — the tasks, one part a card.
* `planTaskChecklists_parts`, `planChecklists_parts`     — the checklists, one part each.
-/

namespace Kurul

open Plan

/-! ## Bookkeeping -/

/-- Between two states these ids were generated, each by a call of its own, and this many skips
were added to each scope. -/
structure Books (uuidv7 : Nat → Id) (s s' : PlanState) (ids : List Id)
    (skips : TrelloImportScope → Nat) : Prop where
  issued : ∃ n, s'.issued = s.issued + n ∧ ids.Perm ((List.range' s.issued n).map uuidv7)
  tally : ∀ scope, tally s'.skips.rows scope = tally s.skips.rows scope + skips scope

namespace Books

variable {uuidv7 : Nat → Id} {s s' s'' : PlanState} {ids ids' : List Id}
  {d d' : TrelloImportScope → Nat}

theorem refl : Books uuidv7 s s [] 0 := ⟨⟨0, rfl, List.Perm.refl _⟩, fun _ => rfl⟩

theorem trans (h : Books uuidv7 s s' ids d) (h' : Books uuidv7 s' s'' ids' d') :
    Books uuidv7 s s'' (ids ++ ids') (d + d') := by
  obtain ⟨n, hn, hp⟩ := h.issued
  obtain ⟨m, hm, hp'⟩ := h'.issued
  refine ⟨⟨n + m, by omega, ?_⟩, fun scope => ?_⟩
  · rw [← List.range'_append_1, List.map_append, ← hn]
    exact hp.append hp'
  · rw [h'.tally, h.tally, Pi.add_apply, Nat.add_assoc]

theorem perm (h : Books uuidv7 s s' ids d) (hp : ids'.Perm ids) (hd : d' = d) :
    Books uuidv7 s s' ids' d' := by
  obtain ⟨n, hn, hids⟩ := h.issued
  exact ⟨⟨n, hn, hp.trans hids⟩, by rw [hd]; exact h.tally⟩

/-- Skipping before the rest. -/
theorem trans_skip (h : Books uuidv7 s s' [] d) (h' : Books uuidv7 s' s'' ids' d') :
    Books uuidv7 s s'' ids' (d + d') :=
  h.trans h'

theorem newId : Books uuidv7 s (Plan.newId uuidv7 s).2 [(Plan.newId uuidv7 s).1] 0 :=
  ⟨⟨1, rfl, List.Perm.refl _⟩, fun _ => rfl⟩

theorem skipMany {scope : TrelloImportScope} {reason : TrelloImportSkipReason} {count : Nat}
    {samples : List JsString} :
    Books uuidv7 s (Plan.skipMany scope reason count samples s).2 [] (Pi.single scope count) := by
  refine ⟨⟨0, rfl, List.Perm.refl _⟩, fun t => ?_⟩
  simp only [Plan.skipMany, tally_addMany, Pi.single_apply]

theorem skip {scope : TrelloImportScope} {reason : TrelloImportSkipReason}
    {sample : Option JsString} :
    Books uuidv7 s (Plan.skip scope reason sample s).2 [] (Pi.single scope 1) := skipMany

theorem issued_of_mem (h : Books uuidv7 s s' ids d) {id : Id} (hid : id ∈ ids) :
    ∃ n, uuidv7 n = id := by
  obtain ⟨n, _, hp⟩ := h.issued
  obtain ⟨m, _, rfl⟩ := List.mem_map.mp (hp.mem_iff.mp hid)
  exact ⟨m, rfl⟩

/-- Fresh identifiers are pairwise distinct. -/
theorem nodup (h : Books uuidv7 s s' ids d) (hinj : Function.Injective uuidv7) : ids.Nodup := by
  obtain ⟨n, _, hp⟩ := h.issued
  exact hp.nodup_iff.mpr (List.Nodup.map hinj List.nodup_range')

end Books

/-! ## Lists, columns and labels -/

section Lists

variable {rt : Runtime} {uuidv7 : Nat → Id} {actorId boardId : Id}

theorem addIssues_books (issues : List TrelloReadIssue) :
    ∀ s, Books uuidv7 s (addIssues issues s).2 [] (issueCount issues) := by
  induction issues with
  | nil => intro s; exact Books.refl
  | cons issue rest ih =>
    intro s
    refine (Books.skip.trans_skip (ih _)).perm (List.Perm.refl _) ?_
    funext scope
    simp only [issueCount_cons, Pi.add_apply, Pi.single_apply, Nat.add_comm]

/-- A list that becomes a column. -/
def TrelloList.live (list : TrelloList) : Bool := !list.closed && !isUnnamed list.name

theorem sortLists_live (lists : List TrelloList) :
    ∀ s, (sortLists lists s).1.1 = lists.filter TrelloList.live := by
  induction lists with
  | nil => intro s; rfl
  | cons list rest ih =>
    intro s
    by_cases hc : list.closed = true
    · simp [sortLists, hc, TrelloList.live, ih]
    · by_cases hn : isUnnamed list.name = true
      · simp [sortLists, hc, hn, TrelloList.live, ih]
      · simp [sortLists, hc, hn, TrelloList.live, ih]

theorem sortLists_books (lists : List TrelloList) :
    ∀ s, Books uuidv7 s (sortLists lists s).2 []
      (Pi.single .list (lists.filter fun list => !list.live).length) := by
  induction lists with
  | nil => intro s; exact Books.refl.perm (List.Perm.refl _) (Pi.single_zero _)
  | cons list rest ih =>
    intro s
    by_cases hc : list.closed = true
    · have hrest := Books.skip.trans_skip (ih (Plan.skip .list .archived (some list.name) s).2)
      rw [← Pi.single_add, Nat.add_comm] at hrest
      simpa [sortLists, hc, TrelloList.live] using hrest
    · by_cases hn : isUnnamed list.name = true
      · have hrest := Books.skip.trans_skip (ih (Plan.skip .list .malformed none s).2)
        rw [← Pi.single_add, Nat.add_comm] at hrest
        simpa [sortLists, hc, hn, TrelloList.live] using hrest
      · simpa [sortLists, hc, hn, TrelloList.live] using ih s

/-- A column made from a list. -/
structure PlannedColumn.Of (boardId : Id) (list : TrelloList) (column : PlannedColumn) : Prop where
  name : column.name = list.name
  boardId : column.boardId = boardId

theorem planColumns_books {count : Nat} (lists : List TrelloList) : ∀ index byId s,
    Books uuidv7 s (planColumns uuidv7 boardId count index lists byId s).2
      ((planColumns uuidv7 boardId count index lists byId s).1.1.map PlannedColumn.id) 0 := by
  induction lists with
  | nil => intro index byId s; exact Books.refl
  | cons list rest ih => intro index byId s; exact Books.newId.trans (ih _ _ _)

theorem planColumns_of {count : Nat} (lists : List TrelloList) : ∀ index byId s,
    List.Forall₂ (PlannedColumn.Of boardId) lists
      (planColumns uuidv7 boardId count index lists byId s).1.1 := by
  induction lists with
  | nil => intro index byId s; exact .nil
  | cons list rest ih => intro index byId s; exact .cons ⟨rfl, rfl⟩ (ih _ _ _)

/-- Every id the map of columns answers with is a column's. -/
theorem planColumns_get {count : Nat} (lists : List TrelloList) : ∀ index byId s k v,
    (planColumns uuidv7 boardId count index lists byId s).1.2.get k = some v →
      byId.get k = some v ∨
        v ∈ (planColumns uuidv7 boardId count index lists byId s).1.1.map PlannedColumn.id := by
  induction lists with
  | nil => intro index byId s k v h; exact .inl h
  | cons list rest ih =>
    intro index byId s k v h
    rcases ih _ _ _ k v h with h | h
    · rw [JsMap.get_set] at h
      split at h
      · exact .inr (List.mem_cons.mpr (.inl (Option.some.inj h).symm))
      · exact .inl h
    · exact .inr (List.mem_cons_of_mem _ h)

/-- One label, and then the rest. -/
theorem planLabels_cons (rt : Runtime) (boardId : Id) (label : TrelloLabel) (rest : List TrelloLabel) (byId : JsMap JsString Id)
    (s : PlanState) : ∃ n s₁, Books uuidv7 s s₁ [(newId uuidv7 s).1] (Pi.single .label n) ∧
      planLabels rt uuidv7 boardId (label :: rest) byId s =
        let r := planLabels rt uuidv7 boardId rest (byId.set label.id (newId uuidv7 s).1) s₁
        ((⟨(newId uuidv7 s).1, boardId, labelName label, (trelloColorToSlot rt label.color).slot⟩ ::
          r.1.1, r.1.2), r.2) := by
  by_cases hd : ((trelloColorToSlot rt label.color).defaulted || isUnnamed label.name) = true
  · exact ⟨1, _, (Books.newId.trans Books.skip).perm (List.Perm.refl _) (zero_add _).symm,
      by simp only [planLabels, bind_apply, hd, if_true]; rfl⟩
  · exact ⟨0, _, Books.newId.perm (List.Perm.refl _) (Pi.single_zero _),
      by simp only [planLabels, bind_apply, hd]; rfl⟩

variable (rt uuidv7 boardId) in
theorem planLabels_books (labels : List TrelloLabel) : ∀ byId s, ∃ n,
    Books uuidv7 s (planLabels rt uuidv7 boardId labels byId s).2
      ((planLabels rt uuidv7 boardId labels byId s).1.1.map PlannedLabel.id)
      (Pi.single .label n) := by
  induction labels with
  | nil => intro byId s; exact ⟨0, Books.refl.perm (List.Perm.refl _) (Pi.single_zero _)⟩
  | cons label rest ih =>
    intro byId s
    obtain ⟨n, s₁, hbooks, heq⟩ := planLabels_cons rt boardId label rest byId s
    obtain ⟨m, hm⟩ := ih (byId.set label.id (newId uuidv7 s).1) s₁
    rw [heq]
    exact ⟨n + m, (hbooks.trans hm).perm (List.Perm.refl _) (Pi.single_add _ _ _)⟩

theorem planLabels_board (labels : List TrelloLabel) : ∀ byId s,
    ∀ label ∈ (planLabels rt uuidv7 boardId labels byId s).1.1, label.boardId = boardId := by
  induction labels with
  | nil => intro byId s label h; cases h
  | cons label rest ih =>
    intro byId s row h
    obtain ⟨_, s₁, _, heq⟩ := planLabels_cons rt boardId label rest byId s
    rw [heq] at h
    rcases List.mem_cons.mp h with rfl | h
    · rfl
    · exact ih _ _ row h

/-- Every id the map of labels answers with is a label's. -/
theorem planLabels_get (labels : List TrelloLabel) : ∀ byId s k v,
    (planLabels rt uuidv7 boardId labels byId s).1.2.get k = some v →
      byId.get k = some v ∨
        v ∈ (planLabels rt uuidv7 boardId labels byId s).1.1.map PlannedLabel.id := by
  induction labels with
  | nil => intro byId s k v h; exact .inl h
  | cons label rest ih =>
    intro byId s k v h
    obtain ⟨_, s₁, _, heq⟩ := planLabels_cons rt boardId label rest byId s
    rw [heq] at h ⊢
    rcases ih _ _ k v h with h | h
    · rw [JsMap.get_set] at h
      split at h
      · exact .inr (List.mem_cons.mpr (.inl (Option.some.inj h).symm))
      · exact .inl h
    · exact .inr (List.mem_cons_of_mem _ h)

end Lists

/-! ## Cards -/

theorem cardColumn_ok {columnIdByTrelloId : JsMap JsString Id} {archivedListIds : List JsString}
    {card : TrelloCard} {columnId : Id}
    (h : cardColumn columnIdByTrelloId archivedListIds card = .ok columnId) :
    isUnnamed card.name = false ∧ ∃ k, columnIdByTrelloId.get k = some columnId := by
  unfold cardColumn at h
  split at h
  · cases h
  · split at h
    · cases h
    · rename_i hn
      refine ⟨by simpa using hn, ?_⟩
      split at h
      · rename_i id hid
        obtain ⟨k, _, hk⟩ := Option.bind_eq_some_iff.mp hid
        exact ⟨k, by rw [hk, Except.ok.inj h]⟩
      · cases h

section SortCards

variable {uuidv7 : Nat → Id} {columnIdByTrelloId : JsMap JsString Id}
  {archivedListIds : List JsString}

theorem sortCards_all (cards : List TrelloCard) (k : Id) : ∀ sorted s,
    (sortCards columnIdByTrelloId archivedListIds cards sorted s).1.cardsByColumnId.all k =
      sorted.cardsByColumnId.all k ++
        ((assigned (cardColumn columnIdByTrelloId archivedListIds) cards).filter
          fun e => e.1 = k).map Prod.snd := by
  induction cards with
  | nil => intro sorted s; simp [sortCards, assigned]
  | cons card rest ih =>
    intro sorted s
    cases hp : cardColumn columnIdByTrelloId archivedListIds card with
    | error reason =>
      simp only [sortCards, hp, bind_apply, ih]
      simp [assigned, hp, Except.toOption]
    | ok columnId =>
      simp only [sortCards, hp, ih, JsMap.all_push]
      by_cases hk : k = columnId
      · subst hk
        simp [assigned, hp, Except.toOption]
      · have hk' : ¬ columnId = k := fun h => hk h.symm
        simp [assigned, hp, Except.toOption, hk, hk']

theorem sortCards_books (cards : List TrelloCard) : ∀ sorted s,
    Books uuidv7 s (sortCards columnIdByTrelloId archivedListIds cards sorted s).2 []
      (Pi.single .card (dropped (cardColumn columnIdByTrelloId archivedListIds) cards).length) := by
  induction cards with
  | nil => intro sorted s; exact Books.refl.perm (List.Perm.refl _) (Pi.single_zero _)
  | cons card rest ih =>
    intro sorted s
    cases hp : cardColumn columnIdByTrelloId archivedListIds card with
    | error reason =>
      have hrest := Books.skip.trans_skip (ih
        { sorted with skippedCardReasons := sorted.skippedCardReasons.set card.id reason }
        (Plan.skip .card reason (some card.name) s).2)
      rw [← Pi.single_add, Nat.add_comm] at hrest
      simpa [sortCards, dropped, hp, Except.isOk, Except.toBool] using hrest
    | ok columnId =>
      simpa [sortCards, dropped, hp, Except.isOk, Except.toBool] using
        ih { sorted with cardsByColumnId := sorted.cardsByColumnId.push columnId card } s

end SortCards

/-! ## Tasks -/

/-- A link as an import writes one: nothing but a URL that may be stored. -/
structure PlannedAttachment.Link (rt : Runtime) (actorId taskId : Id) (row : PlannedAttachment) :
    Prop where
  taskId : row.taskId = taskId
  uploader : row.uploadedById = actorId
  kind : row.kind = .link
  url : ∃ raw, classifyUrl rt raw = .ok row.url
  storageKey : row.storageKey = none
  mimeType : row.mimeType = none
  size : row.size = none

/-- How many of these attachments cannot be stored. -/
def unstorable (rt : Runtime) (attachments : List TrelloAttachment) : Nat :=
  (attachments.filter fun a => !(classifyUrl rt a.url).isOk).length

/-- A card that became a task. -/
structure CardPart (rt : Runtime) (actorId boardId : Id) (labelIdByTrelloId : JsMap JsString Id) where
  card : TrelloCard
  task : PlannedTask
  taskLabels : List TaskLabelRow
  attachments : List PlannedAttachment
  title : task.title = card.name
  board : task.boardId = boardId
  creator : task.createdById = actorId
  labels : ∀ row ∈ taskLabels, row.taskId = task.id ∧ ∃ k, labelIdByTrelloId.get k = some row.labelId
  labels_nodup : (taskLabels.map TaskLabelRow.labelId).Nodup
  links : ∀ row ∈ attachments, row.Link rt actorId task.id
  attachments_length : attachments.length + unstorable rt card.attachments = card.attachments.length

section Tasks

variable {rt : Runtime} {uuidv7 : Nat → Id} {actorId boardId : Id}
  {labelIdByTrelloId : JsMap JsString Id}

variable (uuidv7 labelIdByTrelloId) in
theorem planTaskLabels_books (cardName : JsString) (taskId : Id) (ids : List JsString) :
    ∀ attached s, ∃ n,
      Books uuidv7 s (planTaskLabels uuidv7 labelIdByTrelloId cardName taskId attached ids s).2
        ((planTaskLabels uuidv7 labelIdByTrelloId cardName taskId attached ids s).1.map
          TaskLabelRow.id) (Pi.single .label n) := by
  induction ids with
  | nil => intro attached s; exact ⟨0, Books.refl.perm (List.Perm.refl _) (Pi.single_zero _)⟩
  | cons id rest ih =>
    intro attached s
    cases hg : labelIdByTrelloId.get id with
    | none =>
      obtain ⟨n, hn⟩ := ih attached (Plan.skip .label .malformed (some cardName) s).2
      simp only [planTaskLabels, hg, bind_apply]
      exact ⟨1 + n, (Books.skip.trans_skip hn).perm (List.Perm.refl _) (Pi.single_add _ _ _)⟩
    | some labelId =>
      simp only [planTaskLabels, hg]
      split
      · exact ih attached s
      · obtain ⟨n, hn⟩ := ih (attached ++ [labelId]) (newId uuidv7 s).2
        exact ⟨n, (Books.newId.trans hn).perm (List.Perm.refl _) (zero_add _).symm⟩

variable (uuidv7 labelIdByTrelloId) in
/-- The labels of a card come out each once, and none that is attached already. -/
theorem planTaskLabels_labels (cardName : JsString) (taskId : Id) (ids : List JsString) :
    ∀ attached s,
      (∀ row ∈ (planTaskLabels uuidv7 labelIdByTrelloId cardName taskId attached ids s).1,
        row.taskId = taskId ∧ row.labelId ∉ attached ∧
          ∃ k, labelIdByTrelloId.get k = some row.labelId) ∧
      ((planTaskLabels uuidv7 labelIdByTrelloId cardName taskId attached ids s).1.map
        TaskLabelRow.labelId).Nodup := by
  induction ids with
  | nil => intro attached s; simp [planTaskLabels]
  | cons id rest ih =>
    intro attached s
    cases hg : labelIdByTrelloId.get id with
    | none =>
      simp only [planTaskLabels, hg, bind_apply]
      exact ih attached _
    | some labelId =>
      simp only [planTaskLabels, hg]
      split
      · exact ih attached s
      · rename_i hnew
        obtain ⟨hrows, hnd⟩ := ih (attached ++ [labelId]) (newId uuidv7 s).2
        have hhead : ∀ row ∈ (planTaskLabels uuidv7 labelIdByTrelloId cardName taskId
            (attached ++ [labelId]) rest (newId uuidv7 s).2).1, row.labelId ≠ labelId :=
          fun row hrow heq => (hrows row hrow).2.1 (by simp [heq])
        refine ⟨fun row hrow => ?_, List.nodup_cons.mpr ⟨?_, hnd⟩⟩
        · rcases List.mem_cons.mp hrow with rfl | hrow
          · exact ⟨rfl, hnew, id, hg⟩
          · obtain ⟨htask, hatt, hk⟩ := hrows row hrow
            exact ⟨htask, fun h => hatt (List.mem_append_left _ h), hk⟩
        · rintro hmem
          obtain ⟨row, hrow, heq⟩ := List.mem_map.mp hmem
          exact hhead row hrow heq

variable (rt uuidv7 actorId) in
theorem planAttachments_books (taskId : Id) (attachments : List TrelloAttachment) : ∀ s,
    Books uuidv7 s (planAttachments rt uuidv7 actorId taskId attachments s).2
      ((planAttachments rt uuidv7 actorId taskId attachments s).1.map PlannedAttachment.id)
      (Pi.single .attachment (unstorable rt attachments)) := by
  induction attachments with
  | nil => intro s; exact Books.refl.perm (List.Perm.refl _) (Pi.single_zero _)
  | cons a rest ih =>
    intro s
    cases hu : classifyUrl rt a.url with
    | error reason =>
      have hrest := Books.skip.trans_skip (ih (Plan.skip .attachment reason (some a.name) s).2)
      rw [← Pi.single_add, Nat.add_comm] at hrest
      simpa [planAttachments, unstorable, hu, Except.isOk, Except.toBool] using hrest
    | ok url =>
      have hrest := Books.newId.trans (ih (newId uuidv7 s).2)
      rw [zero_add] at hrest
      simpa [planAttachments, unstorable, hu, Except.isOk, Except.toBool] using hrest

variable (rt uuidv7 actorId) in
theorem planAttachments_links (taskId : Id) (attachments : List TrelloAttachment) : ∀ s,
    (∀ row ∈ (planAttachments rt uuidv7 actorId taskId attachments s).1, row.Link rt actorId taskId) ∧
      (planAttachments rt uuidv7 actorId taskId attachments s).1.length +
        unstorable rt attachments = attachments.length := by
  induction attachments with
  | nil => intro s; simp [planAttachments, unstorable]
  | cons a rest ih =>
    intro s
    cases hu : classifyUrl rt a.url with
    | error reason =>
      obtain ⟨hlinks, hlen⟩ := ih (Plan.skip .attachment reason (some a.name) s).2
      refine ⟨by simpa [planAttachments, hu] using hlinks, ?_⟩
      simp only [planAttachments, hu, bind_apply, unstorable, Except.isOk, Except.toBool,
        List.filter_cons, Bool.not_false, if_true, List.length_cons] at hlen ⊢
      omega
    | ok url =>
      obtain ⟨hlinks, hlen⟩ := ih (newId uuidv7 s).2
      refine ⟨fun row hrow => ?_, ?_⟩
      · simp only [planAttachments, hu] at hrow
        rcases List.mem_cons.mp hrow with rfl | hrow
        · exact ⟨rfl, rfl, rfl, ⟨a.url, hu⟩, rfl, rfl, rfl⟩
        · exact hlinks row hrow
      · simp only [planAttachments, hu, bind_apply, pure_apply, unstorable, Except.isOk,
          Except.toBool, List.filter_cons, Bool.not_true, Bool.false_eq_true, if_false,
          List.length_cons] at hlen ⊢
        omega

def TaskRows.ids (rows : TaskRows) : List Id :=
  rows.tasks.map PlannedTask.id ++ rows.taskLabels.map TaskLabelRow.id ++
    rows.attachments.map PlannedAttachment.id

/-- The rows of a list of parts. -/
def TaskRows.ofParts (parts : List (CardPart rt actorId boardId labelIdByTrelloId)) : TaskRows :=
  ⟨parts.map CardPart.task, parts.flatMap CardPart.taskLabels, parts.flatMap CardPart.attachments⟩

/-- How many attachments of the parts' cards are not among their rows. -/
def lostAttachments (parts : List (CardPart rt actorId boardId labelIdByTrelloId)) : Nat :=
  (parts.map fun p => unstorable rt p.card.attachments).sum

/-- Planning these parts gave these rows, and put their tasks on the map of cards. -/
structure PlansCards (uuidv7 : Nat → Id) (parts : List (CardPart rt actorId boardId labelIdByTrelloId))
    (rows : TaskRows) (byId byId' : JsMap JsString Id) (s s' : PlanState) : Prop where
  rows_eq : rows = .ofParts parts
  books : ∃ n, Books uuidv7 s s' rows.ids
    (Pi.single .label n + Pi.single .attachment (lostAttachments parts))
  get : ∀ k v, byId'.get k = some v → byId.get k = some v ∨ ∃ p ∈ parts, p.task.id = v

theorem PlansCards.nil {byId : JsMap JsString Id} {s : PlanState} :
    PlansCards uuidv7 ([] : List (CardPart rt actorId boardId labelIdByTrelloId)) ⟨[], [], []⟩ byId byId s s :=
  ⟨rfl, ⟨0, Books.refl.perm (List.Perm.refl _) (by simp [lostAttachments])⟩, fun _ _ h => .inl h⟩

theorem PlansCards.append {parts parts' : List (CardPart rt actorId boardId labelIdByTrelloId)}
    {rows rows' : TaskRows} {byId byId' byId'' : JsMap JsString Id} {s s' s'' : PlanState}
    (h : PlansCards uuidv7 parts rows byId byId' s s')
    (h' : PlansCards uuidv7 parts' rows' byId' byId'' s' s'') :
    PlansCards uuidv7 (parts ++ parts') (rows.append rows') byId byId'' s s'' := by
  refine ⟨?_, ?_, fun k v hv => ?_⟩
  · rw [h.rows_eq, h'.rows_eq]
    simp [TaskRows.append, TaskRows.ofParts]
  · obtain ⟨n, hn⟩ := h.books
    obtain ⟨m, hm⟩ := h'.books
    refine ⟨n + m, (hn.trans hm).perm ?_ ?_⟩
    · simp only [TaskRows.ids, TaskRows.append, List.map_append, List.append_assoc]
      refine List.Perm.append_left _ ?_
      -- the first rows' labels and attachments, past the second rows' tasks
      refine (List.perm_append_comm_assoc _ _ _).trans (List.Perm.append_left _ ?_)
      refine (List.Perm.append_left _ (List.perm_append_comm_assoc _ _ _)).trans ?_
      exact List.perm_append_comm_assoc _ _ _
    · simp only [lostAttachments, List.map_append, List.sum_append, Pi.single_add]
      exact add_add_add_comm _ _ _ _
  · rcases h'.get k v hv with hv | ⟨p, hp, rfl⟩
    · rcases h.get k v hv with hv | ⟨p, hp, rfl⟩
      · exact .inl hv
      · exact .inr ⟨p, List.mem_append_left _ hp, rfl⟩
    · exact .inr ⟨p, List.mem_append_right _ hp, rfl⟩

variable (rt uuidv7 actorId boardId labelIdByTrelloId) in
/-- The cards of one column: a part each, in the column. -/
theorem planCards_parts (columnId : Id) (count : Nat) (cards : List TrelloCard) :
    ∀ index byId s, ∃ parts : List (CardPart rt actorId boardId labelIdByTrelloId),
      parts.map CardPart.card = cards ∧ (∀ p ∈ parts, p.task.columnId = columnId) ∧
      let r := planCards rt uuidv7 actorId boardId labelIdByTrelloId columnId count index cards byId s
      PlansCards uuidv7 parts r.1.1 byId r.1.2 s r.2 := by
  induction cards with
  | nil => intro index byId s; exact ⟨[], rfl, by simp, .nil⟩
  | cons card rest ih =>
    intro index byId s
    let task : PlannedTask := ⟨(newId uuidv7 s).1, boardId, columnId, card.name,
      emptyToNull card.desc, positionsFor count index, card.due.bind rt.parseDate, actorId⟩
    let labelled := planTaskLabels uuidv7 labelIdByTrelloId card.name task.id [] card.idLabels
      (newId uuidv7 s).2
    let attached := planAttachments rt uuidv7 actorId task.id card.attachments labelled.2
    obtain ⟨hlabels, hnd⟩ := planTaskLabels_labels uuidv7 labelIdByTrelloId card.name task.id
      card.idLabels [] (newId uuidv7 s).2
    obtain ⟨hlinks, hlen⟩ := planAttachments_links rt uuidv7 actorId task.id card.attachments
      labelled.2
    let part : CardPart rt actorId boardId labelIdByTrelloId := {
      card, task
      taskLabels := labelled.1
      attachments := attached.1
      title := rfl
      board := rfl
      creator := rfl
      labels := fun row hrow => ⟨(hlabels row hrow).1, (hlabels row hrow).2.2⟩
      labels_nodup := hnd
      links := hlinks
      attachments_length := hlen }
    have hone : PlansCards uuidv7 [part] ⟨[task], labelled.1, attached.1⟩ byId
        (byId.set card.id task.id) s attached.2 := by
      refine ⟨by simp [TaskRows.ofParts, part], ?_, fun k v hv => ?_⟩
      · obtain ⟨n, hn⟩ := planTaskLabels_books uuidv7 labelIdByTrelloId card.name task.id
          card.idLabels [] (newId uuidv7 s).2
        have hall := (Books.newId.trans hn).trans (planAttachments_books rt uuidv7 actorId task.id
          card.attachments labelled.2)
        exact ⟨n, hall.perm (List.Perm.refl _) (by simp [lostAttachments, part])⟩
      · rw [JsMap.get_set] at hv
        split at hv
        · exact .inr ⟨part, by simp, Option.some.inj hv⟩
        · exact .inl hv
    obtain ⟨parts, hcards, hcolumn, hrest⟩ := ih (index + 1) (byId.set card.id task.id) attached.2
    refine ⟨part :: parts, by simp [hcards, part], ?_, hone.append hrest⟩
    intro p hp
    rcases List.mem_cons.mp hp with rfl | hp
    · rfl
    · exact hcolumn p hp

variable (rt uuidv7 actorId boardId labelIdByTrelloId) in
/-- The cards of all columns, column by column. -/
theorem planTasks_parts (cardsByColumnId : JsMap Id (List TrelloCard))
    (columns : List PlannedColumn) :
    ∀ byId s, ∃ parts : List (CardPart rt actorId boardId labelIdByTrelloId),
      (parts.map CardPart.card).Perm (columns.flatMap fun c => cardsByColumnId.all c.id) ∧
      (∀ p ∈ parts, p.task.columnId ∈ columns.map PlannedColumn.id) ∧
      let r := planTasks rt uuidv7 actorId boardId labelIdByTrelloId cardsByColumnId columns byId s
      PlansCards uuidv7 parts r.1.1 byId r.1.2 s r.2 := by
  induction columns with
  | nil => intro byId s; exact ⟨[], List.Perm.refl _, by simp, .nil⟩
  | cons column rest ih =>
    intro byId s
    obtain ⟨parts, hcards, hcolumn, hone⟩ := planCards_parts rt uuidv7 actorId boardId
      labelIdByTrelloId column.id (orderedByPos (cardsByColumnId.all column.id)).length
      (orderedByPos (cardsByColumnId.all column.id)) 0 byId s
    obtain ⟨parts', hcards', hcolumn', hrest⟩ := ih _ _
    refine ⟨parts ++ parts', ?_, fun p hp => ?_, hone.append hrest⟩
    · rw [List.map_append, hcards, List.flatMap_cons]
      exact (sortBy_perm _ _).append hcards'
    · rcases List.mem_append.mp hp with hp | hp
      · exact List.mem_cons.mpr (.inl (hcolumn p hp))
      · exact List.mem_cons_of_mem _ (hcolumn' p hp)

end Tasks
/-! ## Checklists -/

theorem checklistTask_ok {taskIdByTrelloCardId : JsMap JsString Id}
    {skippedCardReasons : JsMap JsString TrelloImportSkipReason} {checklist : TrelloChecklist}
    {taskId : Id} (h : checklistTask taskIdByTrelloCardId skippedCardReasons checklist = .ok taskId) :
    isUnnamed checklist.name = false ∧ ∃ k, taskIdByTrelloCardId.get k = some taskId := by
  unfold checklistTask at h
  split at h
  · cases h
  · rename_i id hid
    split at h
    · cases h
    · rename_i hn
      obtain ⟨k, _, hk⟩ := Option.bind_eq_some_iff.mp hid
      simp only [Bool.or_eq_true, not_or] at hn
      exact ⟨by simpa using hn.1, k, by rw [hk, Except.ok.inj h]⟩

/-- How many of these items say nothing. -/
def unnamedItems (items : List TrelloCheckItem) : Nat :=
  (items.filter fun item => isUnnamed item.name).length

/-- A checklist that was written. -/
structure ChecklistPart where
  checklist : TrelloChecklist
  row : ChecklistRow
  items : List ChecklistItemRow
  title : row.title = checklist.name
  items_of : ∀ item ∈ items, item.checklistId = row.id ∧ isUnnamed item.content = false
  items_length : items.length + unnamedItems checklist.checkItems = checklist.checkItems.length

section Checklists

variable {uuidv7 : Nat → Id}

section SortChecklists

variable {taskIdByTrelloCardId : JsMap JsString Id}
  {skippedCardReasons : JsMap JsString TrelloImportSkipReason}

theorem sortChecklists_all (checklists : List TrelloChecklist) (k : Id) : ∀ byTask s,
    (sortChecklists taskIdByTrelloCardId skippedCardReasons checklists byTask s).1.all k =
      byTask.all k ++
        ((assigned (checklistTask taskIdByTrelloCardId skippedCardReasons) checklists).filter
          fun e => e.1 = k).map Prod.snd := by
  induction checklists with
  | nil => intro byTask s; simp [sortChecklists, assigned]
  | cons checklist rest ih =>
    intro byTask s
    cases hp : checklistTask taskIdByTrelloCardId skippedCardReasons checklist with
    | error reason =>
      simp only [sortChecklists, hp, bind_apply, ih]
      simp [assigned, hp, Except.toOption]
    | ok taskId =>
      simp only [sortChecklists, hp, ih, JsMap.all_push]
      by_cases hk : k = taskId
      · subst hk
        simp [assigned, hp, Except.toOption]
      · have hk' : ¬ taskId = k := fun h => hk h.symm
        simp [assigned, hp, Except.toOption, hk, hk']

theorem sortChecklists_books (checklists : List TrelloChecklist) : ∀ byTask s,
    Books uuidv7 s
      (sortChecklists taskIdByTrelloCardId skippedCardReasons checklists byTask s).2 []
      (Pi.single .checklist
        (dropped (checklistTask taskIdByTrelloCardId skippedCardReasons) checklists).length) := by
  induction checklists with
  | nil => intro byTask s; exact Books.refl.perm (List.Perm.refl _) (Pi.single_zero _)
  | cons checklist rest ih =>
    intro byTask s
    cases hp : checklistTask taskIdByTrelloCardId skippedCardReasons checklist with
    | error reason =>
      have hrest := Books.skip.trans_skip
        (ih byTask (Plan.skip .checklist reason (some checklist.name) s).2)
      rw [← Pi.single_add, Nat.add_comm] at hrest
      simpa [sortChecklists, dropped, hp, Except.isOk, Except.toBool] using hrest
    | ok taskId =>
      simpa [sortChecklists, dropped, hp, Except.isOk, Except.toBool] using
        ih (byTask.push taskId checklist) s

end SortChecklists

theorem usableItems_eq (items : List TrelloCheckItem) : ∀ s,
    (usableItems items s).1 = items.filter fun item => !isUnnamed item.name := by
  induction items with
  | nil => intro s; rfl
  | cons item rest ih =>
    intro s
    by_cases hn : isUnnamed item.name = true
    · simp [usableItems, hn, ih]
    · simp [usableItems, hn, ih]

theorem usableItems_books (items : List TrelloCheckItem) : ∀ s,
    Books uuidv7 s (usableItems items s).2 [] (Pi.single .checklistItem (unnamedItems items)) := by
  induction items with
  | nil => intro s; exact Books.refl.perm (List.Perm.refl _) (Pi.single_zero _)
  | cons item rest ih =>
    intro s
    by_cases hn : isUnnamed item.name = true
    · have hrest := Books.skip.trans_skip (ih (Plan.skip .checklistItem .malformed none s).2)
      rw [← Pi.single_add, Nat.add_comm] at hrest
      simpa [usableItems, unnamedItems, hn] using hrest
    · simpa [usableItems, unnamedItems, hn] using ih s

theorem planItems_books {checklistId : Id} {count : Nat} (items : List TrelloCheckItem) :
    ∀ index s, Books uuidv7 s (planItems uuidv7 checklistId count index items s).2
      ((planItems uuidv7 checklistId count index items s).1.map ChecklistItemRow.id) 0 := by
  induction items with
  | nil => intro index s; exact Books.refl
  | cons item rest ih => intro index s; exact Books.newId.trans (ih _ _)

/-- An item's row. -/
structure ItemOf (checklistId : Id) (item : TrelloCheckItem) (row : ChecklistItemRow) : Prop where
  checklistId : row.checklistId = checklistId
  content : row.content = item.name

theorem planItems_of {checklistId : Id} {count : Nat} (items : List TrelloCheckItem) :
    ∀ index s, List.Forall₂ (ItemOf checklistId) items
      (planItems uuidv7 checklistId count index items s).1 := by
  induction items with
  | nil => intro index s; exact .nil
  | cons item rest ih => intro index s; exact .cons ⟨rfl, rfl⟩ (ih _ _)

/-- How many readable items of the parts' checklists are not among their rows. -/
def lostItems (parts : List ChecklistPart) : Nat :=
  (parts.map fun p => unnamedItems p.checklist.checkItems).sum

/-- Planning these parts gave these rows. -/
structure PlansChecklists (uuidv7 : Nat → Id) (parts : List ChecklistPart)
    (rows : List ChecklistRow × List ChecklistItemRow) (s s' : PlanState) : Prop where
  rows_eq : rows = (parts.map ChecklistPart.row, parts.flatMap ChecklistPart.items)
  books : Books uuidv7 s s' (rows.1.map ChecklistRow.id ++ rows.2.map ChecklistItemRow.id)
    (Pi.single .checklistItem (lostItems parts))

theorem PlansChecklists.nil {s : PlanState} : PlansChecklists uuidv7 [] ([], []) s s :=
  ⟨rfl, Books.refl.perm (List.Perm.refl _) (Pi.single_zero _)⟩

theorem PlansChecklists.append {parts parts' : List ChecklistPart}
    {rows rows' : List ChecklistRow × List ChecklistItemRow} {s s' s'' : PlanState}
    (h : PlansChecklists uuidv7 parts rows s s') (h' : PlansChecklists uuidv7 parts' rows' s' s'') :
    PlansChecklists uuidv7 (parts ++ parts') (rows.1 ++ rows'.1, rows.2 ++ rows'.2) s s'' := by
  refine ⟨by rw [h.rows_eq, h'.rows_eq]; simp, (h.books.trans h'.books).perm ?_ ?_⟩
  · simp only [List.map_append, List.append_assoc]
    exact List.Perm.append_left _ (List.perm_append_comm_assoc _ _ _)
  · simp only [lostItems, List.map_append, List.sum_append, Pi.single_add]

variable (uuidv7) in
/-- The checklists of one task: a part each, on the task. -/
theorem planTaskChecklists_parts (taskId : Id) (count : Nat) (checklists : List TrelloChecklist) :
    ∀ index s, ∃ parts : List ChecklistPart,
      parts.map ChecklistPart.checklist = checklists ∧ (∀ p ∈ parts, p.row.taskId = taskId) ∧
      let r := planTaskChecklists uuidv7 taskId count index checklists s
      PlansChecklists uuidv7 parts r.1 s r.2 := by
  induction checklists with
  | nil => intro index s; exact ⟨[], rfl, by simp, .nil⟩
  | cons checklist rest ih =>
    intro index s
    let row : ChecklistRow := ⟨(newId uuidv7 s).1, taskId, checklist.name, positionsFor count index⟩
    let usable := usableItems (orderedByPos checklist.checkItems) (newId uuidv7 s).2
    let planned := planItems uuidv7 row.id usable.1.length 0 usable.1 usable.2
    have hof : List.Forall₂ (ItemOf row.id) usable.1 planned.1 := planItems_of usable.1 0 usable.2
    have husable : usable.1 = (orderedByPos checklist.checkItems).filter
        fun item => !isUnnamed item.name := usableItems_eq _ _
    have hunnamed : unnamedItems (orderedByPos checklist.checkItems) =
        unnamedItems checklist.checkItems := ((sortBy_perm _ _).filter _).length_eq
    let part : ChecklistPart := {
      checklist, row
      items := planned.1
      title := rfl
      items_of := fun item hitem => by
        obtain ⟨entry, hentry, hitem⟩ := exists_of_forall₂_right hof hitem
        rw [husable] at hentry
        exact ⟨hitem.checklistId, by rw [hitem.content]; simpa using (List.mem_filter.mp hentry).2⟩
      items_length := by
        rw [← hof.length_eq, husable, ← hunnamed, unnamedItems, Nat.add_comm,
          ← length_sortBy posKey checklist.checkItems]
        exact (List.length_eq_length_filter_add _).symm }
    have hone : PlansChecklists uuidv7 [part] ([row], planned.1) s planned.2 := by
      refine ⟨by simp [part], ?_⟩
      have hitems : Books uuidv7 usable.2 planned.2 (planned.1.map ChecklistItemRow.id) 0 :=
        planItems_books usable.1 0 usable.2
      have hall := (Books.newId.trans (usableItems_books (orderedByPos checklist.checkItems)
        (newId uuidv7 s).2)).trans hitems
      exact hall.perm (List.Perm.refl _) (by simp [lostItems, part, hunnamed])
    obtain ⟨parts, hlists, htask, hrest⟩ := ih (index + 1) planned.2
    refine ⟨part :: parts, by simp [hlists, part], ?_, hone.append hrest⟩
    intro p hp
    rcases List.mem_cons.mp hp with rfl | hp
    · rfl
    · exact htask p hp

variable (uuidv7) in
/-- The checklists of all tasks, task by task. -/
theorem planChecklists_parts (checklistsByTaskId : JsMap Id (List TrelloChecklist))
    (tasks : List PlannedTask) :
    ∀ s, ∃ parts : List ChecklistPart,
      (parts.map ChecklistPart.checklist).Perm
        (tasks.flatMap fun t => checklistsByTaskId.all t.id) ∧
      (∀ p ∈ parts, p.row.taskId ∈ tasks.map PlannedTask.id) ∧
      let r := planChecklists uuidv7 checklistsByTaskId tasks s
      PlansChecklists uuidv7 parts r.1 s r.2 := by
  induction tasks with
  | nil => intro s; exact ⟨[], List.Perm.refl _, by simp, .nil⟩
  | cons task rest ih =>
    intro s
    obtain ⟨parts, hlists, htask, hone⟩ := planTaskChecklists_parts uuidv7 task.id
      (orderedByPos (checklistsByTaskId.all task.id)).length
      (orderedByPos (checklistsByTaskId.all task.id)) 0 s
    obtain ⟨parts', hlists', htask', hrest⟩ := ih _
    refine ⟨parts ++ parts', ?_, fun p hp => ?_, hone.append hrest⟩
    · rw [List.map_append, hlists, List.flatMap_cons]
      exact (sortBy_perm _ _).append hlists'
    · rcases List.mem_append.mp hp with hp | hp
      · exact List.mem_cons.mpr (.inl (htask p hp))
      · exact List.mem_cons_of_mem _ (htask' p hp)

end Checklists
end Kurul
