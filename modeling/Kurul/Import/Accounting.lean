import Kurul.Import.Planned

/-!
# Kurul.Import.Accounting

The import accounts for every list, card and checklist of an export exactly once, and under what is
written for every attachment and item.

* `Ledger` — entries split into those written, each with its row, and those skipped.
* `import_accounted` — the ledgers of an import, and how the skip report adds up.
-/

namespace Kurul

/-! ## Sections of the export -/

/-- `root[name]`. -/
def rootMember (name : String) : Json → Option Json
  | .obj members => Json.member (js name) members
  | _ => none

def sectionEntries : Option Json → List Json
  | some (.arr entries) => entries
  | _ => []

/-- A section that is not there, or is no array, counts as one extra entry. -/
def sectionMissing : Option Json → Nat
  | some (.arr _) => 0
  | _ => 1

section Section

variable {T : Type} {scope : TrelloImportScope} {read : Json → Option T × List TrelloReadIssue}

theorem readSection_rows (raw : Option Json) :
    (readSection scope read raw).1 = (sectionEntries raw).filterMap fun entry => (read entry).1 := by
  cases raw with
  | none => rfl
  | some value =>
    cases value with
    | arr entries => exact readEntries_rows entries
    | _ => rfl

theorem readSection_issues (raw : Option Json) (s : TrelloImportScope) :
    issueCount (readSection scope read raw).2 s =
      ((sectionEntries raw).map fun entry => issueCount (read entry).2 s).sum +
        if s = scope then
          ((sectionEntries raw).filter fun entry => (read entry).1.isNone).length +
            sectionMissing raw
        else 0 := by
  cases raw with
  | none => simp [readSection, sectionEntries, sectionMissing]
  | some value =>
    cases value with
    | arr entries => simpa [readSection, sectionEntries, sectionMissing] using readEntries_issues entries s
    | _ => simp [readSection, sectionEntries, sectionMissing]

theorem readSection_quietly_rows (read : Json → Option T) (raw : Option Json) :
    (readSection scope (quietly read) raw).1 = (sectionEntries raw).filterMap read :=
  readSection_rows raw

/-- A section whose entries leave no issues of their own. -/
theorem readSection_quietly (read : Json → Option T) (raw : Option Json) (s : TrelloImportScope) :
    issueCount (readSection scope (quietly read) raw).2 s =
      if s = scope then
        ((sectionEntries raw).filter fun entry => (read entry).isNone).length + sectionMissing raw
      else 0 := by
  rw [readSection_issues]
  simp [quietly]

end Section

/-- How many items of an entry cannot be read, where the reader comes to look at them. -/
def unreadableItems : Json → Nat
  | .obj entry =>
    match readId (Json.member (js "id") entry) with
    | none => 0
    | some _ => ((checkItemEntries entry).value.filter fun item => (readCheckItem item).isNone).length
  | _ => 0

theorem issueCount_readChecklist (entry : Json) (s : TrelloImportScope) :
    issueCount (readChecklist entry).2 s = if s = .checklistItem then unreadableItems entry else 0 := by
  have hitems : ∀ items : List Json, issueCount (items.map fun _ => unreadableItem) s =
      if s = .checklistItem then items.length else 0 := by
    intro items
    induction items with
    | nil => simp
    | cons item rest ih =>
      rw [List.map_cons, issueCount_cons, ih, List.length_cons]
      by_cases hs : s = .checklistItem
      · simp [hs, unreadableItem]
      · simp [hs, unreadableItem]
  cases entry with
  | obj members =>
    cases hid : readId (Json.member (js "id") members) with
    | none => simp [readChecklist, unreadableItems, hid]
    | some id =>
      simp only [readChecklist, unreadableItems, hid]
      split <;> exact hitems _
  | _ => simp [readChecklist, unreadableItems]

/-- The root of an export that is accepted. -/
theorem parseTrelloExport_ok {parsed : Option Json} {read : TrelloExportReadResult}
    (h : parseTrelloExport parsed = .ok read) :
    ∃ raw name entries, parsed = some (.obj raw) ∧ read = readExport name raw ∧
      Json.member (js "lists") raw = some (.arr entries) := by
  unfold parseTrelloExport at h
  split at h
  · cases h
  · rename_i raw
    split at h
    · rename_i name entries _ hlists
      exact ⟨raw, name, entries, rfl, (Except.ok.inj h).symm, hlists⟩
    · cases h
  · cases h

section Issues

variable {name : JsString} {raw : List (JsString × Json)}

theorem issueCount_readExport (s : TrelloImportScope) :
    issueCount (readExport name raw).issues s =
      (if s = .list then ((sectionEntries (Json.member (js "lists") raw)).filter
        fun entry => (readList entry).isNone).length +
          sectionMissing (Json.member (js "lists") raw) else 0) +
      (if s = .card then ((sectionEntries (Json.member (js "cards") raw)).filter
        fun entry => (readCard entry).isNone).length +
          sectionMissing (Json.member (js "cards") raw) else 0) +
      (if s = .label then ((sectionEntries (Json.member (js "labels") raw)).filter
        fun entry => (readLabel entry).isNone).length +
          sectionMissing (Json.member (js "labels") raw) else 0) +
      ((if s = .checklistItem then
        ((sectionEntries (Json.member (js "checklists") raw)).map unreadableItems).sum else 0) +
        if s = .checklist then ((sectionEntries (Json.member (js "checklists") raw)).filter
          fun entry => (readChecklist entry).1.isNone).length +
            sectionMissing (Json.member (js "checklists") raw) else 0) +
      (if s = .comment then sectionMissing (Json.member (js "actions") raw) else 0) +
      (if s = .member then sectionMissing (Json.member (js "members") raw) else 0) := by
  have hitems : ((sectionEntries (Json.member (js "checklists") raw)).map
      fun entry => issueCount (readChecklist entry).2 s).sum =
        if s = .checklistItem then
          ((sectionEntries (Json.member (js "checklists") raw)).map unreadableItems).sum else 0 := by
    simp only [issueCount_readChecklist]
    split <;> simp
  have hcomments : issueCount (countActions (Json.member (js "actions") raw)).2 s =
      if s = .comment then sectionMissing (Json.member (js "actions") raw) else 0 := by
    cases Json.member (js "actions") raw with
    | none => simp [countActions, sectionMissing]
    | some value => cases value <;> simp [countActions, sectionMissing]
  have hmembers : issueCount (countMembers (Json.member (js "members") raw)).2 s =
      if s = .member then sectionMissing (Json.member (js "members") raw) else 0 := by
    cases Json.member (js "members") raw with
    | none => simp [countMembers, sectionMissing]
    | some value => cases value <;> simp [countMembers, sectionMissing]
  simp only [readExport, issueCount_append, hcomments, hmembers]
  rw [readSection_quietly, readSection_quietly, readSection_quietly, readSection_issues, hitems]

end Issues
/-! ## Entries under an entry -/

/-- The attachments of a card, as the export has them. -/
def attachmentEntries : Json → List Json
  | .obj entry => (EntryFields.array (Json.member (js "attachments") entry)).value
  | _ => []

/-- The items of a checklist, as the export has them. -/
def itemEntries : Json → List Json
  | .obj entry => (checkItemEntries entry).value
  | _ => []

/-- The attachments of a card that are skipped: those whose URL cannot be stored. -/
def lostAttachmentsOf (rt : Runtime) (entry : Json) : Nat :=
  ((attachmentEntries entry).filter fun a =>
    (readAttachment a).any fun a => !(classifyUrl rt a.url).isOk).length

/-- The items of a checklist that are skipped: those that cannot be read, or say nothing. -/
def lostItemsOf (entry : Json) : Nat :=
  ((itemEntries entry).filter fun item =>
    (readCheckItem item).all fun item => isUnnamed item.name).length

section Filter

variable {α β : Type} (f : α → Option β) (q : β → Bool) (l : List α)

theorem length_filter_any :
    (l.filter fun a => (f a).any q).length = ((l.filterMap f).filter q).length := by
  induction l with
  | nil => rfl
  | cons a l ih =>
    cases h : f a with
    | none => simp [h, ih]
    | some b => by_cases hb : q b = true <;> simp [h, hb, ih]

theorem length_filter_all :
    (l.filter fun a => (f a).all q).length =
      (l.filter fun a => (f a).isNone).length + ((l.filterMap f).filter q).length := by
  induction l with
  | nil => rfl
  | cons a l ih =>
    cases h : f a with
    | none => simp [h, ih]; omega
    | some b =>
      by_cases hb : q b = true
      · simp [h, hb, ih]; omega
      · simp [h, hb, ih]

theorem length_filterMap_add :
    (l.filterMap f).length + (l.filter fun a => (f a).isNone).length = l.length := by
  induction l with
  | nil => rfl
  | cons a l ih =>
    cases h : f a with
    | none => simp [h]; omega
    | some b => simp [h]; omega

end Filter

/-- A card that is read has all its attachments. -/
theorem readCard_attachments {entry : Json} {card : TrelloCard} (h : readCard entry = some card)
    (rt : Runtime) : card.attachments.length = (attachmentEntries entry).length ∧
      unstorable rt card.attachments = lostAttachmentsOf rt entry := by
  cases entry with
  | obj members =>
    obtain ⟨id, _, h⟩ := Option.bind_eq_some_iff.mp h
    simp only at h
    split at h
    · cases h
    · rename_i husable
      simp only [Bool.or_eq_true, not_or, readAttachments] at husable
      have hcard : card.attachments = (attachmentEntries (.obj members)).filterMap readAttachment := by
        rw [← Option.some.inj h]
        rfl
      have hnone : ((attachmentEntries (.obj members)).filter
          fun a => (readAttachment a).isNone) = [] := by
        refine List.filter_eq_nil_iff.mpr fun a ha hread => husable.1.1.1.1.1.1.1.2 ?_
        exact List.any_eq_true.mpr ⟨a, ha, hread⟩
      have hlen := length_filterMap_add readAttachment (attachmentEntries (.obj members))
      rw [hnone, List.length_nil, Nat.add_zero] at hlen
      exact ⟨by rw [hcard, hlen], by rw [hcard, lostAttachmentsOf, length_filter_any, unstorable]⟩
  | _ => cases h

/-- What a read checklist has of its entry's items. -/
theorem readChecklist_items {entry : Json} {checklist : TrelloChecklist}
    (h : (readChecklist entry).1 = some checklist) :
    checklist.checkItems = (itemEntries entry).filterMap readCheckItem ∧
      unreadableItems entry =
        ((itemEntries entry).filter fun item => (readCheckItem item).isNone).length := by
  cases entry with
  | obj members =>
    cases hid : readId (Json.member (js "id") members) with
    | none => simp [readChecklist, hid] at h
    | some id =>
      simp only [readChecklist, hid] at h
      split at h
      · cases h
      · rw [← Option.some.inj h]
        exact ⟨rfl, by simp only [unreadableItems, hid, itemEntries]⟩
  | _ => cases h

/-! ## Ledgers -/

/-- Entries of the export, each either written, and then with a row of its own, or skipped. -/
structure Ledger {R : Type} (entries : List Json) (wrote : Json → R → Prop) (rows : List R) where
  written : List Json
  skipped : List Json
  perm : (written ++ skipped).Perm entries
  wrote : List.Forall₂ wrote written rows

theorem Ledger.length {R : Type} {entries : List Json} {wrote : Json → R → Prop} {rows : List R}
    (l : Ledger entries wrote rows) : rows.length + l.skipped.length = entries.length := by
  rw [← l.wrote.length_eq, ← List.length_append, l.perm.length_eq]

def WroteColumn (entry : Json) (column : PlannedColumn) : Prop :=
  ∃ list, readList entry = some list ∧ column.name = list.name

/-- A task made from an entry, whose attachments are written under the task or skipped. -/
def WroteTask (rt : Runtime) (plan : TrelloImportPlan) (entry : Json) (task : PlannedTask) : Prop :=
  ∃ card, readCard entry = some card ∧ task.title = card.name ∧
    (plan.attachments.filter fun a => a.taskId = task.id).length + lostAttachmentsOf rt entry =
      (attachmentEntries entry).length

/-- A checklist made from an entry, whose items are written under it or skipped. -/
def WroteChecklist (plan : TrelloImportPlan) (entry : Json) (row : ChecklistRow) : Prop :=
  ∃ checklist, (readChecklist entry).1 = some checklist ∧ row.title = checklist.name ∧
    (plan.checklistItems.filter fun item => item.checklistId = row.id).length + lostItemsOf entry =
      (itemEntries entry).length

/-- A ledger from parts: what was read from entries is split into the parts' and the dropped. -/
theorem exists_ledger {P T R : Type} {entries : List Json} {read : Json → Option T}
    {wrote : Json → R → Prop} {rows : List R} {parts : List P} (of : P → T) (row : P → R)
    {lost : List T} (hrows : rows = parts.map row)
    (hperm : (parts.map of ++ lost).Perm (entries.filterMap read))
    (hwrote : ∀ p ∈ parts, ∀ entry, read entry = some (of p) → wrote entry (row p)) :
    ∃ l : Ledger entries wrote rows,
      l.skipped.length = lost.length + (entries.filter fun e => (read e).isNone).length ∧
      List.Forall₂ (fun e p => read e = some (of p)) l.written parts := by
  subst hrows
  obtain ⟨w, d, hsplit, hw, hd⟩ := exists_split hperm
  have hparts : List.Forall₂ (fun e p => read e = some (of p)) w parts := by
    rwa [List.forall₂_map_right_iff] at hw
  have hrows : List.Forall₂ wrote w (parts.map row) := by
    rw [List.forall₂_map_right_iff]
    have hmem := (List.forall₂_and_left (p := (· ∈ parts)) parts w).mpr ⟨fun _ hp => hp, hparts.flip⟩
    exact (hmem.imp fun p e h => hwrote p h.1 e h.2).flip
  exact ⟨⟨w, _, hsplit, hrows⟩, by simp [hd.length_eq], hparts⟩

variable {rt : Runtime} {uuidv7 : Nat → Id} {actorId : Id}

section Planned

variable {read : TrelloExportReadResult} {plan : TrelloImportPlan} (p : Planned rt actorId read plan)

include p

/-- The attachments under a task are its card's. -/
theorem Planned.attachments_of {part : CardPart rt actorId plan.board.id p.labelIdByTrelloId}
    (hpart : part ∈ p.cards) :
    (plan.attachments.filter fun a => a.taskId = part.task.id) = part.attachments := by
  rw [p.attachments_eq]
  refine filter_flatMap_key (fun q => q.task.id) ?_ (fun q _ a ha => (q.links a ha).taskId) hpart
  have := p.tasks_nodup
  rwa [p.tasks_eq, List.map_map] at this

/-- The items under a checklist are its own. -/
theorem Planned.items_of {part : ChecklistPart} (hpart : part ∈ p.checklists) :
    (plan.checklistItems.filter fun item => item.checklistId = part.row.id) = part.items := by
  rw [p.checklistItems_eq]
  refine filter_flatMap_key (fun q => q.row.id) ?_ (fun q _ item h => (q.items_of item h).1) hpart
  have := p.checklists_nodup
  rwa [p.checklists_eq, List.map_map] at this

theorem Planned.wroteTask {part : CardPart rt actorId plan.board.id p.labelIdByTrelloId}
    (hpart : part ∈ p.cards) {entry : Json} (h : readCard entry = some part.card) :
    WroteTask rt plan entry part.task := by
  obtain ⟨hlen, hlost⟩ := readCard_attachments h rt
  refine ⟨part.card, h, part.title, ?_⟩
  rw [p.attachments_of hpart, ← hlost, ← hlen]
  exact part.attachments_length

theorem Planned.wroteChecklist {part : ChecklistPart} (hpart : part ∈ p.checklists) {entry : Json}
    (h : (readChecklist entry).1 = some part.checklist) : WroteChecklist plan entry part.row := by
  obtain ⟨hitems, _⟩ := readChecklist_items h
  refine ⟨part.checklist, h, part.title, ?_⟩
  have hlen := part.items_length
  have hall := length_filterMap_add readCheckItem (itemEntries entry)
  rw [p.items_of hpart, lostItemsOf, length_filter_all, ← hitems]
  rw [← hitems] at hall
  simp only [unnamedItems] at hlen
  omega

end Planned

/-- The three kinds that become rows, and under them attachments and items. -/
structure Accounted (rt : Runtime) (root : Json) (plan : TrelloImportPlan) where
  lists : Ledger (sectionEntries (rootMember "lists" root)) WroteColumn plan.columns
  cards : Ledger (sectionEntries (rootMember "cards" root)) (WroteTask rt plan) plan.tasks
  checklists : Ledger (sectionEntries (rootMember "checklists" root)) (WroteChecklist plan)
    plan.checklists
  tally_list : tally plan.skipped .list =
    lists.skipped.length + sectionMissing (rootMember "lists" root)
  tally_card : tally plan.skipped .card =
    cards.skipped.length + sectionMissing (rootMember "cards" root)
  tally_attachment : tally plan.skipped .attachment =
    (cards.written.map (lostAttachmentsOf rt)).sum
  tally_checklist : tally plan.skipped .checklist =
    checklists.skipped.length + sectionMissing (rootMember "checklists" root)
  tally_checklistItem : tally plan.skipped .checklistItem =
    (checklists.written.map lostItemsOf).sum + (checklists.skipped.map unreadableItems).sum

section Export

variable {name : JsString} {raw : List (JsString × Json)} {plan : TrelloImportPlan}
  (p : Planned rt actorId (readExport name raw) plan)

include p

theorem Planned.listLedger :
    ∃ l : Ledger (sectionEntries (Json.member (js "lists") raw)) WroteColumn plan.columns,
      tally plan.skipped .list = l.skipped.length + sectionMissing (Json.member (js "lists") raw) := by
  have hlen := p.columns_of.length_eq
  have hperm : ((p.lists.zip plan.columns).map Prod.fst ++
      (readExport name raw).source.lists.filter fun list => !list.live).Perm
        ((sectionEntries (Json.member (js "lists") raw)).filterMap readList) := by
    rw [List.map_fst_zip hlen.le]
    refine (p.lists_perm.append_right _).trans ?_
    exact (List.filter_append_perm _ _).trans (.of_eq (readSection_quietly_rows readList _))
  have hwrote : ∀ e ∈ p.lists.zip plan.columns, ∀ entry, readList entry = some e.1 →
      WroteColumn entry e.2 :=
    fun e he _ hread => ⟨e.1, hread, ((List.forall₂_iff_zip.mp p.columns_of).2 he).name⟩
  obtain ⟨l, hskipped, _⟩ :=
    exists_ledger Prod.fst Prod.snd (List.map_snd_zip hlen.ge).symm hperm hwrote
  refine ⟨l, ?_⟩
  rw [p.tally_list, issueCount_readExport, hskipped]
  simp
  omega

theorem Planned.cardLedger :
    ∃ l : Ledger (sectionEntries (Json.member (js "cards") raw)) (WroteTask rt plan) plan.tasks,
      tally plan.skipped .card = l.skipped.length + sectionMissing (Json.member (js "cards") raw) ∧
      tally plan.skipped .attachment = (l.written.map (lostAttachmentsOf rt)).sum := by
  obtain ⟨l, hskipped, hwritten⟩ := exists_ledger CardPart.card CardPart.task p.tasks_eq
    (p.cards_perm.trans (.of_eq (readSection_quietly_rows readCard _))) fun part hpart entry => p.wroteTask hpart
  refine ⟨l, ?_, ?_⟩
  · rw [p.tally_card, issueCount_readExport, hskipped]
    simp
    omega
  · have hlost : l.written.map (lostAttachmentsOf rt) =
        p.cards.map fun part => unstorable rt part.card.attachments := by
      rw [← List.forall₂_eq_eq_eq, List.forall₂_map_left_iff, List.forall₂_map_right_iff]
      exact hwritten.imp fun entry part h => (readCard_attachments h rt).2.symm
    rw [p.tally_attachment, issueCount_readExport, hlost]
    simp [lostAttachments]

theorem Planned.checklistLedger :
    ∃ l : Ledger (sectionEntries (Json.member (js "checklists") raw)) (WroteChecklist plan)
        plan.checklists,
      tally plan.skipped .checklist =
        l.skipped.length + sectionMissing (Json.member (js "checklists") raw) ∧
      tally plan.skipped .checklistItem =
        (l.written.map lostItemsOf).sum + (l.skipped.map unreadableItems).sum := by
  obtain ⟨l, hskipped, hwritten⟩ := exists_ledger ChecklistPart.checklist ChecklistPart.row
    p.checklists_eq (p.checklists_perm.trans (.of_eq (readSection_rows _)))
    fun part hpart entry => p.wroteChecklist hpart
  refine ⟨l, ?_, ?_⟩
  · rw [p.tally_checklist, issueCount_readExport, hskipped]
    simp
    omega
  · have hlost : (l.written.map lostItemsOf).sum =
        (l.written.map unreadableItems).sum + lostItems p.checklists := by
      have main : ∀ {w : List Json} {parts : List ChecklistPart},
          List.Forall₂ (fun e part => (readChecklist e).1 = some part.checklist) w parts →
          (w.map lostItemsOf).sum = (w.map unreadableItems).sum + lostItems parts := by
        intro w parts hw
        induction hw with
        | nil => rfl
        | @cons e part _ _ h _ ih =>
          obtain ⟨hitems, hunreadable⟩ := readChecklist_items h
          simp only [List.map_cons, List.sum_cons, ih, lostItems, lostItemsOf, length_filter_all,
            hunreadable, ← hitems, unnamedItems]
          omega
      exact main hwritten
    have hall : ((sectionEntries (Json.member (js "checklists") raw)).map unreadableItems).sum =
        (l.written.map unreadableItems).sum + (l.skipped.map unreadableItems).sum := by
      rw [← (l.perm.map unreadableItems).sum_nat, List.map_append, List.sum_append]
    rw [p.tally_checklistItem, issueCount_readExport, hlost]
    simp
    omega

theorem Planned.tally_members : tally plan.skipped .member =
    (sectionEntries (Json.member (js "members") raw)).length +
      sectionMissing (Json.member (js "members") raw) := by
  rw [p.tally_member, issueCount_readExport]
  cases hm : Json.member (js "members") raw with
  | none => simp [readExport, hm, countMembers, sectionEntries, sectionMissing]
  | some value => cases value <;> simp [readExport, hm, countMembers, sectionEntries, sectionMissing]

theorem Planned.tally_comments : tally plan.skipped .comment =
    ((sectionEntries (Json.member (js "actions") raw)).filter isComment).length +
      sectionMissing (Json.member (js "actions") raw) := by
  rw [p.tally_comment, issueCount_readExport]
  cases hm : Json.member (js "actions") raw with
  | none => simp [readExport, hm, countActions, sectionEntries, sectionMissing]
  | some value => cases value <;> simp [readExport, hm, countActions, sectionEntries, sectionMissing]

end Export

variable (rt actorId) in
/-- Every list, card and checklist of an accepted export is written once or skipped once, and so
are the attachments of a written card and the items of a written checklist. -/
theorem import_accounted (hinj : Function.Injective uuidv7) {root : Json}
    {read : TrelloExportReadResult} (h : parseTrelloExport (some root) = .ok read) :
    let plan := planTrelloImport rt uuidv7 actorId read
    let size := fun name => (sectionEntries (rootMember name root)).length +
      sectionMissing (rootMember name root)
    plan.columns.length + tally plan.skipped .list = size "lists" ∧
    plan.tasks.length + tally plan.skipped .card = size "cards" ∧
    plan.checklists.length + tally plan.skipped .checklist = size "checklists" ∧
    tally plan.skipped .member = size "members" ∧
    tally plan.skipped .comment =
      ((sectionEntries (rootMember "actions" root)).filter isComment).length +
        sectionMissing (rootMember "actions" root) ∧
    Nonempty (Accounted rt root plan) := by
  obtain ⟨raw, name, entries, hroot, rfl, hentries⟩ := parseTrelloExport_ok h
  obtain rfl := Option.some.inj hroot
  intro plan size
  obtain ⟨p⟩ : Nonempty (Planned rt actorId (readExport name raw) plan) := planned hinj _
  obtain ⟨lists, hlists⟩ := p.listLedger
  obtain ⟨cards, hcards, hattachments⟩ := p.cardLedger
  obtain ⟨checklists, hchecklists, hitems⟩ := p.checklistLedger
  have hlistSize := lists.length
  have hcardSize := cards.length
  have hchecklistSize := checklists.length
  refine ⟨?_, ?_, ?_, p.tally_members, p.tally_comments,
    ⟨⟨lists, cards, checklists, hlists, hcards, hattachments, hchecklists, hitems⟩⟩⟩
  · rw [hlists]
    simp only [size, rootMember]
    omega
  · rw [hcards]
    simp only [size, rootMember]
    omega
  · rw [hchecklists]
    simp only [size, rootMember]
    omega

/-! ## Runs -/

/-- Identifiers that differ in length. -/
def countedIds (n : Nat) : Id := List.replicate (n + 1) 120

theorem countedIds_injective : Function.Injective countedIds := by
  intro a b h
  have := congrArg List.length h
  simpa [countedIds] using this

/-- One list and two cards under one id, one of them with an attachment that is no URL, a card that
is no record, and a checklist with an unnamed and an unreadable item. -/
def duplicatedExport : List (JsString × Json) :=
  [(js "name", .str (js "b")),
    (js "lists", .arr [.obj [(js "id", .str (js "l")), (js "name", .str (js "L"))]]),
    (js "cards", .arr [
      .obj [(js "id", .str (js "c")), (js "name", .str (js "C")), (js "idList", .str (js "l")),
        (js "attachments", .arr [.obj [(js "url", .str (js "?"))]])],
      .obj [(js "id", .str (js "c")), (js "name", .str (js "D")), (js "idList", .str (js "l"))],
      .null]),
    (js "checklists", .arr [.obj [(js "id", .str (js "k")), (js "name", .str (js "K")),
      (js "idCard", .str (js "c")), (js "checkItems", .arr [
        .obj [(js "id", .str (js "i")), (js "name", .str (js "I"))],
        .obj [(js "id", .str (js "j"))], .null])]]),
    (js "members", .arr [.null]), (js "actions", .arr [])]

theorem import_accounted_duplicated :
    let plan := planTrelloImport .bare countedIds [] (readExport (js "b") duplicatedExport)
    plan.tasks.length + tally plan.skipped .card = 3 ∧ tally plan.skipped .member = 1 ∧
      Nonempty (Accounted .bare (.obj duplicatedExport) plan) := by
  have hread : parseTrelloExport (some (.obj duplicatedExport)) =
      .ok (readExport (js "b") duplicatedExport) := by rfl
  obtain ⟨_, hcards, _, hmembers, _, h⟩ := import_accounted .bare [] countedIds_injective hread
  exact ⟨hcards, hmembers, h⟩

/-- A board with lists and nothing else: what is not there is counted all the same. -/
theorem absent_sections_counted :
    let raw := [(js "name", .str (js "b")), (js "lists", .arr [])]
    let plan := planTrelloImport .bare countedIds [] (readExport (js "b") raw)
    parseTrelloExport (some (.obj raw)) = .ok (readExport (js "b") raw) ∧
      (∀ name ∈ ["cards", "checklists", "members", "actions"], rootMember name (.obj raw) = none) ∧
      plan.tasks.length + tally plan.skipped .card ≠
        (sectionEntries (rootMember "cards" (.obj raw))).length ∧
      plan.checklists.length + tally plan.skipped .checklist ≠
        (sectionEntries (rootMember "checklists" (.obj raw))).length ∧
      tally plan.skipped .member ≠ (sectionEntries (rootMember "members" (.obj raw))).length ∧
      tally plan.skipped .comment ≠
        ((sectionEntries (rootMember "actions" (.obj raw))).filter isComment).length := by
  refine ⟨rfl, ?_, ?_, ?_, ?_, ?_⟩
  · simp only [List.forall_mem_cons]
    exact ⟨rfl, rfl, rfl, rfl, by simp⟩
  all_goals decide +kernel

end Kurul
