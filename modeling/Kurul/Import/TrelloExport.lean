import Kurul.Db.Prisma
import Kurul.Import.SkipCollector

/-!
# Kurul.Import.TrelloExport

The reader: a parsed Trello export narrowed to the fields the importer uses, and an issue for
everything it could not read. A read entry keeps all its parts or is not read; only a checklist
drops items one by one.

* `readEntries_rows`   — the rows of a section are its readable entries, in order.
* `readEntries_issues` — each unreadable entry leaves one issue of the section's scope.
-/

namespace Kurul

open Json (member)

/-! ## What is read -/

structure TrelloList where
  id : JsString
  name : JsString
  pos : Option ℚ
  closed : Bool

structure TrelloAttachment where
  id : JsString
  name : JsString
  url : JsString

structure TrelloCard where
  id : JsString
  name : JsString
  desc : Option JsString
  idList : Option JsString
  pos : Option ℚ
  closed : Bool
  due : Option JsString
  idLabels : List JsString
  idMembers : List JsString
  attachments : List TrelloAttachment

structure TrelloLabel where
  id : JsString
  name : JsString
  color : Option JsString

structure TrelloCheckItem where
  id : JsString
  name : JsString
  state : Option JsString
  pos : Option ℚ

structure TrelloChecklist where
  id : JsString
  idCard : Option JsString
  name : JsString
  pos : Option ℚ
  checkItems : List TrelloCheckItem

structure TrelloExport where
  name : JsString
  desc : Option JsString
  lists : List TrelloList
  cards : List TrelloCard
  labels : List TrelloLabel
  checklists : List TrelloChecklist
  commentCount : Nat
  memberCount : Nat

structure TrelloReadIssue where
  scope : TrelloImportScope
  reason : TrelloImportSkipReason
  sample : Option JsString

structure TrelloExportReadResult where
  source : TrelloExport
  issues : List TrelloReadIssue

/-! ## Fields -/

/-- A field as it was read, and whether its value had a type the reader cannot use. -/
structure FieldRead (α : Type) where
  value : α
  unusable : Bool

namespace EntryFields

def string (fallback : JsString) : Option Json → FieldRead JsString
  | some (.str s) => ⟨s, false⟩
  | none | some .null => ⟨fallback, false⟩
  | some _ => ⟨fallback, true⟩

def nullableString : Option Json → FieldRead (Option JsString)
  | some (.str s) => ⟨some s, false⟩
  | none | some .null => ⟨none, false⟩
  | some _ => ⟨none, true⟩

def boolean : Option Json → FieldRead Bool
  | some (.bool b) => ⟨b, false⟩
  | none | some .null => ⟨false, false⟩
  | some _ => ⟨false, true⟩

def array : Option Json → FieldRead (List Json)
  | some (.arr entries) => ⟨entries, false⟩
  | none | some .null => ⟨[], false⟩
  | some _ => ⟨[], true⟩

def stringArray (value : Option Json) : FieldRead (List JsString) :=
  let entries := array value
  let strings := entries.value.filterMap fun
    | .str s => some s
    | _ => none
  ⟨strings, entries.unusable || strings.length != entries.value.length⟩

end EntryFields

/-- A sort key; an infinity is not one. -/
def readPos : Option Json → Option ℚ
  | some (.num (.finite q)) => some q
  | _ => none

def readId : Option Json → Option JsString
  | some (.str s) => if s = [] then none else some s
  | _ => none

/-! ## Entries -/

def readList : Json → Option TrelloList
  | .obj entry => do
    let id ← readId (member (js "id") entry)
    let name := EntryFields.string [] (member (js "name") entry)
    let closed := EntryFields.boolean (member (js "closed") entry)
    if name.unusable || closed.unusable then none
    else some { id, name := name.value, pos := readPos (member (js "pos") entry), closed := closed.value }
  | _ => none

/-- What identifies an attachment is its URL. -/
def readAttachment : Json → Option TrelloAttachment
  | .obj entry => do
    let url ← readId (member (js "url") entry)
    let id := EntryFields.string [] (member (js "id") entry)
    let name := EntryFields.string url (member (js "name") entry)
    if id.unusable || name.unusable then none
    else some { id := id.value, name := name.value, url }
  | _ => none

/-- The attachments of a card; one that cannot be read makes the card unusable. -/
def readAttachments (value : Option Json) : FieldRead (List TrelloAttachment) :=
  let entries := EntryFields.array value
  ⟨entries.value.filterMap readAttachment,
    entries.unusable || entries.value.any fun entry => (readAttachment entry).isNone⟩

def readCard : Json → Option TrelloCard
  | .obj entry => do
    let id ← readId (member (js "id") entry)
    let attachments := readAttachments (member (js "attachments") entry)
    let name := EntryFields.string [] (member (js "name") entry)
    let desc := EntryFields.nullableString (member (js "desc") entry)
    let idList := EntryFields.nullableString (member (js "idList") entry)
    let closed := EntryFields.boolean (member (js "closed") entry)
    let due := EntryFields.nullableString (member (js "due") entry)
    let idLabels := EntryFields.stringArray (member (js "idLabels") entry)
    let idMembers := EntryFields.stringArray (member (js "idMembers") entry)
    if attachments.unusable || name.unusable || desc.unusable || idList.unusable ||
        closed.unusable || due.unusable || idLabels.unusable || idMembers.unusable then none
    else some {
      id
      name := name.value
      desc := desc.value
      idList := idList.value
      pos := readPos (member (js "pos") entry)
      closed := closed.value
      due := due.value
      idLabels := idLabels.value
      idMembers := idMembers.value
      attachments := attachments.value }
  | _ => none

def readLabel : Json → Option TrelloLabel
  | .obj entry => do
    let id ← readId (member (js "id") entry)
    let name := EntryFields.string [] (member (js "name") entry)
    let color := EntryFields.nullableString (member (js "color") entry)
    if name.unusable || color.unusable then none
    else some { id, name := name.value, color := color.value }
  | _ => none

def readCheckItem : Json → Option TrelloCheckItem
  | .obj entry => do
    let id ← readId (member (js "id") entry)
    let name := EntryFields.string [] (member (js "name") entry)
    let state := EntryFields.nullableString (member (js "state") entry)
    if name.unusable || state.unusable then none
    else some { id, name := name.value, state := state.value, pos := readPos (member (js "pos") entry) }
  | _ => none

def unreadableItem : TrelloReadIssue := ⟨.checklistItem, .malformed, none⟩

/-- The items of a checklist as the reader finds them in an entry. -/
def checkItemEntries (entry : List (JsString × Json)) : FieldRead (List Json) :=
  EntryFields.array (member (js "checkItems") entry)

/-- Items that cannot be read are reported as items, also where the checklist itself turns out
unusable. -/
def readChecklist : Json → Option TrelloChecklist × List TrelloReadIssue
  | .obj entry =>
    match readId (member (js "id") entry) with
    | none => (none, [])
    | some id =>
      let raw := checkItemEntries entry
      let issues := (raw.value.filter fun item => (readCheckItem item).isNone).map
        fun _ => unreadableItem
      let idCard := EntryFields.nullableString (member (js "idCard") entry)
      let name := EntryFields.string [] (member (js "name") entry)
      if raw.unusable || idCard.unusable || name.unusable then (none, issues)
      else (some {
        id
        idCard := idCard.value
        name := name.value
        pos := readPos (member (js "pos") entry)
        checkItems := raw.value.filterMap readCheckItem }, issues)
  | _ => (none, [])

/-! ## Sections -/

/-- `isRecord(entry) && typeof entry.name === 'string' ? entry.name : null`. -/
def entryName : Json → Option JsString
  | .obj entry =>
    match member (js "name") entry with
    | some (.str s) => some s
    | _ => none
  | _ => none

/-- An entry reader that pushes no issues of its own. -/
def quietly {T : Type} (read : Json → Option T) (entry : Json) : Option T × List TrelloReadIssue :=
  (read entry, [])

section Section

variable {T : Type} (scope : TrelloImportScope) (read : Json → Option T × List TrelloReadIssue)

def readEntries : List Json → List T × List TrelloReadIssue
  | [] => ([], [])
  | entry :: rest =>
    let (rows, issues) := readEntries rest
    match read entry with
    | (none, own) => (rows, own ++ ⟨scope, .malformed, entryName entry⟩ :: issues)
    | (some row, own) => (row :: rows, own ++ issues)

def readSection : Option Json → List T × List TrelloReadIssue
  | some (.arr entries) => readEntries scope read entries
  | _ => ([], [⟨scope, .malformed, none⟩])

end Section

/-- `entry.type === 'commentCard'` on a record. -/
def isComment : Json → Bool
  | .obj entry =>
    match member (js "type") entry with
    | some (.str s) => s = js "commentCard"
    | _ => false
  | _ => false

def countActions : Option Json → Nat × List TrelloReadIssue
  | some (.arr entries) => ((entries.filter isComment).length, [])
  | _ => (0, [⟨.comment, .malformed, none⟩])

def countMembers : Option Json → Nat × List TrelloReadIssue
  | some (.arr entries) => (entries.length, [])
  | _ => (0, [⟨.member, .malformed, none⟩])

/-- The export behind a recognised root. -/
def readExport (name : JsString) (raw : List (JsString × Json)) : TrelloExportReadResult :=
  let (lists, listIssues) := readSection .list (quietly readList) (member (js "lists") raw)
  let (cards, cardIssues) := readSection .card (quietly readCard) (member (js "cards") raw)
  let (labels, labelIssues) := readSection .label (quietly readLabel) (member (js "labels") raw)
  let (checklists, checklistIssues) :=
    readSection .checklist readChecklist (member (js "checklists") raw)
  let (commentCount, commentIssues) := countActions (member (js "actions") raw)
  let (memberCount, memberIssues) := countMembers (member (js "members") raw)
  { source := {
      name
      desc := match member (js "desc") raw with
        | some (.str s) => some s
        | _ => none
      lists, cards, labels, checklists, commentCount, memberCount }
    issues := listIssues ++ cardIssues ++ labelIssues ++ checklistIssues ++ commentIssues ++
      memberIssues }

/-- `parsed` is what `JSON.parse` makes of the bytes, nothing where it throws. -/
def parseTrelloExport (parsed : Option Json) : Except ApiError TrelloExportReadResult :=
  match parsed with
  | none => .error (.badRequest (js "This file is not valid JSON — export the board again"))
  | some (.obj raw) =>
    match member (js "name") raw, member (js "lists") raw with
    | some (.str name), some (.arr _) => .ok (readExport name raw)
    | _, _ => .error (.badRequest (js "This does not look like a Trello board export"))
  | some _ => .error (.badRequest (js "This does not look like a Trello board export"))

/-! ## What the reader accounts for -/

/-- How many issues are about one scope. -/
def issueCount (issues : List TrelloReadIssue) (scope : TrelloImportScope) : Nat :=
  issues.countP fun issue => issue.scope = scope

@[simp] theorem issueCount_nil (scope : TrelloImportScope) : issueCount [] scope = 0 := rfl

@[simp] theorem issueCount_cons (issue : TrelloReadIssue) (issues : List TrelloReadIssue)
    (scope : TrelloImportScope) :
    issueCount (issue :: issues) scope =
      issueCount issues scope + if scope = issue.scope then 1 else 0 := by
  simp [issueCount, List.countP_cons, eq_comm]

@[simp] theorem issueCount_append (issues issues' : List TrelloReadIssue)
    (scope : TrelloImportScope) :
    issueCount (issues ++ issues') scope = issueCount issues scope + issueCount issues' scope :=
  List.countP_append

section Entries

variable {T : Type} {scope : TrelloImportScope} {read : Json → Option T × List TrelloReadIssue}

theorem readEntries_rows (entries : List Json) :
    (readEntries scope read entries).1 = entries.filterMap fun entry => (read entry).1 := by
  induction entries with
  | nil => rfl
  | cons entry rest ih =>
    rcases h : read entry with ⟨row, own⟩
    cases row with
    | none => simp only [readEntries, h, ih, List.filterMap_cons]
    | some row => simp only [readEntries, h, ih, List.filterMap_cons]

theorem readEntries_issues (entries : List Json) (s : TrelloImportScope) :
    issueCount (readEntries scope read entries).2 s =
      (entries.map fun entry => issueCount (read entry).2 s).sum +
        if s = scope then (entries.filter fun entry => (read entry).1.isNone).length else 0 := by
  induction entries with
  | nil => simp [readEntries]
  | cons entry rest ih =>
    rcases h : read entry with ⟨row, own⟩
    cases row with
    | none =>
      simp only [readEntries, h, issueCount_append, issueCount_cons, ih, List.map_cons,
        List.sum_cons, List.filter_cons, Option.isNone_none, if_true, List.length_cons]
      split <;> omega
    | some row =>
      simp only [readEntries, h, issueCount_append, ih, List.map_cons, List.sum_cons,
        List.filter_cons, Option.isNone_some, Bool.false_eq_true, if_false]
      omega

end Entries
end Kurul
