import Kurul.Lts
import Kurul.Sql.Ends
import Kurul.Task.Checklists

/-!
# Kurul.Task.ChecklistGaps

Creates, removals and moves of checklists or of items, one call after another, and how close their
positions come. A move never respreads a list, so each one into a gap halves it.

* `Edit`       — what a call does to the rows of a list.
* `Edit.wide`  — a row put into a gap that needs no rebalance leaves half of it on either side.
* `checklist_gaps` — in a run whose moves all find such gaps, neighbours stay apart.
-/

namespace Kurul

open Sql TaskReadService

/-! ## Lists by position -/

section Lists

variable {R : Type} [Model R] [Placed R] {db db' : Db} {listId m : Id} {afterId : Option Id}
  {slot : InsertionSlot Sibling}

@[simp] theorem mem_byPosition {r : R} :
    r ∈ byPosition R db listId ↔ r ∈ rows R db ∧ Placed.list r = listId := by
  simp [byPosition]

theorem mem_siblingsByPosition {s : Sibling} : s ∈ siblingsByPosition R db listId ↔
    ∃ r ∈ rows R db, Placed.list r = listId ∧ toSibling r = s := by
  simp [siblingsByPosition, and_assoc]

theorem byPosition_le (R : Type) [Model R] [Placed R] (db : Db) (listId : Id) :
    (byPosition R db listId).Pairwise fun a b => Placed.position a ≤ Placed.position b :=
  sortBy_le _ _

theorem siblingsByPosition_le (R : Type) [Model R] [Placed R] (db : Db) (listId : Id) :
    (siblingsByPosition R db listId).Pairwise fun a b => a.position ≤ b.position :=
  List.pairwise_map.mpr (byPosition_le R db listId)

theorem nodup_byPosition_ids (R : Type) [Model R] [Placed R] (db : Db) (listId : Id) :
    ((byPosition R db listId).map Model.id).Nodup :=
  ((sortBy_perm _ _).map Model.id).nodup_iff.mpr
    ((nodup_ids R db).sublist ((List.filter_sublist).map Model.id))

/-- Everything in the list stands before the position behind it. -/
theorem position_lt_end {r : R} (hr : r ∈ rows R db) (hl : Placed.list r = listId) :
    Placed.position r + positionGap ≤ endPosition R db listId := by
  have hmem : r ∈ byPosition R db listId := mem_byPosition.mpr ⟨hr, hl⟩
  obtain ⟨last, hlast⟩ : ∃ last, (byPosition R db listId).getLast? = some last :=
    Option.isSome_iff_exists.mp (by rw [List.getLast?_isSome]; exact List.ne_nil_of_mem hmem)
  obtain ⟨front, hfront⟩ := List.getLast?_eq_some_iff.mp hlast
  have hle : Placed.position r ≤ Placed.position last := by
    have hsorted := byPosition_le R db listId
    rw [hfront] at hsorted hmem
    rcases List.mem_append.mp hmem with hmem | hmem
    · exact (List.pairwise_append.mp hsorted).2.2 r hmem last (List.mem_singleton_self last)
    · rw [List.mem_singleton.mp hmem]
  simp only [endPosition, hlast, Option.map_some, Option.getD_some]
  linarith

/-! ## Positions that are apart -/

/-- Neighbours in the list are at least `minGap / 2` apart. -/
def Gaps (R : Type) [Model R] [Placed R] (db : Db) (listId : Id) : Prop :=
  (byPosition R db listId).IsChain fun a b => minGap / 2 ≤ Placed.position b - Placed.position a

/-- Any two rows of the list are. -/
def Wide (R : Type) [Model R] [Placed R] (db : Db) (listId : Id) : Prop :=
  ∀ r ∈ rows R db, ∀ s ∈ rows R db, Placed.list r = listId → Placed.list s = listId →
    Model.id r ≠ Model.id s → minGap / 2 ≤ |Placed.position r - Placed.position s|

theorem Wide.gaps (h : Wide R db listId) : Gaps R db listId := by
  have hids : (byPosition R db listId).Pairwise fun a b => Model.id a ≠ Model.id b :=
    List.pairwise_map.mp (nodup_byPosition_ids R db listId)
  refine (((byPosition_le R db listId).and hids).imp_of_mem fun {a b} ha hb hab => ?_).isChain
  obtain ⟨hra, hla⟩ := mem_byPosition.mp ha
  obtain ⟨hrb, hlb⟩ := mem_byPosition.mp hb
  have hgap := h a hra b hrb hla hlb hab.2
  rwa [abs_sub_comm, abs_of_nonneg (by linarith [hab.1])] at hgap

/-- The gap a move finds is one to put a row into. -/
def Roomy (slot : InsertionSlot Sibling) : Prop :=
  needsRebalance (slot.prev.map Sibling.position) (slot.next.map Sibling.position) = false

theorem slotPosition_wide {siblings : List Sibling}
    (hsorted : siblings.Pairwise fun a b => a.position ≤ b.position)
    (hslot : moveSlot siblings m afterId = some slot) (hroom : Roomy slot) :
    ∀ row ∈ siblings, row.id ≠ m → minGap / 2 ≤ |slotPosition slot - row.position| := by
  obtain ⟨k, hk, rfl, _⟩ := moveSlot_eq hslot
  obtain ⟨hbefore, hafter⟩ := midpoint_between (hsorted.filter _) hk rfl rfl hroom
  intro row hrow hne
  have hmem : row ∈ siblings.filter fun row => row.id ≠ m := List.mem_filter.mpr ⟨hrow, by simpa⟩
  rw [← List.take_append_drop k (siblings.filter _)] at hmem
  rcases List.mem_append.mp hmem with hmem | hmem
  · have hle : row.position + minGap / 2 ≤ slotPosition _ := hbefore row hmem
    exact le_trans (by linarith) (le_abs_self _)
  · have hle : slotPosition _ + minGap / 2 ≤ row.position := hafter row hmem
    rw [abs_sub_comm]
    exact le_trans (by linarith) (le_abs_self _)

/-! ## What a call does -/

/-- What a call leaves of the rows: fewer, one more at the end of its list, or one moved. -/
inductive Edit (R : Type) [Model R] [Placed R] (target : Option (Id × Option Id)) (db db' : Db) : Prop
  | less (hrows : ∀ r ∈ rows R db', r ∈ rows R db)
  | appended (r : R) (hpos : Placed.position r = endPosition R db (Placed.list r))
      (hrows : ∀ s ∈ rows R db', s = r ∨ s ∈ rows R db)
  | moved (r : R) (m : Id) (afterId : Option Id) (slot : InsertionSlot Sibling)
      (htarget : target = some (m, afterId)) (hr : r ∈ rows R db) (hid : Model.id r = m)
      (hslot : moveSlot (siblingsByPosition R db (Placed.list r)) m afterId = some slot)
      (hrows : ∀ s ∈ rows R db', s = (Placed.setPosition (slotPosition slot)).apply r ∨
        (s ∈ rows R db ∧ Model.id s ≠ m))

/-- If a row of this list is to be moved, it finds room. -/
def FindsRoom (R : Type) [Model R] [Placed R] (db : Db) (listId : Id)
    (target : Option (Id × Option Id)) : Prop :=
  ∀ m afterId slot, target = some (m, afterId) → (∃ r ∈ byPosition R db listId, Model.id r = m) →
    moveSlot (siblingsByPosition R db listId) m afterId = some slot → Roomy slot

/-- What two rows of a list have in common is kept by a row that is added or changed and has it with
the others. -/
theorem pairs_with {P : R → R → Prop} {x : R} {old : R → Prop} (hsymm : ∀ r s, P r s → P s r)
    (h : ∀ r ∈ rows R db, ∀ s ∈ rows R db, Placed.list r = listId → Placed.list s = listId →
      Model.id r ≠ Model.id s → P r s)
    (hold : ∀ r, old r → r ∈ rows R db)
    (hx : Placed.list x = listId → ∀ r, old r → Placed.list r = listId → P x r)
    (hrows : ∀ s ∈ rows R db', s = x ∨ old s) :
    ∀ r ∈ rows R db', ∀ s ∈ rows R db', Placed.list r = listId → Placed.list s = listId →
      Model.id r ≠ Model.id s → P r s := by
  intro r hr s hs hlr hls hne
  rcases hrows r hr with rfl | hr <;> rcases hrows s hs with hsx | hs
  · exact absurd (by rw [hsx]) hne
  · exact hx hlr s hs hls
  · subst hsx
    exact hsymm _ _ (hx hls r hr hlr)
  · exact h r (hold r hr) s (hold s hs) hlr hls hne

/-- A row that is added to a list or changed in it stands apart from the others. -/
theorem Wide.with {x : R} {old : R → Prop} (h : Wide R db listId) (hold : ∀ r, old r → r ∈ rows R db)
    (hx : Placed.list x = listId → ∀ r, old r → Placed.list r = listId →
      minGap / 2 ≤ |Placed.position x - Placed.position r|)
    (hrows : ∀ s ∈ rows R db', s = x ∨ old s) : Wide R db' listId :=
  pairs_with (fun _ _ hrs => by rwa [abs_sub_comm]) h hold hx hrows

theorem Edit.wide {target : Option (Id × Option Id)} (h : Edit R target db db')
    (hroom : FindsRoom R db listId target) (hwide : Wide R db listId) : Wide R db' listId := by
  cases h with
  | less hrows =>
    exact fun r hr s hs => hwide r (hrows r hr) s (hrows s hs)
  | appended x hpos hrows =>
    refine hwide.with (fun r hr => hr) (fun hl r hr hlr => ?_) hrows
    have hle := position_lt_end hr hlr
    have hgap := minGap_le_positionGap
    rw [hpos, hl]
    exact le_trans (by linarith) (le_abs_self _)
  | moved x m afterId slot htarget hx hid hslot hrows =>
    refine hwide.with (fun r hr => hr.1) (fun hl r hr hlr => ?_) hrows
    rw [Placed.list_set] at hl
    rw [hl] at hslot
    have hfound := hroom m afterId slot htarget ⟨x, mem_byPosition.mpr ⟨hx, hl⟩, hid⟩ hslot
    rw [Placed.position_set]
    exact slotPosition_wide (siblingsByPosition_le R db listId) hslot hfound (toSibling r)
      (mem_siblingsByPosition.mpr ⟨r, hr.1, hlr, rfl⟩) hr.2

end Lists

/-! ## Statement by statement -/

section Calls

variable {R : Type} [Model R] [Placed R] {env : Env kurul} {w : World kurul}
  {workspaceId taskId actorId checklistId itemId m : Id} {afterId : Option Id}

/-- The call leaves what an edit leaves, however it ends. -/
def Edits (R : Type) [Model R] [Placed R] (target : Option (Id × Option Id)) {α : Type}
    (call : Call kurul α) : Prop :=
  ∀ env w, call.Ends env w (fun _ w' => Edit R target w.db w'.db) fun _ w' => Edit R target w.db w'.db

theorem Edits.run {α : Type} {target : Option (Id × Option Id)} {call : Call kurul α}
    (h : Edits R target call) (env : Env kurul) (w : World kurul) :
    Edit R target w.db (call.run env w).2.db := by
  have hends := h env w
  unfold Call.Ends at hends
  split at hends <;> rename_i heq <;> rw [heq] <;> exact hends

theorem Edit.same {target : Option (Id × Option Id)} {db db' : Db} (h : db' = db) :
    Edit R target db db' :=
  .less fun r hr => by rwa [h] at hr

/-- After the write a task is read and announced. -/
theorem emitUpdated_ends {P : Db → Prop} (h : P w.db) :
    (TaskEventsService.emitUpdated workspaceId taskId actorId).Ends env w (fun _ w' => P w'.db)
      fun _ w' => P w'.db := by
  rw [TaskEventsService.emitUpdated, Call.ends_bind]
  refine Call.ends_readOnly (readOnly_findTask workspaceId taskId) (fun found w₁ _ hdb => ?_)
    fun e w₁ hdb => by rwa [hdb]
  rw [Call.ends_bind, Call.ends_publish]
  show P w₁.db
  rwa [hdb]

/-- An inserted row at the end of its list. -/
theorem Edit.inserted {target : Option (Id × Option Id)} {db db' : Db} {x : R}
    (hpos : Placed.position x = endPosition R db (Placed.list x))
    (hdb : db' = db.put (Model.row x)) : Edit R target db db' := by
  refine .appended x hpos fun s hs => ?_
  rw [hdb, mem_rows_put] at hs
  exact hs.imp id And.left

omit [Placed R] in
/-- A deletion of rows below a task takes rows away. -/
theorem mem_rows_deleted {db : Db} {l : List R} {ws : List (Write Key Row)}
    (hbelow : (Model.table R).belowTask = true) (hR : Model.table R ≠ .notification)
    (hws : db.deletion references (l.map fun r => (⟨Model.table R, Model.id r⟩ : Key)) = some ws) {r : R}
    (hr : r ∈ rows R (db.applyAll ws)) : r ∈ rows R db := by
  refine (mem_rows_applyAll hr).resolve_left fun hput => ?_
  rcases mem_deletion_closed belowTask_closed hbelow hws hput with ⟨k, _, hdel⟩ | ⟨v, hv, heq⟩
  · cases hdel
  · rw [← Write.put.inj heq, Model.key_row] at hv
    rcases hv with hv | hv
    · rw [show Model.table R = .activity from hv] at hbelow
      cases hbelow
    · exact hR hv

theorem writeSlot_ends {siblings : List Sibling} {notFound : JsString} {P : Db → Prop}
    (hsame : P w.db)
    (hmoved : ∀ slot r, moveSlot siblings m afterId = some slot → r ∈ rows R w.db → Model.id r = m →
      P (w.db.put (Model.row ((Placed.setPosition (slotPosition slot)).apply r)))) :
    (writeSlot R siblings m afterId notFound).Ends env w (fun _ w' => P w'.db) fun _ w' => P w'.db := by
  rw [writeSlot, Call.ends_bind]
  refine Call.ends_readOnly (readOnly_orThrow _ _) (fun slot w₁ hrun hdb => ?_) fun e w₁ hdb => by
    rwa [hdb]
  obtain ⟨hslot, rfl⟩ := run_orThrow_ok hrun
  rw [Call.ends_bind]
  refine ends_update (fun r w₂ hfind hdb₂ => ?_) fun e w₂ hdb₂ => by rwa [hdb₂]
  show P w₂.db
  rw [hdb₂]
  exact hmoved slot r hslot (List.mem_of_find?_eq_some hfind) (by simpa using List.find?_some hfind)

/-- The row of a move, at its new position. -/
theorem Edit.put_moved {db : Db} {r : R} {slot : InsertionSlot Sibling} (hr : r ∈ rows R db)
    (hid : Model.id r = m)
    (hslot : moveSlot (siblingsByPosition R db (Placed.list r)) m afterId = some slot) :
    Edit R (some (m, afterId)) db
      (db.put (Model.row ((Placed.setPosition (slotPosition slot)).apply r))) := by
  refine .moved r m afterId slot rfl hr hid hslot fun s hs => ?_
  rw [mem_rows_put, (Placed.setPosition _).id_apply, hid] at hs
  exact hs

theorem checklist_create_edits (dto : CreateChecklistDto) :
    Edits ChecklistRow none (ChecklistService.create workspaceId taskId actorId dto) := by
  intro env w
  rw [ChecklistService.create, Call.ends_bind]
  refine Call.ends_readOnly (readOnly_findTaskBasic workspaceId taskId) (fun task w₁ _ hdb => ?_)
    fun e w₁ hdb => .same hdb
  rw [Call.ends_bind, ← hdb]
  refine Call.ends_transaction (fun u w₂ w₃ hbody hdb₃ => ?_) fun e w₂ hdb₂ => .same hdb₂
  have hedit : Edit ChecklistRow none w₁.db w₃.db := by
    rw [ChecklistService.createBody] at hbody
    obtain ⟨_, w₄, hlock, hbody⟩ := Tx.run_bind_ok hbody
    obtain rfl := run_lockRow_ok hlock
    obtain ⟨position, w₅, hread, hbody⟩ := Tx.run_bind_ok hbody
    obtain ⟨rfl, rfl⟩ := run_query_ok hread
    obtain ⟨id, w₆, hfresh, hbody⟩ := Tx.run_bind_ok hbody
    have hdb₆ := run_fresh_ok hfresh
    obtain ⟨created, w₇, hcreate, hret⟩ := Tx.run_bind_ok hbody
    obtain ⟨_, rfl, rfl⟩ := run_create_ok hcreate
    obtain ⟨_, rfl⟩ := Prod.mk.inj hret
    exact .inserted rfl (by rw [hdb₃, hdb₆])
  exact emitUpdated_ends hedit

theorem checklist_remove_edits (checklistId : Id) :
    Edits ChecklistRow none (ChecklistService.remove workspaceId taskId actorId checklistId) := by
  intro env w
  rw [ChecklistService.remove, Call.ends_bind]
  refine Call.ends_readOnly (readOnly_findTaskBasic workspaceId taskId) (fun task w₁ _ hdb => ?_)
    fun e w₁ hdb => .same hdb
  rw [Call.ends_bind, ← hdb]
  refine ends_deleteMany (fun n ws w₂ hws hdb₂ => ?_) fun e w₂ hdb₂ => .same hdb₂
  have hedit : Edit ChecklistRow none w₁.db w₂.db :=
    .less fun r hr => mem_rows_deleted rfl (by decide) hws (hdb₂ ▸ hr)
  rw [Call.ends_bind]
  refine Call.ends_readOnly (readOnly_throwIf _ _) (fun u w₃ _ hdb₃ => ?_) fun e w₃ hdb₃ => by
    rwa [hdb₃]
  rw [← hdb₃] at hedit
  exact emitUpdated_ends hedit

theorem checklist_move_edits (checklistId : Id) (dto : MoveChecklistDto) :
    Edits ChecklistRow (some (checklistId, dto.afterId))
      (ChecklistService.move workspaceId taskId actorId checklistId dto) := by
  intro env w
  rw [ChecklistService.move, Call.ends_bind]
  refine Call.ends_readOnly (readOnly_findTaskBasic workspaceId taskId) (fun task w₁ _ hdb => ?_)
    fun e w₁ hdb => .same hdb
  rw [Call.ends_bind, ← hdb]
  refine Call.ends_readOnly (readOnly_query _) (fun siblings w₂ hread hdb₂ => ?_)
    fun e w₂ hdb₂ => .same hdb₂
  obtain ⟨rfl, _⟩ := run_query_ok hread
  rw [Call.ends_bind, ← hdb₂]
  refine Call.ends_readOnly (readOnly_throwIf _ _) (fun u w₃ hthrow hdb₃ => ?_)
    fun e w₃ hdb₃ => .same hdb₃
  obtain ⟨hany, _⟩ := run_throwIf_ok hthrow
  rw [Call.ends_bind, ← hdb₃]
  refine (writeSlot_ends (P := Edit ChecklistRow (some (checklistId, dto.afterId)) w₃.db) (.same rfl)
    fun slot r hslot hr hid => .put_moved hr hid ?_).mono (fun u w₄ hedit => emitUpdated_ends hedit)
    fun e w₄ hedit => hedit
  -- the row is in the list of the task that was read
  have hlist : Placed.list r = taskId := by
    simp only [Bool.not_eq_false', List.any_eq_true, decide_eq_true_eq] at hany
    obtain ⟨sibling, hsibling, hsid⟩ := hany
    obtain ⟨r', hr', hl, rfl⟩ := mem_siblingsByPosition.mp hsibling
    rw [hdb₃] at hr
    rw [eq_of_id hr hr' (hid.trans hsid.symm)]
    exact hl
  rw [hlist]
  exact hslot

theorem item_create_edits (checklistId : Id) (dto : CreateChecklistItemDto) :
    Edits ChecklistItemRow none
      (ChecklistItemService.create workspaceId taskId actorId checklistId dto) := by
  intro env w
  rw [ChecklistItemService.create, Call.ends_bind]
  refine Call.ends_readOnly (readOnly_findTaskBasic workspaceId taskId) (fun task w₁ _ hdb => ?_)
    fun e w₁ hdb => .same hdb
  rw [Call.ends_bind, ← hdb]
  refine Call.ends_readOnly (readOnly_query _) (fun checklist w₂ _ hdb₂ => ?_)
    fun e w₂ hdb₂ => .same hdb₂
  rw [Call.ends_bind, ← hdb₂]
  refine Call.ends_readOnly (readOnly_orThrow _ _) (fun owner w₃ _ hdb₃ => ?_)
    fun e w₃ hdb₃ => .same hdb₃
  rw [Call.ends_bind, ← hdb₃]
  refine Call.ends_transaction (fun u w₄ w₅ hbody hdb₅ => ?_) fun e w₄ hdb₄ => .same hdb₄
  have hedit : Edit ChecklistItemRow none w₃.db w₅.db := by
    rw [ChecklistItemService.createBody] at hbody
    obtain ⟨_, w₆, hlock, hbody⟩ := Tx.run_bind_ok hbody
    obtain rfl := run_lockRow_ok hlock
    obtain ⟨position, w₇, hread, hbody⟩ := Tx.run_bind_ok hbody
    obtain ⟨rfl, rfl⟩ := run_query_ok hread
    obtain ⟨id, w₈, hfresh, hbody⟩ := Tx.run_bind_ok hbody
    have hdb₈ := run_fresh_ok hfresh
    obtain ⟨created, w₉, hcreate, hret⟩ := Tx.run_bind_ok hbody
    obtain ⟨_, rfl, rfl⟩ := run_create_ok hcreate
    obtain ⟨_, rfl⟩ := Prod.mk.inj hret
    exact .inserted rfl (by rw [hdb₅, hdb₈])
  exact emitUpdated_ends hedit

theorem item_remove_edits (itemId : Id) :
    Edits ChecklistItemRow none (ChecklistItemService.remove workspaceId taskId actorId itemId) := by
  intro env w
  rw [ChecklistItemService.remove, Call.ends_bind]
  refine Call.ends_readOnly (readOnly_findTaskBasic workspaceId taskId) (fun task w₁ _ hdb => ?_)
    fun e w₁ hdb => .same hdb
  rw [Call.ends_bind, ← hdb]
  refine ends_deleteMany (fun n ws w₂ hws hdb₂ => ?_) fun e w₂ hdb₂ => .same hdb₂
  have hedit : Edit ChecklistItemRow none w₁.db w₂.db :=
    .less fun r hr => mem_rows_deleted rfl (by decide) hws (hdb₂ ▸ hr)
  rw [Call.ends_bind]
  refine Call.ends_readOnly (readOnly_throwIf _ _) (fun u w₃ _ hdb₃ => ?_) fun e w₃ hdb₃ => by
    rwa [hdb₃]
  rw [← hdb₃] at hedit
  exact emitUpdated_ends hedit

theorem item_move_edits (itemId : Id) (dto : MoveChecklistItemDto) :
    Edits ChecklistItemRow (some (itemId, dto.afterId))
      (ChecklistItemService.move workspaceId taskId actorId itemId dto) := by
  intro env w
  rw [ChecklistItemService.move, Call.ends_bind]
  refine Call.ends_readOnly (readOnly_findTaskBasic workspaceId taskId) (fun task w₁ _ hdb => ?_)
    fun e w₁ hdb => .same hdb
  rw [Call.ends_bind, ← hdb]
  refine Call.ends_readOnly (readOnly_query _) (fun found w₂ hread hdb₂ => ?_)
    fun e w₂ hdb₂ => .same hdb₂
  obtain ⟨rfl, _⟩ := run_query_ok hread
  rw [Call.ends_bind, ← hdb₂]
  refine Call.ends_readOnly (readOnly_orThrow _ _) (fun owner w₃ howner hdb₃ => ?_)
    fun e w₃ hdb₃ => .same hdb₃
  obtain ⟨hfound, _⟩ := run_orThrow_ok howner
  rw [Call.ends_bind, ← hdb₃]
  refine Call.ends_readOnly (readOnly_query _) (fun siblings w₄ hread₄ hdb₄ => ?_)
    fun e w₄ hdb₄ => .same hdb₄
  obtain ⟨rfl, _⟩ := run_query_ok hread₄
  rw [Call.ends_bind, ← hdb₄]
  refine (writeSlot_ends (P := Edit ChecklistItemRow (some (itemId, dto.afterId)) w₄.db) (.same rfl)
    fun slot r hslot hr hid => .put_moved hr hid ?_).mono (fun u w₅ hedit => emitUpdated_ends hedit)
    fun e w₅ hedit => hedit
  -- the row is the one whose checklist was read
  have hrow : r = owner := by
    have howner := List.mem_of_find?_eq_some hfound
    have hscope := List.find?_some hfound
    simp only [ChecklistItemService.itemScope, Bool.and_eq_true, decide_eq_true_eq] at hscope
    rw [hdb₄, hdb₃] at hr
    exact eq_of_id hr howner (hid.trans hscope.1.symm)
  rw [hrow]
  exact hslot

end Calls

/-! ## One call after another -/

inductive ChecklistOp where
  | create (workspaceId taskId actorId : Id) (dto : CreateChecklistDto)
  | remove (workspaceId taskId actorId checklistId : Id)
  | move (workspaceId taskId actorId checklistId : Id) (dto : MoveChecklistDto)

def ChecklistOp.call : ChecklistOp → Call kurul TaskDto
  | .create workspaceId taskId actorId dto => ChecklistService.create workspaceId taskId actorId dto
  | .remove workspaceId taskId actorId checklistId =>
    ChecklistService.remove workspaceId taskId actorId checklistId
  | .move workspaceId taskId actorId checklistId dto =>
    ChecklistService.move workspaceId taskId actorId checklistId dto

/-- The row a call moves, and where to. -/
def ChecklistOp.target : ChecklistOp → Option (Id × Option Id)
  | .move _ _ _ checklistId dto => some (checklistId, dto.afterId)
  | _ => none

theorem ChecklistOp.edits (op : ChecklistOp) : Edits ChecklistRow op.target op.call := by
  cases op with
  | create workspaceId taskId actorId dto => exact checklist_create_edits dto
  | remove workspaceId taskId actorId checklistId => exact checklist_remove_edits checklistId
  | move workspaceId taskId actorId checklistId dto => exact checklist_move_edits checklistId dto

inductive ChecklistItemOp where
  | create (workspaceId taskId actorId checklistId : Id) (dto : CreateChecklistItemDto)
  | remove (workspaceId taskId actorId itemId : Id)
  | move (workspaceId taskId actorId itemId : Id) (dto : MoveChecklistItemDto)

def ChecklistItemOp.call : ChecklistItemOp → Call kurul TaskDto
  | .create workspaceId taskId actorId checklistId dto =>
    ChecklistItemService.create workspaceId taskId actorId checklistId dto
  | .remove workspaceId taskId actorId itemId =>
    ChecklistItemService.remove workspaceId taskId actorId itemId
  | .move workspaceId taskId actorId itemId dto =>
    ChecklistItemService.move workspaceId taskId actorId itemId dto

def ChecklistItemOp.target : ChecklistItemOp → Option (Id × Option Id)
  | .move _ _ _ itemId dto => some (itemId, dto.afterId)
  | _ => none

theorem ChecklistItemOp.edits (op : ChecklistItemOp) : Edits ChecklistItemRow op.target op.call := by
  cases op with
  | create workspaceId taskId actorId checklistId dto => exact item_create_edits checklistId dto
  | remove workspaceId taskId actorId itemId => exact item_remove_edits itemId
  | move workspaceId taskId actorId itemId dto => exact item_move_edits itemId dto

/-- The rows after one more call, from start to end, in any environment. -/
def inTurn {Op : Type} (call : Op → Call kurul TaskDto) (a : Op × Env kurul) (db : Db) : Option Db :=
  some ((call a.1).run a.2 (World.start db)).2.db

/-- Run by calls that edit a list, each of whose moves finds room, it stays wide. -/
theorem wide_inTurn {R : Type} [Model R] [Placed R] {Op : Type} {call : Op → Call kurul TaskDto}
    {target : Op → Option (Id × Option Id)} (hedits : ∀ op, Edits R (target op) (call op))
    {listId : Id} {db₀ db : Db} (hempty : ∀ r ∈ rows R db₀, Placed.list r ≠ listId)
    (h : Lts.Reach (inTurn call) (fun db a => FindsRoom R db listId (target a.1)) db₀ db) :
    Wide R db listId := by
  refine h.inv (I := fun db => Wide R db listId) (fun r hr s _ hl => absurd hl (hempty r hr)) ?_
  intro db a db' hwide hroom hnext
  obtain rfl := Option.some.inj hnext
  exact ((hedits a.1).run a.2 (World.start db)).wide hroom hwide

/-- A task that had no checklists keeps them apart, and a checklist that had no items its items, as long as
every move is into a gap that needs no rebalance. -/
theorem checklist_gaps (taskId checklistId : Id) (db₀ db : Db) :
    ((∀ c ∈ rows ChecklistRow db₀, c.taskId ≠ taskId) →
      Lts.Reach (inTurn ChecklistOp.call)
        (fun db a => FindsRoom ChecklistRow db taskId a.1.target) db₀ db →
      Gaps ChecklistRow db taskId) ∧
    ((∀ item ∈ rows ChecklistItemRow db₀, item.checklistId ≠ checklistId) →
      Lts.Reach (inTurn ChecklistItemOp.call)
        (fun db a => FindsRoom ChecklistItemRow db checklistId a.1.target) db₀ db →
      Gaps ChecklistItemRow db checklistId) :=
  ⟨fun hempty h => (wide_inTurn ChecklistOp.edits hempty h).gaps,
    fun hempty h => (wide_inTurn ChecklistItemOp.edits hempty h).gaps⟩

/-! ## Two runs -/

instance {R : Type} [Model R] [Placed R] (db : Db) (listId : Id) : Decidable (Gaps R db listId) :=
  inferInstanceAs (Decidable (List.IsChain _ _))

/-- A task without checklists. -/
def bareTask : Db where
  rows := [
    .user ⟨js "u", js "u@x", js "U", true, none, none, none⟩,
    .workspace ⟨js "w", js "W", js "w"⟩,
    .board ⟨js "b", js "w", js "B", none, 0⟩,
    .column ⟨js "c", js "b", js "C", 1000, none, .unstarted⟩,
    .task ⟨js "t", js "b", js "c", js "T", none, .medium, 1000, none, none, js "u", 0, 0⟩]
  nodup := by decide

/-- A call that draws this identifier. -/
def drawing (id : String) : Env kurul := { calm with id := fun _ => js id }

def add (id : String) : ChecklistOp × Env kurul :=
  (.create (js "w") (js "t") (js "u") ⟨js "L"⟩, drawing id)

def moveBehind (id after : String) : ChecklistOp × Env kurul :=
  (.move (js "w") (js "t") (js "u") (js id) ⟨some (js after)⟩, drawing "x")

/-- The two others in turn go right behind the first. -/
def halvings : List (ChecklistOp × Env kurul) :=
  (List.range 31).map fun n => moveBehind (if n % 2 = 0 then "3" else "2") "1"

/-- A test of `FindsRoom`. -/
def findsRoom (R : Type) [Model R] [Placed R] (db : Db) (listId : Id)
    (target : Option (Id × Option Id)) : Bool :=
  target.all fun t => (moveSlot (siblingsByPosition R db listId) t.1 t.2).all fun slot =>
    !needsRebalance (slot.prev.map Sibling.position) (slot.next.map Sibling.position)

theorem findsRoom_ok {R : Type} [Model R] [Placed R] {db : Db} {listId : Id}
    {target : Option (Id × Option Id)} (h : findsRoom R db listId target = true) :
    FindsRoom R db listId target := by
  rintro m afterId slot rfl _ hslot
  simpa [findsRoom, hslot, Roomy] using h

/-- Three checklists, and two moves into gaps that are wide enough. -/
theorem checklist_gaps_roomy : ∃ db,
    Lts.Reach (inTurn ChecklistOp.call)
      (fun db a => FindsRoom ChecklistRow db (js "t") a.1.target) bareTask db ∧
    (rows ChecklistRow db).length = 3 ∧ Gaps ChecklistRow db (js "t") := by
  have hempty : ∀ c ∈ rows ChecklistRow bareTask, c.taskId ≠ js "t" := by decide +kernel
  have hplay : (Lts.play (inTurn ChecklistOp.call)
      (fun db a => findsRoom ChecklistRow db (js "t") a.1.target)
      [add "1", add "2", add "3", moveBehind "3" "1", moveBehind "2" "1"] bareTask).isSome = true := by
    decide +kernel
  have hrun : Lts.Reach (inTurn ChecklistOp.call)
      (fun db a => FindsRoom ChecklistRow db (js "t") a.1.target) bareTask _ :=
    Lts.reach_after (fun db a h => findsRoom_ok h) hplay
  exact ⟨_, hrun, by decide +kernel, (checklist_gaps _ [] _ _).1 hempty hrun⟩

/-- Thirty-one moves into one gap of 1000 leave less than `minGap / 2` of it. -/
theorem halving_closes_gap : ∃ db,
    Lts.Reach (inTurn ChecklistOp.call) (fun _ _ => True) bareTask db ∧
      ¬ Gaps ChecklistRow db (js "t") := by
  have hplay : (Lts.play (inTurn ChecklistOp.call) (fun _ _ => true)
      (add "1" :: add "2" :: add "3" :: halvings) bareTask).isSome = true := by decide +kernel
  exact ⟨_, Lts.reach_after (fun _ _ _ => trivial) hplay, by decide +kernel⟩

end Kurul
