import Mathlib.Data.Prod.Lex
import Kurul.Db.Kept
import Kurul.Position.ApplyInsertion

/-!
# Kurul.Position.RebalanceSql

Rows that stand in ordered lists, and the bulk write that respreads one of those lists.

At READ COMMITTED an `UPDATE … FROM unnest(…)` finds its rows first and writes each of them when
its lock is free, checking its predicate again on the row as it is then. So the one statement is
modelled as a read of the rows to write, followed by one conditional write for each.

* `ordered_eq`                    — a list in strictly increasing order with the right members is
  the ordered list.
* `run_batchUpdatePositions_ok`   — alone, the bulk write sets exactly the positions it was given.
-/

namespace Kurul

open Sql

/-- A model whose rows stand in ordered lists: tasks in columns, columns on boards. -/
class Placed (R : Type) [Model R] where
  list : R → Id
  position : R → Position
  setPosition : Position → Patch R
  list_set : ∀ p r, list ((setPosition p).apply r) = list r
  position_set : ∀ p r, position ((setPosition p).apply r) = p
  set_position : ∀ r, (setPosition (position r)).apply r = r

instance {R : Type} [Model R] [Placed R] : Positioned R := ⟨Model.id, Placed.position⟩

instance : Placed TaskRow where
  list := TaskRow.columnId
  position := TaskRow.position
  setPosition p := ⟨fun t => { t with position := p }, fun _ => rfl⟩
  list_set := fun _ _ => rfl
  position_set := fun _ _ => rfl
  set_position := fun _ => rfl

instance : Placed ColumnRow where
  list := ColumnRow.boardId
  position := ColumnRow.position
  setPosition p := ⟨fun c => { c with position := p }, fun _ => rfl⟩
  list_set := fun _ _ => rfl
  position_set := fun _ _ => rfl
  set_position := fun _ => rfl

/-! ## Ordered lists -/

/-- `orderBy: [{ position: 'asc' }, { id: 'asc' }]`. -/
def rank {T : Type} [Positioned T] (item : T) : ℚ ×ₗ Id :=
  toLex (Positioned.position item, Positioned.id item)

theorem rank_lt {T : Type} [Positioned T] {a b : T}
    (h : Positioned.position a < Positioned.position b) : rank a < rank b :=
  Prod.Lex.toLex_lt_toLex.mpr (.inl h)

theorem position_le_of_rank_lt {T : Type} [Positioned T] {a b : T} (h : rank a < rank b) :
    Positioned.position a ≤ Positioned.position b := by
  rcases Prod.Lex.toLex_lt_toLex.mp h with h | ⟨h, _⟩
  · exact h.le
  · exact h.le

section Ordered

variable (R : Type) [Model R] [Placed R]

/-- The rows of one list, in order. -/
def ordered (db : Db) (listId : Id) : List R :=
  sortBy rank ((rows R db).filter fun r => Placed.list r = listId)

def toSibling {R : Type} [Model R] [Placed R] (r : R) : Sibling := ⟨Model.id r, Placed.position r⟩

/-- The rows of one list as the ordering arithmetic reads them. -/
def siblings (db : Db) (listId : Id) : List Sibling := (ordered R db listId).map toSibling

/-- `orderBy: [{ position: 'asc' }, { id: 'asc' }], select: { id: true, position: true }`. -/
def findSiblings (listId : Id) : Tx kurul (List Sibling) := query fun db => siblings R db listId

variable {R} {db : Db} {listId : Id}

@[simp] theorem mem_ordered {r : R} :
    r ∈ ordered R db listId ↔ r ∈ rows R db ∧ Placed.list r = listId := by
  simp [ordered]

theorem nodup_ordered_ids (R : Type) [Model R] [Placed R] (db : Db) (listId : Id) :
    ((ordered R db listId).map Model.id).Nodup :=
  ((sortBy_perm rank _).map Model.id).nodup_iff.mpr
    ((nodup_ids R db).sublist ((List.filter_sublist).map Model.id))

theorem ordered_lt (R : Type) [Model R] [Placed R] (db : Db) (listId : Id) :
    (ordered R db listId).Pairwise fun a b => rank a < rank b := by
  apply sortBy_lt
  refine List.Nodup.of_map (fun k => (ofLex k).2) ?_
  rw [List.map_map]
  exact (nodup_ids R db).sublist ((List.filter_sublist).map Model.id)

theorem siblings_sorted (R : Type) [Model R] [Placed R] (db : Db) (listId : Id) :
    (siblings R db listId).Pairwise fun a b => a.position ≤ b.position :=
  List.pairwise_map.mpr ((ordered_lt R db listId).imp position_le_of_rank_lt)

theorem ordered_eq {l : List R} (hs : l.Pairwise fun a b => rank a < rank b)
    (hmem : ∀ r, r ∈ l ↔ r ∈ rows R db ∧ Placed.list r = listId) : ordered R db listId = l := by
  refine sortBy_eq ?_ hs
  have hrows : (rows R db).Nodup := (nodup_ids R db).of_map _
  rw [List.perm_ext_iff_of_nodup (hs.imp fun h => by rintro rfl; exact lt_irrefl _ h)
    (hrows.filter _)]
  intro r
  simp [hmem]

end Ordered

/-! ## The bulk write -/

section Batch

variable (R : Type) [Model R] [Placed R]

/-- One write for each row found, if it is still in the list. -/
def writePositions (listId : Id) : List PositionUpdate → Tx kurul Unit
  | [] => .ret ()
  | u :: us => do
    let _ ← updateMany (fun _ (r : R) => Model.id r = u.id && Placed.list r = listId)
      (Placed.setPosition u.position)
    writePositions listId us

/-- The rows to write, each with its new position. -/
def matched (listId : Id) (updates : List PositionUpdate) (db : Db) : List PositionUpdate :=
  (rows R db).filterMap fun r =>
    if Placed.list r = listId then updates.find? fun u => u.id = Model.id r else none

def batchUpdatePositions (listId : Id) (updates : List PositionUpdate) : Tx kurul Unit :=
  if updates.isEmpty then .ret ()
  else do
    let found ← query (matched R listId updates)
    writePositions R listId found

variable {R} {listId : Id} {db : Db}

theorem mem_matched {updates : List PositionUpdate} {u : PositionUpdate} :
    u ∈ matched R listId updates db ↔
      ∃ r ∈ rows R db, Placed.list r = listId ∧ u.id = Model.id r ∧
        updates.find? (fun v => v.id = Model.id r) = some u := by
  simp only [matched, List.mem_filterMap]
  constructor
  · rintro ⟨r, hr, h⟩
    split at h
    · rename_i hl
      exact ⟨r, hr, hl, by simpa using List.find?_some h, h⟩
    · cases h
  · rintro ⟨r, hr, hl, _, h⟩
    exact ⟨r, hr, by rw [if_pos hl, h]⟩

theorem nodup_matched (updates : List PositionUpdate) :
    ((matched R listId updates db).map PositionUpdate.id).Nodup := by
  have hids : (rows R db).Pairwise fun a b => Model.id a ≠ Model.id b :=
    List.pairwise_map.mp (nodup_ids R db)
  rw [List.Nodup, List.pairwise_map, matched, List.pairwise_filterMap]
  refine hids.imp ?_
  intro a b hab u hu v hv heq
  split at hu
  · split at hv
    · have hua : u.id = Model.id a := by simpa using List.find?_some hu
      have hvb : v.id = Model.id b := by simpa using List.find?_some hv
      exact hab (hua.symm.trans (heq.trans hvb))
    · cases hv
  · cases hu

/-- What the bulk write makes of a row. -/
def repositioned (listId : Id) (updates : List PositionUpdate) (r : R) : R :=
  if Placed.list r = listId then
    match updates.find? fun u => u.id = Model.id r with
    | some u => (Placed.setPosition u.position).apply r
    | none => r
  else r

/-- The bulk write changes nothing but positions, and those only in its own list. -/
theorem repositioned_cases (listId : Id) (updates : List PositionUpdate) (r : R) :
    repositioned listId updates r = r ∨ (Placed.list r = listId ∧
      ∃ p, repositioned listId updates r = (Placed.setPosition p).apply r) := by
  unfold repositioned
  split
  · rename_i hl
    split
    · exact .inr ⟨hl, _, rfl⟩
    · exact .inl rfl
  · exact .inl rfl

@[simp] theorem id_repositioned (listId : Id) (updates : List PositionUpdate) (r : R) :
    Model.id (repositioned listId updates r) = Model.id r := by
  rcases repositioned_cases listId updates r with h | ⟨_, p, h⟩
  · rw [h]
  · rw [h, Patch.id_apply]

@[simp] theorem list_repositioned (listId : Id) (updates : List PositionUpdate) (r : R) :
    Placed.list (repositioned listId updates r) = Placed.list r := by
  rcases repositioned_cases listId updates r with h | ⟨_, p, h⟩
  · rw [h]
  · rw [h, Placed.list_set]

theorem position_repositioned (updates : List PositionUpdate) {r : R} (h : Placed.list r ≠ listId) :
    Placed.position (repositioned listId updates r) = Placed.position r := by
  rw [repositioned, if_neg h]

theorem find?_update {us : List PositionUpdate} (hnd : (us.map PositionUpdate.id).Nodup)
    {u : PositionUpdate} (hu : u ∈ us) : us.find? (fun v => v.id = u.id) = some u := by
  cases hv : us.find? fun v => v.id = u.id with
  | none => exact absurd (by simp) (List.find?_eq_none.mp hv u hu)
  | some v =>
    have hid : v.id = u.id := by simpa using List.find?_some hv
    rw [List.inj_on_of_nodup_map hnd (List.mem_of_find?_eq_some hv) hu hid]

theorem repositioned_matched {updates : List PositionUpdate} {r : R} (hr : r ∈ rows R db) :
    repositioned listId (matched R listId updates db) r = repositioned listId updates r := by
  unfold repositioned
  split
  · rename_i hl
    have hfind : (matched R listId updates db).find? (fun u => u.id = Model.id r) =
        updates.find? fun u => u.id = Model.id r := by
      cases hu : updates.find? fun u => u.id = Model.id r with
      | none =>
        rw [List.find?_eq_none]
        intro v hv hid
        obtain ⟨s, hs, _, hvs, hfs⟩ := mem_matched.mp hv
        have : s = r := eq_of_id hs hr (hvs.symm.trans (by simpa using hid))
        rw [this, hu] at hfs
        cases hfs
      | some u =>
        have hid : u.id = Model.id r := by simpa using List.find?_some hu
        rw [← hid]
        exact find?_update (nodup_matched updates) (mem_matched.mpr ⟨r, hr, hl, hid, hu⟩)
    rw [hfind]
  · rfl

/-- The loop, alone: each step patches at most the one row its update names. -/
theorem run_writePositions_ok {env : Env kurul} {us : List PositionUpdate} :
    ∀ {w w' : World kurul} {a : Unit}, (us.map PositionUpdate.id).Nodup →
      (writePositions R listId us).run env w = (.ok a, w') →
      ∀ r', r' ∈ rows R w'.db ↔ ∃ r ∈ rows R w.db, r' = repositioned listId us r := by
  induction us with
  | nil =>
    intro w w' a _ h r'
    simp only [writePositions, Tx.run_ret, Prod.mk.injEq] at h
    simp [repositioned, ← h.2]
  | cons u us ih =>
    intro w w' a hnd h r'
    rw [List.map_cons, List.nodup_cons] at hnd
    obtain ⟨n, w₁, hu, hrest⟩ := Tx.run_bind_ok h
    obtain ⟨_, rfl⟩ := run_updateMany_ok hu
    rw [ih hnd.2 hrest]
    simp only [mem_rows_updateMany]
    have hfresh : ∀ {r : R}, Model.id r = u.id → us.find? (fun v => v.id = Model.id r) = none := by
      intro r hr
      rw [List.find?_eq_none]
      intro v hv hid
      exact hnd.1 (List.mem_map.mpr ⟨v, hv, by simpa [hr] using hid⟩)
    have hstep : ∀ r : R, repositioned listId us
          (if (decide (Model.id r = u.id) && decide (Placed.list r = listId)) = true then
            (Placed.setPosition u.position).apply r else r) =
        repositioned listId (u :: us) r := by
      intro r
      by_cases hl : Placed.list r = listId
      · by_cases hid : Model.id r = u.id
        · have hnone := hfresh (r := (Placed.setPosition u.position).apply r)
            (by rw [Patch.id_apply, hid])
          simp [repositioned, hl, hid, Placed.list_set, hnone]
        · have hne : ¬ u.id = Model.id r := fun h => hid h.symm
          simp [repositioned, hl, hid, hne]
      · simp [repositioned, hl]
    constructor
    · rintro ⟨_, ⟨r, hr, rfl⟩, rfl⟩
      exact ⟨r, hr, hstep r⟩
    · rintro ⟨r, hr, rfl⟩
      exact ⟨_, ⟨r, hr, rfl⟩, (hstep r).symm⟩

/-- Alone, the bulk write sets exactly the positions it was given, in its own list. -/
theorem run_batchUpdatePositions_ok {env : Env kurul} {updates : List PositionUpdate}
    {w w' : World kurul} {a : Unit}
    (h : (batchUpdatePositions R listId updates).run env w = (.ok a, w')) (r' : R) :
    r' ∈ rows R w'.db ↔ ∃ r ∈ rows R w.db, r' = repositioned listId updates r := by
  simp only [batchUpdatePositions] at h
  split at h
  · rename_i hnil
    obtain rfl : updates = [] := List.isEmpty_iff.mp hnil
    simp only [Tx.run_ret, Prod.mk.injEq] at h
    simp [repositioned, ← h.2]
  · obtain ⟨found, w₁, hq, hw⟩ := Tx.run_bind_ok h
    obtain ⟨rfl, rfl⟩ := run_query_ok hq
    rw [run_writePositions_ok (nodup_matched updates) hw]
    constructor
    · rintro ⟨r, hr, rfl⟩
      exact ⟨r, hr, repositioned_matched hr⟩
    · rintro ⟨r, hr, rfl⟩
      exact ⟨r, hr, (repositioned_matched hr).symm⟩

/-- Among others, the bulk write keeps whatever survives the others' commits and writes to the rows
that are to be respread. -/
theorem batchUpdatePositions_safe {ι : Type} {P : Protocol kurul ι} {i : ι}
    {J : Local kurul → Db → Prop} {Q : Unit → Local kurul → Db → Prop}
    {updates : List PositionUpdate}
    (hrely : ∀ own db db', P.Later own db db' → J own db → J own db')
    (hadd : ∀ own db (e : Effect kurul Nat),
      (∀ w ∈ e.writes, ∃ u ∈ updates, w.key = ⟨Model.table R, u.id⟩) →
      J own db → J (own.add e) db)
    (hQ : ∀ own db, J own db → Q () own db) {own : Local kurul}
    {db : Db} (h : J own db) : (batchUpdatePositions R listId updates).Safe P i Q own db := by
  have hloop : ∀ us : List PositionUpdate, us ⊆ updates → ∀ (own : Local kurul) (db : Db),
      J own db → (writePositions R listId us).Safe P i Q own db := by
    intro us
    induction us with
    | nil => intro _ own db h; exact hQ own db h
    | cons u us ih =>
      intro hus own db h
      obtain ⟨hu, hrest⟩ := List.cons_subset.mp hus
      simp only [writePositions, Tx.Safe_bind]
      intro db' hl _ e he
      refine ih hrest _ _ (hadd own db' e ?_ (hrely own db db' hl h))
      rw [(eval_updateMany he).2]
      intro w hw
      obtain ⟨r, hr, rfl⟩ := List.mem_map.mp hw
      have hid : Model.id r = u.id := by
        have hp := (List.mem_filter.mp hr).2
        simp only [Bool.and_eq_true, decide_eq_true_eq] at hp
        exact hp.1
      exact ⟨u, hu, by rw [Write.key_put, keyed_key, Patch.key_apply, Model.key_row, hid]⟩
  simp only [batchUpdatePositions]
  split
  · exact hQ own db h
  · rw [Tx.Safe_bind]
    refine Safe_query fun db' hl => hloop _ ?_ own db' (hrely own db db' hl h)
    intro u hu
    obtain ⟨r, _, _, _, hfind⟩ := mem_matched.mp hu
    exact List.mem_of_find?_eq_some hfind

/-- With notes taken, the bulk write keeps what its statements keep. -/
theorem batchUpdatePositions_kept {ι G : Type} {L : Sql.Ledger kurul ι G} {i : ι}
    {updates : List PositionUpdate} {J : G → Local kurul → Db → Prop}
    {Q : Unit → G → Local kurul → Db → Prop}
    (hstmt : ∀ {β : Type} (e : Effect kurul β) (g : G) own db db' l, own.Held db db' → J g own db →
      (∀ w ∈ e.writes, ∃ u ∈ updates, ∃ r ∈ rows R (own.view db'), Placed.list r = listId ∧
        Model.id r = u.id ∧ w = .put (Model.row ((Placed.setPosition u.position).apply r))) →
      J (L.note g (.exec l) (own.view db') db' db') (own.add e) db')
    (hQ : ∀ g own db, J g own db → Q () g own db) {g : G} {own : Local kurul} (h : J g own db) :
    (batchUpdatePositions R listId updates).Kept L i Q g own db := by
  have hloop : ∀ us : List PositionUpdate, us ⊆ updates → ∀ (g : G) (own : Local kurul) (db : Db),
      J g own db → (writePositions R listId us).Kept L i Q g own db := by
    intro us
    induction us with
    | nil => intro _ g own db h; exact hQ g own db h
    | cons u us ih =>
      intro hus g own db h
      obtain ⟨hu, hrest⟩ := List.cons_subset.mp hus
      simp only [writePositions, Tx.Kept_bind]
      intro db' hn e he
      refine ih hrest _ _ _ (hstmt e g own db db' _ hn.1 h fun w hw => ?_)
      rw [(eval_updateMany he).2] at hw
      obtain ⟨r, hr, rfl⟩ := List.mem_map.mp hw
      obtain ⟨hmem, hp⟩ := List.mem_filter.mp hr
      simp only [Bool.and_eq_true, decide_eq_true_eq] at hp
      exact ⟨u, hu, r, hmem, hp.2, hp.1, rfl⟩
  simp only [batchUpdatePositions]
  split
  · exact hQ g own db h
  · rw [Tx.Kept_bind]
    intro db' hn e he
    have hquiet : e.writes = [] := by rw [← Except.ok.inj he]
    refine hloop _ ?_ _ _ _ (hstmt e g own db db' _ hn.1 h fun w hw => ?_)
    · rw [← Except.ok.inj he]
      intro u hu
      obtain ⟨r, _, _, _, hfind⟩ := mem_matched.mp hu
      exact List.mem_of_find?_eq_some hfind
    · rw [hquiet] at hw
      cases hw

theorem writes_batchUpdatePositions {p : Write Key Row → Prop}
    (hp : ∀ r : R, p (.put (Model.row r))) (updates : List PositionUpdate) :
    (batchUpdatePositions R listId updates).Writes p := by
  have hloop : ∀ us : List PositionUpdate, (writePositions R listId us).Writes p := by
    intro us
    induction us with
    | nil => trivial
    | cons u us ih => exact (writes_updateMany hp _ _).bind fun _ => ih
  simp only [batchUpdatePositions]
  split
  · trivial
  · exact (writes_query _).bind fun found => hloop found

end Batch

/-- A create's two branches: respread the list around the slot if the gap is too small to split, or
take the middle of the gap. The new row's position. -/
def makeRoom (R : Type) [Model R] [Placed R] (listId : Id) (siblings : List Sibling)
    (slot : InsertionSlot Sibling) : Tx kurul Position :=
  let prevPos := slot.prev.map Sibling.position
  let nextPos := slot.next.map Sibling.position
  if needsRebalance prevPos nextPos then do
    let positions := rebalancePositions (siblings.length + 1)
    batchUpdatePositions R listId (createUpdates siblings slot.insertionIndex positions)
    return positions.getD slot.insertionIndex 0
  else
    return midpoint prevPos nextPos

def batchUpdateTaskPositions (columnId : Id) (updates : List PositionUpdate) : Tx kurul Unit :=
  batchUpdatePositions TaskRow columnId updates

def batchUpdateColumnPositions (boardId : Id) (updates : List PositionUpdate) : Tx kurul Unit :=
  batchUpdatePositions ColumnRow boardId updates

theorem writes_makeRoom {R : Type} [Model R] [Placed R] {p : Write Key Row → Prop}
    (hp : ∀ r : R, p (.put (Model.row r))) (listId : Id) (siblings : List Sibling)
    (slot : InsertionSlot Sibling) : (makeRoom R listId siblings slot).Writes p := by
  simp only [makeRoom]
  split
  · exact (writes_batchUpdatePositions hp _).bind fun _ => trivial
  · trivial

theorem run_findSiblings_ok {R : Type} [Model R] [Placed R] {env : Env kurul}
    {w w' : World kurul} {listId : Id} {l : List Sibling}
    (h : (findSiblings R listId).run env w = (.ok l, w')) :
    l = siblings R w.db listId ∧ w'.db = w.db := by
  obtain ⟨rfl, rfl⟩ := run_query_ok h
  exact ⟨rfl, rfl⟩

/-- The two branches of a create, as they leave the list's rows. -/
theorem run_makeRoom_ok {R : Type} [Model R] [Placed R] {env : Env kurul} {w w' : World kurul}
    {listId : Id} {l : List Sibling} {slot : InsertionSlot Sibling} {p : Position}
    (h : (makeRoom R listId l slot).run env w = (.ok p, w')) :
    (needsRebalance (slot.prev.map Sibling.position) (slot.next.map Sibling.position) = false ∧
      p = midpoint (slot.prev.map Sibling.position) (slot.next.map Sibling.position) ∧ w' = w) ∨
    (p = (rebalancePositions (l.length + 1)).getD slot.insertionIndex 0 ∧
      ∀ r', r' ∈ rows R w'.db ↔ ∃ r ∈ rows R w.db, r' = repositioned listId
        (createUpdates l slot.insertionIndex (rebalancePositions (l.length + 1))) r) := by
  simp only [makeRoom] at h
  split at h
  · obtain ⟨_, w₁, h₁, h⟩ := Tx.run_bind_ok h
    simp only [Tx.pure_eq, Tx.run_ret, Prod.mk.injEq, Except.ok.injEq] at h
    obtain ⟨rfl, rfl⟩ := h
    exact .inr ⟨rfl, run_batchUpdatePositions_ok h₁⟩
  · rename_i hn
    simp only [Tx.pure_eq, Tx.run_ret, Prod.mk.injEq, Except.ok.injEq] at h
    exact .inl ⟨by simpa using hn, h.1.symm, h.2.symm⟩

end Kurul
