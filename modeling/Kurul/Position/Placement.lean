import Kurul.Position.RebalanceSql

/-!
# Kurul.Position.Placement

What it means that a row was put at an index of an ordered list, and that both ways of making room
put it there.

* `PlacedAt`            — the list reads as before with the row at its index; every other row stays
  in its list, and outside the target list at its position.
* `placedAt_midpoint`, `placedAt_rebalance` — the two branches.
-/

namespace Kurul

open Sql

section Placement

variable (R : Type) [Model R] [Placed R]

/-- The rows of a list other than one. -/
def others (db : Db) (listId m : Id) : List R :=
  (ordered R db listId).filter fun r => Model.id r ≠ m

def othersIds (db : Db) (listId m : Id) : List Id := (others R db listId m).map Model.id

/-- Row `m` went to index `k` of a list. -/
structure PlacedAt (db db' : Db) (listId m : Id) (k : Nat) : Prop where
  order : (ordered R db' listId).map Model.id = (othersIds R db listId m).insertIdx k m
  kept : ∀ r ∈ rows R db, Model.id r ≠ m → ∃ r' ∈ rows R db', Model.id r' = Model.id r ∧
    Placed.list r' = Placed.list r ∧ (Placed.list r ≠ listId → Placed.position r' = Placed.position r)
  old : ∀ r' ∈ rows R db', Model.id r' ≠ m → ∃ r ∈ rows R db, Model.id r' = Model.id r ∧
    Placed.list r' = Placed.list r ∧ (Placed.list r ≠ listId → Placed.position r' = Placed.position r)

/-- `a` stands right before `b`. -/
def Adjacent (l : List Id) (a b : Id) : Prop := ∃ i, l[i]? = some a ∧ l[i + 1]? = some b

variable {R} {db db' : Db} {listId m : Id} {k : Nat}

@[simp] theorem mem_others {r : R} :
    r ∈ others R db listId m ↔ (r ∈ rows R db ∧ Placed.list r = listId) ∧ Model.id r ≠ m := by
  simp [others]

theorem others_lt (R : Type) [Model R] [Placed R] (db : Db) (listId m : Id) :
    (others R db listId m).Pairwise fun a b => rank a < rank b :=
  (ordered_lt R db listId).filter _

theorem nodup_othersIds (R : Type) [Model R] [Placed R] (db : Db) (listId m : Id) :
    (othersIds R db listId m).Nodup :=
  (nodup_ordered_ids R db listId).sublist ((List.filter_sublist).map Model.id)

theorem not_mem_othersIds (R : Type) [Model R] [Placed R] (db : Db) (listId m : Id) :
    m ∉ othersIds R db listId m := by
  intro h
  obtain ⟨r, hr, hid⟩ := List.mem_map.mp h
  exact (mem_others.mp hr).2 hid

/-- The moved row filtered out of the siblings leaves the others. -/
theorem siblings_filter (R : Type) [Model R] [Placed R] (db : Db) (listId m : Id) :
    ((siblings R db listId).filter fun s => s.id ≠ m) = (others R db listId m).map toSibling := by
  rw [siblings, others, List.filter_map]
  rfl

/-- A row that is nowhere yet is not among the siblings. -/
theorem others_of_fresh (hm : ∀ r ∈ rows R db, Model.id r ≠ m) :
    others R db listId m = ordered R db listId := by
  rw [others, List.filter_eq_self]
  intro r hr
  exact decide_eq_true (hm r (mem_ordered.mp hr).1)

theorem ids_toSibling (l : List R) :
    (l.map toSibling).map Positioned.id = l.map Model.id := by
  rw [List.map_map]; rfl

theorem adjacent_insertIdx_prev {ids : List Id} {p : Id} (hpos : 0 < k) (hk : k ≤ ids.length)
    (hp : ids[k - 1]? = some p) : Adjacent (ids.insertIdx k m) p m := by
  refine ⟨k - 1, ?_, ?_⟩
  · rw [List.getElem?_insertIdx_of_lt (by omega), hp]
  · rw [Nat.sub_add_cancel hpos, List.getElem?_insertIdx_self, if_pos hk]

theorem adjacent_insertIdx_next {ids : List Id} {n : Id} (hk : k ≤ ids.length)
    (hn : ids[k]? = some n) : Adjacent (ids.insertIdx k m) m n := by
  refine ⟨k, ?_, ?_⟩
  · rw [List.getElem?_insertIdx_self, if_pos hk]
  · rw [List.getElem?_insertIdx_of_gt (by omega), Nat.add_sub_cancel, hn]

/-- The neighbours a request named end up next to the row. -/
theorem SlotOf.adjacent {l : List R} {prevId nextId : Option Id} {slot : InsertionSlot Sibling}
    (hs : SlotOf (l.map toSibling) prevId nextId slot) {ids : List Id}
    (hids : ids = (l.map Model.id).insertIdx slot.insertionIndex m) :
    (∀ p, prevId = some p → p ≠ [] → Adjacent ids p m) ∧
    (∀ n, nextId = some n → n ≠ [] → Adjacent ids m n) := by
  have hlen : slot.insertionIndex ≤ (l.map Model.id).length := by simpa using hs.le
  subst hids
  constructor
  · intro p hp hne
    obtain ⟨hpos, item, hitem, rfl⟩ := hs.prev p hp hne
    refine adjacent_insertIdx_prev hpos hlen ?_
    rw [← ids_toSibling, List.getElem?_map, hitem]
    rfl
  · intro n hn hne
    obtain ⟨item, hitem, rfl⟩ := hs.next n hn hne
    refine adjacent_insertIdx_next hlen ?_
    rw [← ids_toSibling, List.getElem?_map, hitem]
    rfl

/-- The midpoint branch: one row written, between its neighbours. -/
theorem placedAt_midpoint {x : R} (hid : Model.id x = m) (hlist : Placed.list x = listId)
    (hk : k ≤ (others R db listId m).length)
    (hbefore : ∀ r ∈ (others R db listId m).take k, Placed.position r < Placed.position x)
    (hafter : ∀ r ∈ (others R db listId m).drop k, Placed.position x < Placed.position r)
    (hrows : ∀ r', r' ∈ rows R db' ↔ r' = x ∨ (r' ∈ rows R db ∧ Model.id r' ≠ m)) :
    PlacedAt R db db' listId m k := by
  have hord : ordered R db' listId = (others R db listId m).insertIdx k x := by
    apply ordered_eq
    · exact pairwise_insertIdx (others_lt R db listId m) hk (fun r hr => rank_lt (hbefore r hr))
        (fun r hr => rank_lt (hafter r hr))
    · intro r
      rw [List.mem_insertIdx hk, mem_others, hrows]
      constructor
      · rintro (rfl | ⟨⟨hr, hl⟩, hne⟩)
        · exact ⟨.inl rfl, hlist⟩
        · exact ⟨.inr ⟨hr, hne⟩, hl⟩
      · rintro ⟨rfl | ⟨hr, hne⟩, hl⟩
        · exact .inl rfl
        · exact .inr ⟨⟨hr, hl⟩, hne⟩
  refine ⟨?_, ?_, ?_⟩
  · rw [hord, List.map_insertIdx, hid]; rfl
  · intro r hr hne
    exact ⟨r, (hrows r).mpr (.inr ⟨hr, hne⟩), rfl, rfl, fun _ => rfl⟩
  · intro r' hr' hne
    rcases (hrows r').mp hr' with rfl | ⟨hr, _⟩
    · exact absurd hid hne
    · exact ⟨r', hr, rfl, rfl, fun _ => rfl⟩

theorem nodup_insertIdx {ids : List Id} (hnd : ids.Nodup) (hm : m ∉ ids) (hk : k ≤ ids.length) :
    (ids.insertIdx k m).Nodup :=
  (List.perm_insertIdx m ids hk).nodup_iff.mpr (List.nodup_cons.mpr ⟨hm, hnd⟩)

/-- The position an update list respread from a list gives to the row at an index. -/
theorem repositioned_respread {ids : List Id} (hnd : ids.Nodup) {ps : List Position} {i : Nat}
    {r : R} (hi : ids[i]? = some (Model.id r)) (hne : Model.id r ≠ m)
    (hl : Placed.list r = listId) :
    repositioned listId ((respread ids ps).filter fun u => u.id ≠ m) r =
      (Placed.setPosition (ps.getD i 0)).apply r := by
  have hids : (respread ids ps).map PositionUpdate.id = ids := by
    apply List.ext_getElem
    · simp [respread]
    · intro j h h'
      simp [respread]
  have hmem : (⟨Model.id r, ps.getD i 0⟩ : PositionUpdate) ∈
      (respread ids ps).filter fun u => u.id ≠ m := by
    rw [List.mem_filter]
    refine ⟨?_, by simpa using hne⟩
    obtain ⟨hlt, hget⟩ := List.getElem?_eq_some_iff.mp hi
    exact List.mem_mapIdx.mpr ⟨i, hlt, by rw [hget]⟩
  have hnd' : (((respread ids ps).filter fun u => u.id ≠ m).map PositionUpdate.id).Nodup := by
    refine List.Nodup.sublist ((List.filter_sublist).map _) ?_
    rw [hids]
    exact hnd
  have hfind := find?_update hnd' hmem
  simp only [repositioned, hl, if_true, hfind]

/-- The rebalance branch: the whole list respread, with the row in its slot. -/
theorem placedAt_rebalance {x : R} (hid : Model.id x = m) (hlist : Placed.list x = listId)
    (hk : k ≤ (othersIds R db listId m).length) {ps : List Position}
    (hps : ps = rebalancePositions ((othersIds R db listId m).length + 1))
    (hpos : Placed.position x = ps.getD k 0) {updates : List PositionUpdate}
    (hup : updates =
      (respread ((othersIds R db listId m).insertIdx k m) ps).filter fun u => u.id ≠ m)
    (hrows : ∀ r', r' ∈ rows R db' ↔
      r' = x ∨ ∃ r ∈ rows R db, Model.id r ≠ m ∧ r' = repositioned listId updates r) :
    PlacedAt R db db' listId m k := by
  have hkl : k ≤ (others R db listId m).length := by simpa [othersIds] using hk
  have hidsr : ((others R db listId m).insertIdx k x).map Model.id =
      (othersIds R db listId m).insertIdx k m := by
    rw [List.map_insertIdx, hid]; rfl
  have hnd : ((othersIds R db listId m).insertIdx k m).Nodup :=
    nodup_insertIdx (nodup_othersIds R db listId m) (not_mem_othersIds R db listId m) hk
  have hlen : ((others R db listId m).insertIdx k x).length =
      (othersIds R db listId m).length + 1 := by
    rw [List.length_insertIdx_of_le_length hkl]; simp [othersIds]
  -- What becomes of the entry at each index of the list with the row in it.
  have hentry : ∀ i r, ((others R db listId m).insertIdx k x)[i]? = some r →
      (r = x ∧ (Placed.setPosition (ps.getD i 0)).apply r = x) ∨
      (r ∈ others R db listId m ∧
        (Placed.setPosition (ps.getD i 0)).apply r = repositioned listId updates r) := by
    intro i r hi
    have hidi : ((othersIds R db listId m).insertIdx k m)[i]? = some (Model.id r) := by
      rw [← hidsr, List.getElem?_map, hi]; rfl
    rcases (List.mem_insertIdx hkl).mp (List.mem_of_getElem? hi) with rfl | hr
    · refine .inl ⟨rfl, ?_⟩
      have hself : ((othersIds R db listId m).insertIdx k m)[k]? = some m := by
        rw [List.getElem?_insertIdx_self, if_pos hk]
      have hik : i = k := by
        obtain ⟨hlt, hget⟩ := List.getElem?_eq_some_iff.mp hidi
        obtain ⟨hlt', hget'⟩ := List.getElem?_eq_some_iff.mp hself
        exact hnd.getElem_inj_iff.mp (by rw [hget, hget', hid])
      rw [hik, ← hpos, Placed.set_position]
    · refine .inr ⟨hr, ?_⟩
      rw [hup, repositioned_respread hnd hidi (mem_others.mp hr).2 (mem_others.mp hr).1.2]
  have hord : ordered R db' listId =
      ((others R db listId m).insertIdx k x).mapIdx
        fun i r => (Placed.setPosition (ps.getD i 0)).apply r := by
    apply ordered_eq
    · rw [List.pairwise_iff_getElem]
      intro i j hi hj hij
      rw [List.length_mapIdx, hlen] at hj
      simp only [List.getElem_mapIdx]
      apply rank_lt
      simp only [Positioned.position, Placed.position_set, hps]
      exact rebalancePositions_lt hij hj
    · intro r'
      rw [List.mem_mapIdx]
      constructor
      · rintro ⟨i, hi, rfl⟩
        rcases hentry i _ (List.getElem?_eq_getElem hi) with ⟨_, heq⟩ | ⟨hr, heq⟩
        · rw [heq]; exact ⟨(hrows x).mpr (.inl rfl), hlist⟩
        · refine ⟨(hrows _).mpr (.inr ⟨_, (mem_others.mp hr).1.1, (mem_others.mp hr).2, heq⟩), ?_⟩
          rw [Placed.list_set]
          exact (mem_others.mp hr).1.2
      · rintro ⟨hr', hl⟩
        rcases (hrows r').mp hr' with rfl | ⟨r, hr, hne, rfl⟩
        · have hself : ((others R db listId m).insertIdx k r')[k]? = some r' := by
            rw [List.getElem?_insertIdx_self, if_pos hkl]
          obtain ⟨hlt, hget⟩ := List.getElem?_eq_some_iff.mp hself
          exact ⟨k, hlt, by rw [hget, ← hpos, Placed.set_position]⟩
        · have hlr : Placed.list r = listId := by
            rw [← hl]; exact (list_repositioned listId updates r).symm
          have hmem : r ∈ (others R db listId m).insertIdx k x :=
            (List.mem_insertIdx hkl).mpr (.inr (mem_others.mpr ⟨⟨hr, hlr⟩, hne⟩))
          obtain ⟨i, hlt, hget⟩ := List.mem_iff_getElem.mp hmem
          refine ⟨i, hlt, ?_⟩
          rcases hentry i r (by rw [List.getElem?_eq_getElem hlt, hget]) with ⟨rfl, _⟩ | ⟨_, heq⟩
          · exact absurd hid hne
          · rw [hget, heq]
  refine ⟨?_, ?_, ?_⟩
  · rw [hord, ← hidsr]
    apply List.ext_getElem
    · simp
    · intro i h h'
      simp [Patch.id_apply]
  · intro r hr hne
    exact ⟨_, (hrows _).mpr (.inr ⟨r, hr, hne, rfl⟩), id_repositioned listId updates r,
      list_repositioned listId updates r, position_repositioned updates⟩
  · intro r' hr' hne
    rcases (hrows r').mp hr' with rfl | ⟨r, hr, _, rfl⟩
    · exact absurd hid hne
    · exact ⟨r, hr, id_repositioned listId updates r, list_repositioned listId updates r,
        position_repositioned updates⟩

theorem PlacedAt.of_rows {db₂ : Db} (hdb : rows R db₂ = rows R db')
    (h : PlacedAt R db db' listId m k) : PlacedAt R db db₂ listId m k := by
  refine ⟨?_, ?_, ?_⟩
  · have hord : ordered R db₂ listId = ordered R db' listId := by simp only [ordered, hdb]
    rw [hord]
    exact h.order
  · rw [hdb]; exact h.kept
  · rw [hdb]; exact h.old

/-- The positions a rebalance of the list hands out. -/
def respreadPositions (R : Type) [Model R] [Placed R] (db : Db) (listId m : Id) : List Position :=
  rebalancePositions ((othersIds R db listId m).length + 1)

/-- What a rebalance writes around row `m`. -/
def respreadUpdates (R : Type) [Model R] [Placed R] (db : Db) (listId m : Id) (k : Nat) :
    List PositionUpdate :=
  (respread ((othersIds R db listId m).insertIdx k m) (respreadPositions R db listId m)).filter
    fun u => u.id ≠ m

theorem siblings_of_fresh (hm : ∀ r ∈ rows R db, Model.id r ≠ m) (listId : Id) :
    siblings R db listId = (others R db listId m).map toSibling := by
  rw [siblings, others_of_fresh hm]

@[simp] theorem length_othersIds (R : Type) [Model R] [Placed R] (db : Db) (listId m : Id) :
    (othersIds R db listId m).length = (others R db listId m).length := by
  simp [othersIds]

/-- A create's updates are those of a rebalance around the new row. -/
theorem createUpdates_siblings (hk : k ≤ (others R db listId m).length) :
    createUpdates ((others R db listId m).map toSibling) k
        (rebalancePositions (((others R db listId m).map toSibling).length + 1)) =
      respreadUpdates R db listId m k := by
  have hm : ∀ item ∈ (others R db listId m).map toSibling, Positioned.id item ≠ m := by
    intro item hi
    obtain ⟨r, hr, rfl⟩ := List.mem_map.mp hi
    exact (mem_others.mp hr).2
  rw [createUpdates_eq hm (by simpa using hk), ids_toSibling]
  simp [respreadUpdates, respreadPositions, othersIds]

/-- So are a move's. -/
theorem moveUpdates_siblings (hk : k ≤ (others R db listId m).length) (p : Position) :
    moveUpdates (((others R db listId m).map toSibling).insertIdx k ⟨m, p⟩) m
        (rebalancePositions (((others R db listId m).map toSibling).insertIdx k ⟨m, p⟩).length) =
      respreadUpdates R db listId m k := by
  rw [moveUpdates_eq, List.map_insertIdx, ids_toSibling,
    List.length_insertIdx_of_le_length (by simpa using hk)]
  simp [respreadUpdates, respreadPositions, othersIds, Positioned.id]

/-- A rebalance around row `m` does not write it. -/
theorem repositioned_moved {x : R} (hid : Model.id x = m) :
    repositioned listId (respreadUpdates R db listId m k) x = x := by
  have hnone : (respreadUpdates R db listId m k).find? (fun u => u.id = Model.id x) = none := by
    rw [List.find?_eq_none]
    intro u hu heq
    exact absurd (by simpa [hid] using heq) (by simpa using (List.mem_filter.mp hu).2)
  simp only [repositioned, hnone, ite_self]

/-- The row first, then the others around it. -/
theorem rows_put_then_respread {x : R} (hid : Model.id x = m) (r' : R) :
    (∃ r ∈ rows R (db.put (Model.row x)),
        r' = repositioned listId (respreadUpdates R db listId m k) r) ↔
      r' = x ∨ ∃ r ∈ rows R db, Model.id r ≠ m ∧
        r' = repositioned listId (respreadUpdates R db listId m k) r := by
  simp only [mem_rows_put, hid]
  constructor
  · rintro ⟨r, rfl | ⟨hr, hne⟩, rfl⟩
    · exact .inl (repositioned_moved hid)
    · exact .inr ⟨r, hr, hne, rfl⟩
  · rintro (rfl | ⟨r, hr, hne, rfl⟩)
    · exact ⟨r', .inl rfl, (repositioned_moved hid).symm⟩
    · exact ⟨r, .inr ⟨hr, hne⟩, rfl⟩

theorem others_sorted (R : Type) [Model R] [Placed R] (db : Db) (listId m : Id) :
    ((others R db listId m).map toSibling).Pairwise
      fun a b => Positioned.position a ≤ Positioned.position b :=
  List.pairwise_map.mpr ((others_lt R db listId m).imp position_le_of_rank_lt)

/-- Whichever branch a slot took, the row is in it. -/
theorem placedAt_slot {x : R} (hid : Model.id x = m) (hlist : Placed.list x = listId)
    {prevId nextId : Option Id} {slot : InsertionSlot Sibling}
    (hslot : SlotOf ((others R db listId m).map toSibling) prevId nextId slot)
    (h : (needsRebalance (slot.prev.map Sibling.position) (slot.next.map Sibling.position) = false ∧
        Placed.position x =
          midpoint (slot.prev.map Sibling.position) (slot.next.map Sibling.position) ∧
        ∀ r', r' ∈ rows R db' ↔ r' = x ∨ (r' ∈ rows R db ∧ Model.id r' ≠ m)) ∨
      (Placed.position x = (respreadPositions R db listId m).getD slot.insertionIndex 0 ∧
        ∀ r', r' ∈ rows R db' ↔ r' = x ∨ ∃ r ∈ rows R db, Model.id r ≠ m ∧
          r' = repositioned listId (respreadUpdates R db listId m slot.insertionIndex) r)) :
    PlacedAt R db db' listId m slot.insertionIndex := by
  have hk : slot.insertionIndex ≤ (others R db listId m).length := by simpa using hslot.le
  rcases h with ⟨hn, hpos, hrows⟩ | ⟨hpos, hrows⟩
  · have hprev := congrArg InsertionSlot.prev hslot.slice
    have hnext := congrArg InsertionSlot.next hslot.slice
    obtain ⟨hbefore, hafter⟩ := midpoint_between (others_sorted R db listId m) hslot.le
      (congrArg (Option.map Sibling.position) hprev) (congrArg (Option.map Sibling.position) hnext) hn
    have hgap := minGap_pos
    refine placedAt_midpoint hid hlist hk ?_ ?_ hrows
    · intro r hr
      have := hbefore (toSibling r) (by rw [← List.map_take]; exact List.mem_map_of_mem hr)
      have hle : Placed.position r + minGap / 2 ≤ Placed.position x := by rw [hpos]; exact this
      linarith
    · intro r hr
      have := hafter (toSibling r) (by rw [← List.map_drop]; exact List.mem_map_of_mem hr)
      have hle : Placed.position x + minGap / 2 ≤ Placed.position r := by rw [hpos]; exact this
      linarith
  · exact placedAt_rebalance hid hlist (by simpa [othersIds] using hk) rfl hpos rfl hrows

/-- Making room for a new row and then inserting it, alone, puts it in its slot. -/
theorem placedAt_create {env : Env kurul} {w w' : World kurul} {x : R} (hid : Model.id x = m)
    (hlist : Placed.list x = listId) {prevId : Option Id} {message : JsString}
    {slot : InsertionSlot Sibling}
    (hslot : resolveCreateNeighbors (siblings R w.db listId) prevId message = .ok slot)
    {p : Position} (hroom : (makeRoom R listId (siblings R w.db listId) slot).run env w = (.ok p, w'))
    (hpos : Placed.position x = p) (hnew : insertRefusal (Model.row x) w'.db = none)
    (hdb' : rows R db' = rows R (w'.db.put (Model.row x))) :
    (∀ r ∈ rows R w.db, Model.id r ≠ m) ∧
      SlotOf ((others R w.db listId m).map toSibling) prevId none slot ∧
      PlacedAt R w.db db' listId m slot.insertionIndex := by
  have hcases := run_makeRoom_ok hroom
  -- Both branches keep the ids the list had, so the new id is new to it.
  have hfresh : ∀ r ∈ rows R w.db, Model.id r ≠ m := by
    intro r hr
    rw [← hid]
    rcases hcases with ⟨_, _, hw'⟩ | ⟨_, hrows⟩
    · exact not_mem_of_insertRefusal hnew r (by rw [hw']; exact hr)
    · have hne := not_mem_of_insertRefusal hnew _ ((hrows _).mpr ⟨r, hr, rfl⟩)
      rwa [id_repositioned] at hne
  have hsib := siblings_of_fresh hfresh listId
  rw [hsib] at hslot hcases
  have hof := resolveCreateNeighbors_ok hslot
  have hk : slot.insertionIndex ≤ (others R w.db listId m).length := by simpa using hof.le
  have hrows : ∀ r', r' ∈ rows R db' ↔ r' = x ∨ (r' ∈ rows R w'.db ∧ Model.id r' ≠ m) := by
    intro r'
    rw [hdb', mem_rows_put, hid]
  refine ⟨hfresh, hof, placedAt_slot hid hlist hof ?_⟩
  rcases hcases with ⟨hn, hp, hw'⟩ | ⟨hp, hup⟩
  · refine .inl ⟨hn, by rw [hpos, hp], fun r' => ?_⟩
    rw [hrows, hw']
  · refine .inr ⟨by rw [hpos, hp]; simp [respreadPositions], fun r' => ?_⟩
    rw [hrows, ← createUpdates_siblings hk]
    simp only [hup]
    constructor
    · rintro (h | ⟨⟨r, hr, rfl⟩, _⟩)
      · exact .inl h
      · exact .inr ⟨r, hr, hfresh r hr, rfl⟩
    · rintro (h | ⟨r, hr, hne, rfl⟩)
      · exact .inl h
      · exact .inr ⟨⟨r, hr, rfl⟩, by rwa [id_repositioned]⟩

/-- The rows after either branch of a move of row `m`, which left it as `x`. -/
def Moved (x : R) (db db' : Db) (listId m : Id) (remaining : List Sibling)
    (slot : InsertionSlot Sibling) : Prop :=
  (needsRebalance (slot.prev.map Sibling.position) (slot.next.map Sibling.position) = false ∧
    Placed.position x =
      midpoint (slot.prev.map Sibling.position) (slot.next.map Sibling.position) ∧
    rows R db' = rows R (db.put (Model.row x))) ∨
  needsRebalance (slot.prev.map Sibling.position) (slot.next.map Sibling.position) = true ∧
  ∃ q reordered, reordered = remaining.insertIdx slot.insertionIndex ⟨m, q⟩ ∧
    Placed.position x = (rebalancePositions reordered.length).getD slot.insertionIndex 0 ∧
    ∀ r', r' ∈ rows R db' ↔ ∃ r ∈ rows R (db.put (Model.row x)), r' = repositioned listId
      (moveUpdates reordered m (rebalancePositions reordered.length)) r

theorem Moved.of_rows {x : R} {db₂ : Db} {remaining : List Sibling} {slot : InsertionSlot Sibling}
    (hdb : rows R db₂ = rows R db') (h : Moved x db db' listId m remaining slot) :
    Moved x db db₂ listId m remaining slot := by
  unfold Moved
  rw [hdb]
  exact h

/-- A move, alone, puts its row in its slot. -/
theorem placedAt_move {x : R} (hid : Model.id x = m) (hlist : Placed.list x = listId)
    {prevId nextId : Option Id} {slot : InsertionSlot Sibling}
    (hslot : resolveMoveNeighbors ((siblings R db listId).filter fun s => s.id ≠ m) prevId nextId =
      .ok slot)
    (h : Moved x db db' listId m ((siblings R db listId).filter fun s => s.id ≠ m) slot) :
    SlotOf ((others R db listId m).map toSibling) prevId nextId slot ∧
      PlacedAt R db db' listId m slot.insertionIndex := by
  rw [siblings_filter] at hslot h
  have hof := resolveMoveNeighbors_ok hslot
  have hk : slot.insertionIndex ≤ (others R db listId m).length := by simpa using hof.le
  refine ⟨hof, placedAt_slot hid hlist hof ?_⟩
  rcases h with ⟨hn, hp, hrows⟩ | ⟨_, q, l, rfl, hp, hrows⟩
  · refine .inl ⟨hn, hp, fun r' => ?_⟩
    rw [hrows, mem_rows_put, hid]
  · rw [moveUpdates_siblings hk] at hrows
    refine .inr ⟨?_, fun r' => ?_⟩
    · rw [hp, List.length_insertIdx_of_le_length (by simpa using hk)]
      simp [respreadPositions]
    · rw [hrows]
      exact rows_put_then_respread hid r'

/-- Row `m` went into a slot of a list, right after `prevId` and right before `nextId` where these
name rows. -/
structure Inserted (R : Type) [Model R] [Placed R] (db db' : Db) (listId m : Id)
    (slot : InsertionSlot Sibling) (prevId nextId : Option Id) : Prop where
  placed : PlacedAt R db db' listId m slot.insertionIndex
  prev : ∀ p, prevId = some p → p ≠ [] → Adjacent ((ordered R db' listId).map Model.id) p m
  next : ∀ n, nextId = some n → n ≠ [] → Adjacent ((ordered R db' listId).map Model.id) m n

theorem SlotOf.inserted {prevId nextId : Option Id} {slot : InsertionSlot Sibling}
    (hs : SlotOf ((others R db listId m).map toSibling) prevId nextId slot)
    (hp : PlacedAt R db db' listId m slot.insertionIndex) :
    Inserted R db db' listId m slot prevId nextId :=
  ⟨hp, (hs.adjacent hp.order).1, (hs.adjacent hp.order).2⟩

end Placement
end Kurul
