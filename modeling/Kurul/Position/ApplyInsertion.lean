import Kurul.Db.Prisma
import Kurul.Order.SortBy
import Kurul.Position.FractionalIndex

/-!
# Kurul.Position.ApplyInsertion

Where a row goes into an ordered list, from the neighbours the request names, and the two ways of
making room for it: a position between the neighbours, or fresh positions for everyone.

* `resolveMoveNeighbors_ok`, `resolveCreateNeighbors_ok` — an accepted request's slot is next to
  every neighbour it names.
* `midpoint_between` — the midpoint of a slot is clear of everything before and after it.
* `createUpdates_eq` — a create respreads its siblings as a move of the new row would.
-/

namespace Kurul

/-- A row as the ordering arithmetic sees it. -/
class Positioned (T : Type) where
  id : T → Id
  position : T → Position

/-- `select: { id: true, position: true }`. -/
structure Sibling where
  id : Id
  position : Position
  deriving DecidableEq

instance : Positioned Sibling := ⟨Sibling.id, Sibling.position⟩

structure InsertionSlot (T : Type) where
  insertionIndex : Nat
  prev : Option T
  next : Option T

variable {T : Type}

def sliceSlot (items : List T) (insertionIndex : Nat) : InsertionSlot T where
  insertionIndex := insertionIndex
  prev := if insertionIndex = 0 then none else items[insertionIndex - 1]?
  next := items[insertionIndex]?

theorem mem_of_sliceSlot (items : List T) (k : Nat) :
    (∀ s, (sliceSlot items k).prev = some s → s ∈ items) ∧
    (∀ s, (sliceSlot items k).next = some s → s ∈ items) := by
  refine ⟨fun s hs => ?_, fun s hs => List.mem_of_getElem? hs⟩
  simp only [sliceSlot] at hs
  split at hs
  · cases hs
  · exact List.mem_of_getElem? hs

section Resolve

variable [Positioned T]

/-- `items.findIndex((item) => item.id === id)`, with `none` for `-1`. -/
def findIndex (items : List T) (i : Id) : Option Nat :=
  items.findIdx? fun item => Positioned.id item = i

/-- Both neighbours were found, and do not stand next to each other in this order. -/
def apart : Option Nat → Option Nat → Bool
  | some p, some n => n ≠ p + 1
  | _, _ => false

def moveIndex (length : Nat) : Option Nat → Option Nat → Nat
  | some p, _ => p + 1
  | none, some n => n
  | none, none => length

/-- Slot for a row being moved, among the others. -/
def resolveMoveNeighbors (remaining : List T) (prevId nextId : Option Id) :
    Except ApiError (InsertionSlot T) :=
  let prevIndex := prevId.bind (findIndex remaining)
  let nextIndex := nextId.bind (findIndex remaining)
  if (prevId.any truthy && prevIndex.isNone) || (nextId.any truthy && nextIndex.isNone) ||
      apart prevIndex nextIndex then
    .error (.notFound (js "Neighbor not found"))
  else
    .ok (sliceSlot remaining (moveIndex remaining.length prevIndex nextIndex))

/-- Slot for a new row, after the sibling it names or at the end. `siblings.indexOf(prev)` compares
references, so it finds the very entry `find` or `at(-1)` returned. -/
def resolveCreateNeighbors (siblings : List T) (prevId : Option Id) (notFoundMessage : JsString) :
    Except ApiError (InsertionSlot T) :=
  match prevId.filter truthy with
  | some i =>
    match findIndex siblings i with
    | some index => .ok (sliceSlot siblings (index + 1))
    | none => .error (.notFound notFoundMessage)
  | none => .ok (sliceSlot siblings siblings.length)

theorem findIndex_eq_some {items : List T} {i : Id} {k : Nat} (h : findIndex items i = some k) :
    ∃ item, items[k]? = some item ∧ Positioned.id item = i := by
  obtain ⟨hlt, hid, _⟩ := List.findIdx?_eq_some_iff_getElem.mp h
  exact ⟨items[k], List.getElem?_eq_getElem hlt, by simpa using hid⟩

theorem findIndex_lt {items : List T} {i : Id} {k : Nat} (h : findIndex items i = some k) :
    k < items.length :=
  (List.findIdx?_eq_some_iff_getElem.mp h).1

theorem findIndex_getElem {items : List T} (hnd : (items.map Positioned.id).Nodup) {k : Nat}
    (hk : k < items.length) : findIndex items (Positioned.id items[k]) = some k := by
  rw [findIndex, List.findIdx?_eq_some_iff_getElem]
  refine ⟨hk, by simp, fun j hj => ?_⟩
  have hne := List.pairwise_iff_getElem.mp (List.pairwise_map.mp hnd) j k (by omega) hk hj
  simpa using hne

/-- Neighbours that are all found are refused only for standing apart. -/
theorem resolveMoveNeighbors_of_found {remaining : List T} {prevId nextId : Option Id}
    (hprev : ∀ p, prevId = some p → (findIndex remaining p).isSome = true)
    (hnext : ∀ n, nextId = some n → (findIndex remaining n).isSome = true) :
    resolveMoveNeighbors remaining prevId nextId =
      if apart (prevId.bind (findIndex remaining)) (nextId.bind (findIndex remaining)) then
        .error (.notFound (js "Neighbor not found"))
      else .ok (sliceSlot remaining (moveIndex remaining.length (prevId.bind (findIndex remaining))
        (nextId.bind (findIndex remaining)))) := by
  have hfound : ∀ o : Option Id, (∀ x, o = some x → (findIndex remaining x).isSome = true) →
      (o.any truthy && (o.bind (findIndex remaining)).isNone) = false := by
    intro o ho
    cases o with
    | none => rfl
    | some x => simp [ho x rfl]
  simp only [resolveMoveNeighbors, hfound prevId hprev, hfound nextId hnext, Bool.false_or]

/-- The index of an accepted request, from where its neighbours were found. -/
theorem insertionIndex_of_found {remaining : List T} {prevId nextId : Option Id}
    {slot : InsertionSlot T} (h : resolveMoveNeighbors remaining prevId nextId = .ok slot) :
    (∀ p i, prevId = some p → findIndex remaining p = some i → slot.insertionIndex = i + 1) ∧
    (∀ n j, nextId = some n → findIndex remaining n = some j → slot.insertionIndex = j) := by
  simp only [resolveMoveNeighbors] at h
  split at h
  · cases h
  · rename_i hok
    simp only [Bool.or_eq_true, not_or] at hok
    obtain rfl := (Except.ok.inj h).symm
    refine ⟨?_, ?_⟩
    · rintro p i rfl hi
      simp [sliceSlot, hi, moveIndex]
    · rintro n j rfl hj
      have hadj := hok.2
      cases hp : prevId.bind (findIndex remaining) with
      | none => simp [sliceSlot, hj, moveIndex]
      | some i =>
        rw [hp] at hadj
        simp only [Option.bind_some, hj, apart] at hadj
        simpa [sliceSlot, moveIndex] using (by simpa using hadj : j = i + 1).symm

/-- A slot next to the neighbours a request names: `prevId` right before it, `nextId` right
after. An empty id names nobody. -/
structure SlotOf (items : List T) (prevId nextId : Option Id) (slot : InsertionSlot T) :
    Prop where
  slice : slot = sliceSlot items slot.insertionIndex
  le : slot.insertionIndex ≤ items.length
  prev : ∀ p, prevId = some p → p ≠ [] → 0 < slot.insertionIndex ∧
    ∃ item, items[slot.insertionIndex - 1]? = some item ∧ Positioned.id item = p
  next : ∀ n, nextId = some n → n ≠ [] →
    ∃ item, items[slot.insertionIndex]? = some item ∧ Positioned.id item = n

theorem resolveMoveNeighbors_ok {remaining : List T} {prevId nextId : Option Id}
    {slot : InsertionSlot T} (h : resolveMoveNeighbors remaining prevId nextId = .ok slot) :
    SlotOf remaining prevId nextId slot := by
  simp only [resolveMoveNeighbors] at h
  split at h
  · cases h
  · rename_i hok
    simp only [Bool.or_eq_true, Bool.and_eq_true, not_or, not_and] at hok
    obtain ⟨⟨hprev, hnext⟩, hadj⟩ := hok
    obtain rfl := (Except.ok.inj h).symm
    cases hp : prevId.bind (findIndex remaining) with
    | some p =>
      obtain ⟨i, hi, hfind⟩ := Option.bind_eq_some_iff.mp hp
      refine ⟨rfl, findIndex_lt hfind, ?_, ?_⟩
      · rintro q rfl _
        obtain rfl : q = i := Option.some.inj hi
        exact ⟨Nat.succ_pos p, findIndex_eq_some hfind⟩
      · rintro q rfl hq
        cases hn : findIndex remaining q with
        | none => exact absurd (by simp [hn]) (hnext (by simpa using hq))
        | some n =>
          have hsucc : n = p + 1 := by simpa [apart, hp, hn] using hadj
          subst hsucc
          exact findIndex_eq_some hn
    | none =>
      have hnoPrev : ∀ q, prevId = some q → q = [] := by
        rintro q rfl
        by_contra hq
        exact hprev (by simpa using hq) (by simp [hp])
      cases hn : nextId.bind (findIndex remaining) with
      | some n =>
        obtain ⟨i, hi, hfind⟩ := Option.bind_eq_some_iff.mp hn
        refine ⟨rfl, (findIndex_lt hfind).le, fun q hq hne => absurd (hnoPrev q hq) hne, ?_⟩
        rintro q rfl _
        obtain rfl : q = i := Option.some.inj hi
        exact findIndex_eq_some hfind
      | none =>
        refine ⟨rfl, le_refl _, fun q hq hne => absurd (hnoPrev q hq) hne, ?_⟩
        rintro q rfl hq
        exact absurd (by simp [hn]) (hnext (by simpa using hq))

theorem resolveCreateNeighbors_ok {siblings : List T} {prevId : Option Id} {m : JsString}
    {slot : InsertionSlot T} (h : resolveCreateNeighbors siblings prevId m = .ok slot) :
    SlotOf siblings prevId none slot := by
  simp only [resolveCreateNeighbors] at h
  cases hp : prevId.filter truthy with
  | none =>
    rw [hp] at h
    obtain rfl := (Except.ok.inj h).symm
    refine ⟨rfl, le_refl _, ?_, by simp⟩
    rintro q rfl hq
    have : truthy q = true := truthy_iff.mpr hq
    simp [Option.filter, this] at hp
  | some i =>
    rw [hp] at h
    simp only at h
    obtain ⟨hi, _⟩ := Option.filter_eq_some_iff.mp hp
    cases hf : findIndex siblings i with
    | none => rw [hf] at h; cases h
    | some k =>
      rw [hf] at h
      obtain rfl := (Except.ok.inj h).symm
      refine ⟨rfl, findIndex_lt hf, ?_, by simp⟩
      rintro q rfl _
      obtain rfl : q = i := Option.some.inj hi
      exact ⟨Nat.succ_pos k, findIndex_eq_some hf⟩

/-- The midpoint of a slot that needs no rebalance keeps `minGap / 2` to every row. -/
theorem midpoint_between {items : List T}
    (hs : items.Pairwise fun a b => Positioned.position a ≤ Positioned.position b) {k : Nat}
    (hk : k ≤ items.length) {prev next : Option Position}
    (hprev : prev = (sliceSlot items k).prev.map Positioned.position)
    (hnext : next = (sliceSlot items k).next.map Positioned.position)
    (hn : needsRebalance prev next = false) :
    (∀ a ∈ items.take k, Positioned.position a + minGap / 2 ≤ midpoint prev next) ∧
    (∀ a ∈ items.drop k, midpoint prev next + minGap / 2 ≤ Positioned.position a) := by
  obtain ⟨hbefore, hafter⟩ := midpoint_gap hn
  constructor
  · refine forall_take_of_pairwise hs ?_ (fun a b hab hb => by linarith) hk
    intro a ha hpos
    apply hbefore
    simp [hprev, sliceSlot, ha, Nat.pos_iff_ne_zero.mp hpos]
  · refine forall_drop_of_pairwise hs ?_ (fun a b hab ha => by linarith)
    intro a ha
    apply hafter
    simp [hnext, sliceSlot, ha]

end Resolve

/-! ## Respreading -/

structure PositionUpdate where
  id : Id
  position : Position
  deriving DecidableEq

section Respread

variable [Positioned T]

/-- What a create writes to its siblings: they shift around the slot. Every index is in range. -/
def createUpdates (siblings : List T) (insertionIndex : Nat) (positions : List Position) :
    List PositionUpdate :=
  siblings.mapIdx fun index item =>
    ⟨Positioned.id item, positions.getD (if index < insertionIndex then index else index + 1) 0⟩

/-- What a move writes to the rows around the moved one. -/
def moveUpdates (reordered : List T) (movedId : Id) (positions : List Position) :
    List PositionUpdate :=
  ((reordered.mapIdx fun index item => (item, index)).filter
    fun p => Positioned.id p.1 ≠ movedId).map
      fun p => ⟨Positioned.id p.1, positions.getD p.2 0⟩

/-- Every id of a list with the position at its index. -/
def respread (ids : List Id) (positions : List Position) : List PositionUpdate :=
  ids.mapIdx fun index i => ⟨i, positions.getD index 0⟩

theorem moveUpdates_eq (l : List T) (m : Id) (positions : List Position) :
    moveUpdates l m positions =
      (respread (l.map Positioned.id) positions).filter fun u => u.id ≠ m := by
  have hsplit : respread (l.map Positioned.id) positions =
      (l.mapIdx fun index item => (item, index)).map
        fun p => ⟨Positioned.id p.1, positions.getD p.2 0⟩ := by
    apply List.ext_getElem
    · simp [respread]
    · intro i h h'
      simp [respread]
  rw [hsplit, List.filter_map]
  rfl

/-- A create's siblings get the positions a move of the new row would give them. The induction is
on the siblings, with the slot and the positions shifting together. -/
theorem createUpdates_eq {m : Id} {l : List T} (hm : ∀ item ∈ l, Positioned.id item ≠ m) {k : Nat}
    (hk : k ≤ l.length) (positions : List Position) :
    createUpdates l k positions =
      (respread ((l.map Positioned.id).insertIdx k m) positions).filter fun u => u.id ≠ m := by
  have main : ∀ (l : List T) (k : Nat) (pos : Nat → Position),
      (∀ item ∈ l, Positioned.id item ≠ m) → k ≤ l.length →
      (l.mapIdx fun index item =>
          (⟨Positioned.id item, pos (if index < k then index else index + 1)⟩ : PositionUpdate)) =
        (((l.map Positioned.id).insertIdx k m).mapIdx fun index i =>
          ⟨i, pos index⟩).filter fun u => u.id ≠ m := by
    intro l
    induction l with
    | nil =>
      intro k pos _ hk
      obtain rfl : k = 0 := by simpa using hk
      simp
    | cons a l ih =>
      intro k pos hm hk
      have ha : Positioned.id a ≠ m := hm a (by simp)
      have hl : ∀ item ∈ l, Positioned.id item ≠ m :=
        fun item h => hm item (List.mem_cons_of_mem a h)
      cases k with
      | zero =>
        have hall : ∀ u ∈ ((a :: l).map Positioned.id).mapIdx fun index i =>
            (⟨i, pos (index + 1)⟩ : PositionUpdate), decide (u.id ≠ m) = true := by
          intro u hu
          obtain ⟨j, hj, rfl⟩ := List.mem_mapIdx.mp hu
          rw [List.getElem_map]
          exact decide_eq_true (hm _ (List.getElem_mem _))
        rw [List.insertIdx_zero, List.mapIdx_cons (l := (a :: l).map Positioned.id),
          List.filter_cons_of_neg (by simp), List.filter_eq_self.mpr hall]
        apply List.ext_getElem
        · simp
        · intro i h h'
          simp only [List.getElem_mapIdx, List.getElem_map, Nat.not_lt_zero, if_false]
      | succ k =>
        have hstep := ih k (fun i => pos (i + 1)) hl (by simpa using hk)
        simp only [List.map_cons, List.insertIdx_succ_cons, List.mapIdx_cons]
        rw [List.filter_cons_of_pos (by simpa using ha), ← hstep]
        congr 1
        apply List.mapIdx_eq_mapIdx_iff.mpr
        intro i hi
        by_cases h : i < k
        · simp [h]
        · simp [h]
  exact main l k (fun i => positions.getD i 0) hm hk

end Respread
end Kurul
