import Kurul.Position.ApplyInsertion

/-!
# Kurul.Position.Slots

The two resolvers of a slot, on a list of rows with distinct ids: which requests they accept, what
the slot is, and when they agree.

* `findIndex_iff`       — where a row is found: at its place, and nowhere else.
* `resolveMoveNeighbors_isOk` — a move is refused for an id that names nobody, or for neighbours
  that are not next to each other.
* `resolveCreateNeighbors_eq` — a create is a move behind the same row, before its successor. The
  one exception is a row with the empty id: a create cannot name it, a move can.
-/

namespace Kurul

section Slots

variable {T : Type} {rows : List T}

theorem sliceSlot_prev {k : Nat} (hk : k ≤ rows.length) :
    (sliceSlot rows k).prev = (rows.take k).getLast? := by
  simp only [sliceSlot, List.getLast?_eq_getElem?, List.length_take, Nat.min_eq_left hk]
  split
  · rename_i h
    simp [h]
  · rw [List.getElem?_take_of_lt (by omega)]

theorem sliceSlot_next (k : Nat) : (sliceSlot rows k).next = (rows.drop k).head? := by
  simp [sliceSlot, List.head?_drop]

variable [Positioned T]

/-- The id of the row behind the one with this id. -/
def successor (rows : List T) (x : Id) : Option Id :=
  (findIndex rows x).bind fun i => rows[i + 1]?.map Positioned.id

/-- Every non-empty id given is some row's, and the rows named stand next to each other. -/
structure Nameable (rows : List T) (prevId nextId : Option Id) : Prop where
  present : ∀ x, prevId = some x ∨ nextId = some x → x ≠ [] → ∃ r ∈ rows, Positioned.id r = x
  adjacent : ∀ r ∈ rows, ∀ s ∈ rows, prevId = some (Positioned.id r) →
    nextId = some (Positioned.id s) → [r, s] <:+: rows

/-- A slot of the list, between the rows around its index and next to the rows named. -/
structure SlotAmong (rows : List T) (prevId nextId : Option Id) (slot : InsertionSlot T) :
    Prop where
  le : slot.insertionIndex ≤ rows.length
  prev_row : slot.prev = (rows.take slot.insertionIndex).getLast?
  next_row : slot.next = (rows.drop slot.insertionIndex).head?
  prev_null : slot.prev = none ↔ slot.insertionIndex = 0
  next_null : slot.next = none ↔ slot.insertionIndex = rows.length
  prev_named : ∀ r ∈ rows, prevId = some (Positioned.id r) → slot.prev = some r
  next_named : ∀ r ∈ rows, nextId = some (Positioned.id r) → slot.next = some r

/-! ## Where a row is found -/

theorem findIndex_iff (hnd : (rows.map Positioned.id).Nodup) {x : Id} {k : Nat} :
    findIndex rows x = some k ↔ ∃ r, rows[k]? = some r ∧ Positioned.id r = x := by
  constructor
  · exact findIndex_eq_some
  · rintro ⟨r, hr, rfl⟩
    obtain ⟨hk, rfl⟩ := List.getElem?_eq_some_iff.mp hr
    exact findIndex_getElem hnd hk

theorem findIndex_isNone {x : Id} :
    (findIndex rows x).isNone = true ↔ ¬∃ r ∈ rows, Positioned.id r = x := by
  simp [findIndex]

theorem exists_findIndex {r : T} (hr : r ∈ rows) : ∃ k, findIndex rows (Positioned.id r) = some k := by
  cases h : findIndex rows (Positioned.id r) with
  | some k => exact ⟨k, rfl⟩
  | none => exact absurd ⟨r, hr, rfl⟩ (findIndex_isNone.mp (by simp [h]))

/-- Two rows of one id are one row. -/
theorem getElem?_findIndex (hnd : (rows.map Positioned.id).Nodup) {r : T} {k : Nat} (hr : r ∈ rows)
    (hk : findIndex rows (Positioned.id r) = some k) : rows[k]? = some r := by
  obtain ⟨m, hm⟩ := List.mem_iff_getElem?.mp hr
  have hfound := (findIndex_iff hnd).mpr ⟨r, hm, rfl⟩
  rw [hk] at hfound
  cases hfound
  exact hm

theorem infix_iff_findIndex (hnd : (rows.map Positioned.id).Nodup) {r s : T} {i j : Nat}
    (hi : findIndex rows (Positioned.id r) = some i) (hr : r ∈ rows)
    (hj : findIndex rows (Positioned.id s) = some j) (hs : s ∈ rows) :
    [r, s] <:+: rows ↔ j = i + 1 := by
  have hir := getElem?_findIndex hnd hr hi
  have hjs := getElem?_findIndex hnd hs hj
  rw [List.infix_iff_getElem?]
  constructor
  · rintro ⟨k, hle, hk⟩
    have h0 := hk 0 (by simp)
    have h1 := hk 1 (by simp)
    simp only [Nat.zero_add, List.getElem_cons_zero, List.getElem_cons_succ] at h0 h1
    have hki := (findIndex_iff hnd).mpr ⟨r, h0, rfl⟩
    have hkj := (findIndex_iff hnd).mpr ⟨s, h1, rfl⟩
    rw [hi] at hki
    rw [hj] at hkj
    cases hki
    cases hkj
    omega
  · rintro rfl
    obtain ⟨hlt, _⟩ := List.getElem?_eq_some_iff.mp hjs
    refine ⟨i, by simp; omega, ?_⟩
    intro k hk
    cases k with
    | zero => simpa using hir
    | succ k =>
      obtain rfl : k = 0 := by simp at hk; omega
      simpa [Nat.add_comm] using hjs

/-! ## Moves -/

theorem apart_eq_false {p n : Option Nat} :
    apart p n = false ↔ ∀ i j, p = some i → n = some j → j = i + 1 := by
  cases p with
  | none => simp [apart]
  | some i =>
    cases n with
    | none => simp [apart]
    | some j => simp [apart]

theorem missing_eq_false {o : Option Id} :
    (o.any truthy && (o.bind (findIndex rows)).isNone) = false ↔
      ∀ x, o = some x → x ≠ [] → ∃ r ∈ rows, Positioned.id r = x := by
  cases o with
  | none => simp
  | some x =>
    have hnone : (findIndex rows x).isNone = true ↔ ¬∃ r ∈ rows, Positioned.id r = x :=
      findIndex_isNone
    rw [Bool.and_eq_false_imp]
    simp only [Option.any_some, truthy_iff, Option.bind_some, Option.some.injEq, forall_eq',
      ← Bool.not_eq_true, hnone, not_not]

theorem resolveMoveNeighbors_isOk (hnd : (rows.map Positioned.id).Nodup)
    (prevId nextId : Option Id) :
    (∃ slot, resolveMoveNeighbors rows prevId nextId = .ok slot) ↔ Nameable rows prevId nextId := by
  have hok : (∃ slot, resolveMoveNeighbors rows prevId nextId = .ok slot) ↔
      ((prevId.any truthy && (prevId.bind (findIndex rows)).isNone) = false ∧
        (nextId.any truthy && (nextId.bind (findIndex rows)).isNone) = false) ∧
        apart (prevId.bind (findIndex rows)) (nextId.bind (findIndex rows)) = false := by
    simp only [resolveMoveNeighbors]
    split
    · rename_i h
      simp only [Bool.or_eq_true] at h
      constructor
      · rintro ⟨slot, hslot⟩
        cases hslot
      · rintro ⟨⟨hp, hn⟩, ha⟩
        simp [hp, hn, ha] at h
    · rename_i h
      simp only [Bool.or_eq_true, not_or, Bool.not_eq_true] at h
      exact ⟨fun _ => h, fun _ => ⟨_, rfl⟩⟩
  rw [hok, missing_eq_false, missing_eq_false, apart_eq_false]
  constructor
  · rintro ⟨⟨hp, hn⟩, ha⟩
    refine ⟨fun x hx hne => hx.elim (hp x · hne) (hn x · hne), ?_⟩
    rintro r hr s hs rfl rfl
    obtain ⟨i, hi⟩ := exists_findIndex hr
    obtain ⟨j, hj⟩ := exists_findIndex hs
    exact (infix_iff_findIndex hnd hi hr hj hs).mpr (ha i j hi hj)
  · rintro ⟨hpres, hadj⟩
    refine ⟨⟨fun x hx => hpres x (.inl hx), fun x hx => hpres x (.inr hx)⟩, ?_⟩
    intro i j hi hj
    obtain ⟨x, rfl, hi⟩ := Option.bind_eq_some_iff.mp hi
    obtain ⟨y, rfl, hj⟩ := Option.bind_eq_some_iff.mp hj
    obtain ⟨r, hr, rfl⟩ := findIndex_eq_some hi
    obtain ⟨s, hs, rfl⟩ := findIndex_eq_some hj
    have hr := List.mem_of_getElem? hr
    have hs := List.mem_of_getElem? hs
    exact (infix_iff_findIndex hnd hi hr hj hs).mp (hadj r hr s hs rfl rfl)

theorem moveIndex_le (prevId nextId : Option Id) :
    moveIndex rows.length (prevId.bind (findIndex rows)) (nextId.bind (findIndex rows)) ≤
      rows.length := by
  cases hp : prevId.bind (findIndex rows) with
  | some i =>
    obtain ⟨_, _, hi⟩ := Option.bind_eq_some_iff.mp hp
    exact findIndex_lt hi
  | none =>
    cases hn : nextId.bind (findIndex rows) with
    | some j =>
      obtain ⟨_, _, hj⟩ := Option.bind_eq_some_iff.mp hn
      exact (findIndex_lt hj).le
    | none => exact le_refl _

theorem slotAmong_of_move (hnd : (rows.map Positioned.id).Nodup) {prevId nextId : Option Id}
    {slot : InsertionSlot T} (h : resolveMoveNeighbors rows prevId nextId = .ok slot) :
    SlotAmong rows prevId nextId slot := by
  have hslice := (resolveMoveNeighbors_ok h).slice
  have hle := (resolveMoveNeighbors_ok h).le
  obtain ⟨hprev, hnext⟩ := insertionIndex_of_found h
  have hprev_row : slot.prev = (rows.take slot.insertionIndex).getLast? := by
    rw [← sliceSlot_prev hle, ← hslice]
  have hnext_row : slot.next = (rows.drop slot.insertionIndex).head? := by
    rw [← sliceSlot_next, ← hslice]
  refine ⟨hle, hprev_row, hnext_row, ?_, ?_, ?_, ?_⟩
  · rw [hprev_row, List.getLast?_eq_none_iff, List.take_eq_nil_iff]
    constructor
    · rintro (h0 | rfl)
      · exact h0
      · simpa using hle
    · exact .inl
  · rw [hnext_row, List.head?_eq_none_iff, List.drop_eq_nil_iff]
    omega
  · rintro r hr rfl
    obtain ⟨i, hi⟩ := exists_findIndex hr
    have hidx := hprev _ i rfl hi
    rw [hslice, hidx]
    simpa [sliceSlot] using getElem?_findIndex hnd hr hi
  · rintro r hr rfl
    obtain ⟨j, hj⟩ := exists_findIndex hr
    have hidx := hnext _ j rfl hj
    rw [hslice, hidx]
    simpa [sliceSlot] using getElem?_findIndex hnd hr hj

/-! ## Creates -/

theorem resolveMoveNeighbors_successor (hnd : (rows.map Positioned.id).Nodup) {x : Id} {i : Nat}
    (hi : findIndex rows x = some i) :
    resolveMoveNeighbors rows (some x) (successor rows x) = .ok (sliceSlot rows (i + 1)) := by
  have hnext : (successor rows x).bind (findIndex rows) = (rows[i + 1]?).map fun _ => i + 1 := by
    simp only [successor, hi, Option.bind_some]
    cases hs : rows[i + 1]? with
    | none => rfl
    | some s => exact (findIndex_iff hnd).mpr ⟨s, hs, rfl⟩
  have hfound : ∀ y, successor rows x = some y → (findIndex rows y).isSome = true := by
    intro y hy
    simp only [successor, hi, Option.bind_some, Option.map_eq_some_iff] at hy
    obtain ⟨s, hs, rfl⟩ := hy
    simp [(findIndex_iff hnd).mpr ⟨s, hs, rfl⟩]
  rw [resolveMoveNeighbors_of_found (by simp [hi]) hfound, hnext, Option.bind_some, hi]
  cases rows[i + 1]? with
  | none => simp [apart, moveIndex]
  | some s => simp [apart, moveIndex]

/-- A row that is not found is a slot for nobody, and an empty id is no id. -/
theorem resolveMoveNeighbors_of_none {x : Id} (hx : findIndex rows x = none) :
    resolveMoveNeighbors rows (some x) (successor rows x) =
      if truthy x then .error (.notFound (js "Neighbor not found"))
      else .ok (sliceSlot rows rows.length) := by
  simp [resolveMoveNeighbors, successor, hx, apart, moveIndex]

theorem resolveCreateNeighbors_eq (hnd : (rows.map Positioned.id).Nodup) {x : Id}
    (hx : x = [] → ∀ r ∈ rows.dropLast, Positioned.id r ≠ []) (m : JsString)
    (slot : InsertionSlot T) :
    resolveCreateNeighbors rows (some x) m = .ok slot ↔
      resolveMoveNeighbors rows (some x) (successor rows x) = .ok slot := by
  by_cases hne : x = []
  · subst hne
    have hcreate : resolveCreateNeighbors rows (some []) m = .ok (sliceSlot rows rows.length) := rfl
    cases hf : findIndex rows ([] : Id) with
    | none =>
      rw [resolveMoveNeighbors_of_none hf, hcreate]
      rfl
    | some i =>
      -- the row with the empty id is the last one, so behind it is the end
      obtain ⟨r, hr, hid⟩ := findIndex_eq_some hf
      have hlt := findIndex_lt hf
      have hlast : i + 1 = rows.length := by
        by_contra hne
        refine hx rfl r ?_ hid
        rw [List.dropLast_eq_take]
        exact List.mem_take_iff_getElem.mpr
          ⟨i, by omega, (List.getElem?_eq_some_iff.mp hr).2⟩
      rw [resolveMoveNeighbors_successor hnd hf, hcreate, hlast]
  · have htrue : truthy x = true := truthy_iff.mpr hne
    cases hf : findIndex rows x with
    | none =>
      rw [resolveMoveNeighbors_of_none hf]
      simp [resolveCreateNeighbors, Option.filter, htrue, hf]
    | some i =>
      rw [resolveMoveNeighbors_successor hnd hf]
      simp [resolveCreateNeighbors, Option.filter, htrue, hf]

/-- Slots resolve soundly and completely, and creates as the moves they stand for. -/
theorem slots_resolve (hnd : (rows.map Positioned.id).Nodup) :
    (∀ prevId nextId,
      (∃ slot, resolveMoveNeighbors rows prevId nextId = .ok slot) ↔ Nameable rows prevId nextId) ∧
    (∀ prevId nextId slot, resolveMoveNeighbors rows prevId nextId = .ok slot →
      SlotAmong rows prevId nextId slot) ∧
    (∀ x, (x = [] → ∀ r ∈ rows.dropLast, Positioned.id r ≠ []) → ∀ m slot,
      resolveCreateNeighbors rows (some x) m = .ok slot ↔
        resolveMoveNeighbors rows (some x) (successor rows x) = .ok slot) ∧
    ∀ m, resolveCreateNeighbors rows none m = resolveMoveNeighbors rows none none :=
  ⟨resolveMoveNeighbors_isOk hnd, fun _ _ _ => slotAmong_of_move hnd,
    fun _ hx => resolveCreateNeighbors_eq hnd hx, fun _ => rfl⟩

end Slots

def twoSiblings : List Sibling := [⟨js "a", 1⟩, ⟨js "b", 2⟩]

theorem slots_resolve_two :
    (twoSiblings.map Positioned.id).Nodup ∧
      ∃ slot, resolveMoveNeighbors twoSiblings (some (js "a")) (some (js "b")) = .ok slot := by
  have hnd : (twoSiblings.map Positioned.id).Nodup := by decide
  refine ⟨hnd, ((slots_resolve hnd).1 _ _).mpr ⟨?_, ?_⟩⟩
  · rintro x (hx | hx) _
    · cases hx
      exact ⟨⟨js "a", 1⟩, by simp [twoSiblings], rfl⟩
    · cases hx
      exact ⟨⟨js "b", 2⟩, by simp [twoSiblings], rfl⟩
  · intro r hr s hs hp hn
    simp only [twoSiblings, List.mem_cons, List.not_mem_nil, or_false] at hr hs
    obtain rfl | rfl := hr
    · obtain rfl | rfl := hs
      · exact absurd hn (by decide)
      · exact List.infix_refl _
    · exact absurd hp (by decide)

/-- A row with the empty id, before another one. -/
def unnamedFirst : List Sibling := [⟨[], 1⟩, ⟨js "b", 2⟩]

/-- A create behind the row with the empty id appends; the move goes between the two. -/
theorem create_appends :
    (unnamedFirst.map Positioned.id).Nodup ∧ successor unnamedFirst [] = some (js "b") ∧
    (resolveCreateNeighbors unnamedFirst (some []) (js "gone")).toOption.map
      InsertionSlot.insertionIndex = some 2 ∧
    (resolveMoveNeighbors unnamedFirst (some []) (some (js "b"))).toOption.map
      InsertionSlot.insertionIndex = some 1 := by
  decide

end Kurul
