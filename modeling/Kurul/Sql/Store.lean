import Mathlib.Algebra.GroupWithZero.Nat
import Mathlib.Data.List.Nodup
import Mathlib.Data.List.Basic

/-!
# Kurul.Sql.Store

A store of keyed rows: the state of a relational database seen as one list of rows, each
carrying its own primary key. The key constraint is a field of the structure, so a store with
two rows under one key cannot be built.

* `Store.get?`  — lookup by primary key.
* `Write`       — one row-level effect: insert-or-replace a row, or delete a key.
* `Store.applyAll` — a list of writes, applied in order; `get?_applyAll_of_not_mem` is its frame
  rule.
-/

namespace Sql

/-- A row type whose rows know their primary key. -/
class Keyed (K : outParam Type) (V : Type) where
  key : V → K

open Keyed

/-- Rows in physical order, no two under one key. -/
structure Store (V : Type) {K : Type} [Keyed K V] where
  rows : List V
  nodup : (rows.map key).Nodup

/-- One row-level effect of a statement. -/
inductive Write (K V : Type) where
  | put (v : V)
  | del (k : K)

namespace Write

variable {K V : Type}

/-- What the row holds afterwards. -/
def row? : Write K V → Option V
  | .put v => some v
  | .del _ => none

@[simp] theorem row?_put (v : V) : (Write.put v : Write K V).row? = some v := rfl
@[simp] theorem row?_del (k : K) : (Write.del k : Write K V).row? = none := rfl

variable [Keyed K V]

/-- The row a write is about. -/
def key : Write K V → K
  | .put v => Keyed.key v
  | .del k => k

@[simp] theorem key_put (v : V) : (Write.put v : Write K V).key = Keyed.key v := rfl
@[simp] theorem key_del (k : K) : (Write.del k : Write K V).key = k := rfl

end Write

namespace Store

variable {K V : Type} [Keyed K V]

theorem ext_rows {s t : Store V} (h : s.rows = t.rows) : s = t := by
  cases s; cases t; cases h; rfl

/-- The empty database. -/
def empty : Store V := ⟨[], by simp⟩

theorem key_inj {s : Store V} {u v : V} (hu : u ∈ s.rows) (hv : v ∈ s.rows)
    (h : key u = key v) : u = v :=
  List.inj_on_of_nodup_map s.nodup hu hv h

/-- Rows passing a test, in physical order. -/
def filter (s : Store V) (p : V → Bool) : Store V :=
  ⟨s.rows.filter p, s.nodup.sublist ((List.filter_sublist).map key)⟩

@[simp] theorem rows_filter (s : Store V) (p : V → Bool) :
    (s.filter p).rows = s.rows.filter p := rfl

variable [DecidableEq K]

/-- Lookup by primary key. -/
def get? (s : Store V) (k : K) : Option V := s.rows.find? fun v => key v = k

/-- Delete by primary key; a missing key is left alone. -/
def erase (s : Store V) (k : K) : Store V := s.filter fun v => key v ≠ k

theorem map_key_replace (v : V) (l : List V) :
    (l.map fun u => if key u = key v then v else u).map key = l.map key := by
  rw [List.map_map]
  apply List.map_congr_left
  intro u _
  by_cases h : key u = key v
  · simp [h]
  · simp [h]

/-- Insert a row, or replace the row under its key where it stands. -/
def put (s : Store V) (v : V) : Store V :=
  if h : key v ∈ s.rows.map key then
    ⟨s.rows.map fun u => if key u = key v then v else u, by
      rw [map_key_replace]; exact s.nodup⟩
  else
    ⟨s.rows ++ [v], by
      rw [List.map_append, List.nodup_append]
      refine ⟨s.nodup, by simp, ?_⟩
      intro a ha b hb hab
      simp only [List.map_cons, List.map_nil, List.mem_singleton] at hb
      subst hab hb
      exact h ha⟩

/-- One write. -/
def apply (s : Store V) : Write K V → Store V
  | .put v => s.put v
  | .del k => s.erase k

/-- A list of writes, first to last. -/
def applyAll (s : Store V) (ws : List (Write K V)) : Store V := ws.foldl apply s

@[simp] theorem applyAll_nil (s : Store V) : s.applyAll [] = s := rfl

@[simp] theorem applyAll_cons (s : Store V) (w : Write K V) (ws : List (Write K V)) :
    s.applyAll (w :: ws) = (s.apply w).applyAll ws := rfl

theorem applyAll_append (s : Store V) (ws ws' : List (Write K V)) :
    s.applyAll (ws ++ ws') = (s.applyAll ws).applyAll ws' := by
  simp [applyAll, List.foldl_append]

/-! ## Lookup -/

theorem get?_eq_some_iff {s : Store V} {k : K} {v : V} :
    s.get? k = some v ↔ v ∈ s.rows ∧ key v = k := by
  constructor
  · intro h
    exact ⟨List.mem_of_find?_eq_some h, by simpa using List.find?_some h⟩
  · rintro ⟨hv, rfl⟩
    cases h : s.get? (key v) with
    | none =>
      have := List.find?_eq_none.mp h v hv
      simp at this
    | some u =>
      have hu := List.mem_of_find?_eq_some h
      have hk : key u = key v := by simpa using List.find?_some h
      rw [key_inj hu hv hk]

theorem get?_eq_none_iff {s : Store V} {k : K} :
    s.get? k = none ↔ ∀ v ∈ s.rows, key v ≠ k := by
  simp [get?]

theorem mem_rows_iff {s : Store V} {v : V} : v ∈ s.rows ↔ s.get? (key v) = some v := by
  rw [get?_eq_some_iff]; simp

theorem key_of_get? {s : Store V} {k : K} {v : V} (h : s.get? k = some v) : key v = k :=
  (get?_eq_some_iff.mp h).2

theorem mem_of_get? {s : Store V} {k : K} {v : V} (h : s.get? k = some v) : v ∈ s.rows :=
  (get?_eq_some_iff.mp h).1

theorem get?_erase (s : Store V) (k k' : K) :
    (s.erase k).get? k' = if k' = k then none else s.get? k' := by
  split
  · rename_i h; subst h
    rw [get?_eq_none_iff]
    intro v hv
    simpa [erase] using (List.mem_filter.mp hv).2
  · rename_i h
    cases hg : s.get? k' with
    | none =>
      rw [get?_eq_none_iff] at hg ⊢
      intro v hv
      exact hg v (List.mem_filter.mp hv).1
    | some v =>
      rw [get?_eq_some_iff] at hg ⊢
      refine ⟨List.mem_filter.mpr ⟨hg.1, ?_⟩, hg.2⟩
      simpa [hg.2] using h

theorem mem_rows_put {s : Store V} {u v : V} :
    u ∈ (s.put v).rows ↔ u = v ∨ (u ∈ s.rows ∧ key u ≠ key v) := by
  unfold put
  split
  · rename_i h
    simp only [List.mem_map]
    constructor
    · rintro ⟨x, hx, rfl⟩
      by_cases hk : key x = key v
      · simp [hk]
      · exact .inr (by simp [hk, hx])
    · rintro (rfl | ⟨hu, hk⟩)
      · obtain ⟨x, hx, hxk⟩ := List.mem_map.mp h
        exact ⟨x, hx, by simp [hxk]⟩
      · exact ⟨u, hu, by simp [hk]⟩
  · rename_i h
    simp only [List.mem_append, List.mem_singleton]
    constructor
    · rintro (hu | rfl)
      · exact .inr ⟨hu, fun hk => h (hk ▸ List.mem_map_of_mem hu)⟩
      · exact .inl rfl
    · rintro (rfl | ⟨hu, _⟩)
      · exact .inr rfl
      · exact .inl hu

theorem get?_put (s : Store V) (v : V) (k : K) :
    (s.put v).get? k = if k = key v then some v else s.get? k := by
  split
  · rename_i h; subst h
    rw [get?_eq_some_iff, mem_rows_put]; simp
  · rename_i h
    cases hg : s.get? k with
    | none =>
      rw [get?_eq_none_iff] at hg ⊢
      intro u hu
      rcases mem_rows_put.mp hu with rfl | ⟨hu, _⟩
      · exact fun hk => h hk.symm
      · exact hg u hu
    | some u =>
      rw [get?_eq_some_iff] at hg ⊢
      refine ⟨mem_rows_put.mpr (.inr ⟨hg.1, ?_⟩), hg.2⟩
      rw [hg.2]; exact h

/-- A sum over the rows exchanges the old row's term for the new one's. -/
theorem sum_put (f : V → Nat) (s : Store V) (v : V) :
    ((s.put v).rows.map f).sum + ((s.get? (key v)).map f).getD 0 = (s.rows.map f).sum + f v := by
  by_cases h : key v ∈ s.rows.map key
  · have main : ∀ l : List V, (l.map key).Nodup → key v ∈ l.map key →
        ((l.map fun u => if key u = key v then v else u).map f).sum +
          ((l.find? fun u => key u = key v).map f).getD 0 = (l.map f).sum + f v := by
      intro l
      induction l with
      | nil => intro _ hv; simp at hv
      | cons u l ih =>
        intro hnd hv
        rw [List.map_cons, List.nodup_cons] at hnd
        by_cases hu : key u = key v
        · have hrest : (l.map fun u => if key u = key v then v else u) = l := by
            conv_rhs => rw [← List.map_id l]
            refine List.map_congr_left fun x hx => if_neg fun hx' => hnd.1 ?_
            rw [hu, ← hx']
            exact List.mem_map_of_mem hx
          simp only [List.map_cons, hrest, hu, if_true, List.sum_cons, decide_true,
            List.find?_cons_of_pos, Option.map_some, Option.getD_some]
          omega
        · have hv' : key v ∈ l.map key := by
            rcases List.mem_cons.mp hv with hv | hv
            · exact absurd hv.symm hu
            · exact hv
          have := ih hnd.2 hv'
          simp only [List.map_cons, hu, if_false, List.sum_cons, decide_false, Bool.false_eq_true,
            not_false_eq_true, List.find?_cons_of_neg]
          omega
    have hrows : (s.put v).rows = s.rows.map fun u => if key u = key v then v else u := by
      unfold put
      rw [dif_pos h]
    rw [hrows]
    exact main s.rows s.nodup h
  · have hnone : s.get? (key v) = none :=
      get?_eq_none_iff.mpr fun u hu hk => h (hk ▸ List.mem_map_of_mem hu)
    have hrows : (s.put v).rows = s.rows ++ [v] := by
      unfold put
      rw [dif_neg h]
    rw [hrows, hnone]
    simp

/-- Every write is pointwise: it sets the row under its own key and no other. -/
theorem get?_apply (s : Store V) (w : Write K V) (k : K) :
    (s.apply w).get? k = if k = w.key then w.row? else s.get? k := by
  cases w with
  | put v => exact get?_put s v k
  | del j => exact get?_erase s j k

/-- Frame rule: a key no write names keeps its row. -/
theorem get?_applyAll_of_not_mem {ws : List (Write K V)} {k : K} (h : k ∉ ws.map Write.key) :
    ∀ s : Store V, (s.applyAll ws).get? k = s.get? k := by
  induction ws with
  | nil => intro s; rfl
  | cons w ws ih =>
    intro s
    simp only [List.map_cons, List.mem_cons, not_or] at h
    rw [applyAll_cons, ih h.2, get?_apply, if_neg h.1]

/-- The row under a written key comes from the writes alone. -/
theorem get?_applyAll_congr {ws : List (Write K V)} {k : K} (h : k ∈ ws.map Write.key) :
    ∀ s t : Store V, (s.applyAll ws).get? k = (t.applyAll ws).get? k := by
  induction ws with
  | nil => simp at h
  | cons w ws ih =>
    intro s t
    simp only [applyAll_cons]
    by_cases hk : k ∈ ws.map Write.key
    · exact ih hk _ _
    · simp only [List.map_cons, List.mem_cons] at h
      have hw : k = w.key := h.resolve_right hk
      rw [get?_applyAll_of_not_mem hk, get?_applyAll_of_not_mem hk, get?_apply, get?_apply,
        if_pos hw, if_pos hw]

/-- A written row that is there afterwards was put there. -/
theorem put_mem_of_get?_applyAll {ws : List (Write K V)} {k : K} {v : V}
    (h : k ∈ ws.map Write.key) : ∀ s : Store V, (s.applyAll ws).get? k = some v → .put v ∈ ws := by
  induction ws with
  | nil => simp at h
  | cons w ws ih =>
    intro s hv
    rw [applyAll_cons] at hv
    by_cases hk : k ∈ ws.map Write.key
    · exact List.mem_cons_of_mem w (ih hk _ hv)
    · simp only [List.map_cons, List.mem_cons] at h
      rw [get?_applyAll_of_not_mem hk, get?_apply, if_pos (h.resolve_right hk)] at hv
      cases w with
      | put u => simp only [Write.row?_put, Option.some.injEq] at hv; simp [hv]
      | del j => simp at hv

/-- A row nobody deletes stays, if not as it was. -/
theorem isSome_get?_applyAll {ws : List (Write K V)} {k : K} (h : .del k ∉ ws) :
    ∀ s : Store V, (s.get? k).isSome = true → ((s.applyAll ws).get? k).isSome = true := by
  induction ws with
  | nil => intro s hs; exact hs
  | cons w ws ih =>
    intro s hs
    simp only [List.mem_cons, not_or] at h
    refine ih h.2 _ ?_
    rw [get?_apply]
    split
    · rename_i hk
      cases w with
      | put v => rfl
      | del j => exact absurd (congrArg Write.del hk) h.1
    · exact hs

/-- A row that is put, and not deleted, is there. -/
theorem isSome_get?_of_put {ws : List (Write K V)} {v : V} (hput : .put v ∈ ws)
    (hdel : .del (key v) ∉ ws) : ∀ s : Store V, ((s.applyAll ws).get? (key v)).isSome = true := by
  induction ws with
  | nil => cases hput
  | cons w ws ih =>
    intro s
    simp only [List.mem_cons, not_or] at hdel
    rcases List.mem_cons.mp hput with rfl | hput
    · refine isSome_get?_applyAll hdel.2 _ ?_
      rw [get?_apply, if_pos (by rw [Write.key_put])]
      rfl
    · exact ih hput hdel.2 _

/-- Two stores that agree on a key still agree on it after the same writes. -/
theorem get?_applyAll_eq {s t : Store V} {k : K} (h : s.get? k = t.get? k)
    (ws : List (Write K V)) : (s.applyAll ws).get? k = (t.applyAll ws).get? k := by
  by_cases hk : k ∈ ws.map Write.key
  · exact get?_applyAll_congr hk s t
  · rw [get?_applyAll_of_not_mem hk, get?_applyAll_of_not_mem hk, h]

end Store
end Sql
