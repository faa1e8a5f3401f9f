import Kurul.Order.Grouping
import Kurul.Sql.Store

/-!
# Kurul.JsMap

A `Map`: a store of pairs under their first components, which keeps the order the keys were first
set in.
-/

namespace Kurul

open Sql

variable {K V : Type}

instance : Keyed K (K × V) := ⟨Prod.fst⟩

structure JsMap (K V : Type) where
  entries : Store (K × V)

namespace JsMap

variable [DecidableEq K] {m : JsMap K V} {k k' : K} {v : V}

/-- `new Map()`. -/
def empty : JsMap K V := ⟨Store.empty⟩

def get (m : JsMap K V) (k : K) : Option V := (m.entries.get? k).map Prod.snd

def set (m : JsMap K V) (k : K) (v : V) : JsMap K V := ⟨m.entries.put (k, v)⟩

@[simp] theorem get_empty : (empty : JsMap K V).get k = none := rfl

@[simp] theorem get_set : (m.set k v).get k' = if k' = k then some v else m.get k' := by
  have hput : (m.set k v).entries.get? k' = if k' = k then some (k, v) else m.entries.get? k' :=
    Store.get?_put m.entries (k, v) k'
  unfold get
  rw [hput]
  split <;> rfl

/-- `new Map(entries)`. -/
def ofEntries (entries : List (K × V)) : JsMap K V := entries.foldl (fun m e => m.set e.1 e.2) empty

/-- Of entries under one key the last one stays. -/
theorem get_ofEntries (entries : List (K × V)) (k : K) :
    (ofEntries entries).get k = (entries.reverse.find? fun e => e.1 = k).map Prod.snd := by
  have main : ∀ (entries : List (K × V)) (m : JsMap K V), (entries.foldl (fun m e => m.set e.1 e.2) m).get k =
      ((entries.reverse.find? fun e => e.1 = k).map Prod.snd).or (m.get k) := by
    intro entries
    induction entries with
    | nil => intro m; rfl
    | cons e entries ih =>
      intro m
      rw [List.foldl_cons, ih, get_set, List.reverse_cons, List.find?_append]
      cases (entries.reverse.find? fun e => e.1 = k) with
      | some x => rfl
      | none =>
        by_cases hk : e.1 = k
        · simp [hk]
        · simp [hk, Ne.symm hk]
  rw [ofEntries, main, get_empty, Option.or_none]

/-- `for (const [k, v] of entries) m.set(k, v)`. -/
def setAll (m : JsMap K V) (entries : List (K × V)) : JsMap K V :=
  entries.foldl (fun m e => m.set e.1 e.2) m

@[simp] theorem setAll_nil : m.setAll [] = m := rfl

@[simp] theorem setAll_cons {e : K × V} {entries : List (K × V)} :
    m.setAll (e :: entries) = (m.set e.1 e.2).setAll entries := rfl

theorem setAll_append {entries more : List (K × V)} :
    m.setAll (entries ++ more) = (m.setAll entries).setAll more := List.foldl_append

/-- A key has a value when it had one before or was set. -/
theorem isSome_get_setAll {entries : List (K × V)} : ∀ {m : JsMap K V},
    ((m.setAll entries).get k).isSome = ((m.get k).isSome || entries.any fun e => e.1 = k) := by
  induction entries with
  | nil => intro m; simp
  | cons e entries ih =>
    intro m
    rw [setAll_cons, ih, get_set, List.any_cons]
    by_cases hk : k = e.1
    · simp [hk]
    · simp [hk, Ne.symm hk]

/-- A value is one of those set, or was there before. -/
theorem get_setAll_mem {entries : List (K × V)} : ∀ {m : JsMap K V},
    (m.setAll entries).get k = some v → m.get k = some v ∨ (k, v) ∈ entries := by
  induction entries with
  | nil => intro m h; exact .inl h
  | cons e entries ih =>
    intro m h
    rcases ih h with h | h
    · rw [get_set] at h
      split at h
      case isTrue hk => exact .inr (by rw [hk, ← Option.some.inj h]; exact List.mem_cons_self)
      case isFalse => exact .inl h
    · exact .inr (List.mem_cons_of_mem _ h)

/-- Distinct keys each keep the value they were set to. -/
theorem get_setAll {entries : List (K × V)} (hnd : (entries.map Prod.fst).Nodup)
    (hmem : (k, v) ∈ entries) (m : JsMap K V) : (m.setAll entries).get k = some v := by
  have hsome : ((m.setAll entries).get k).isSome = true := by
    rw [isSome_get_setAll, Bool.or_eq_true, List.any_eq_true]
    exact .inr ⟨(k, v), hmem, by simp⟩
  induction entries generalizing m with
  | nil => cases hmem
  | cons e entries ih =>
    rw [List.map_cons, List.nodup_cons] at hnd
    rw [setAll_cons] at hsome ⊢
    rcases List.mem_cons.mp hmem with rfl | hmem
    · -- nothing after the first sets its key
      obtain ⟨w, hw⟩ := Option.isSome_iff_exists.mp hsome
      rcases get_setAll_mem hw with h | h
      · rw [hw, ← h, get_set, if_pos rfl]
      · exact absurd (List.mem_map_of_mem (f := Prod.fst) h) hnd.1
    · exact ih hnd.2 hmem _ hsome

/-- The order distinct keys are set in does not matter. -/
theorem get_setAll_perm {entries entries' : List (K × V)} (hnd : (entries.map Prod.fst).Nodup)
    (hp : entries'.Perm entries) (k : K) :
    ((empty : JsMap K V).setAll entries').get k = ((empty : JsMap K V).setAll entries).get k := by
  have hnd' : (entries'.map Prod.fst).Nodup := (hp.map Prod.fst).nodup_iff.mpr hnd
  refine Option.ext fun v => ⟨fun h => ?_, fun h => ?_⟩
  · have hmem := (get_setAll_mem h).resolve_left (by simp)
    exact get_setAll hnd (hp.mem_iff.mp hmem) _
  · have hmem := (get_setAll_mem h).resolve_left (by simp)
    exact get_setAll hnd' (hp.mem_iff.mpr hmem) _

/-- `m.delete(k)`. -/
def erase (m : JsMap K V) (k : K) : JsMap K V := ⟨m.entries.erase k⟩

@[simp] theorem get_erase : (m.erase k).get k' = if k' = k then none else m.get k' := by
  have herase : (m.erase k).entries.get? k' = if k' = k then none else m.entries.get? k' :=
    Store.get?_erase m.entries k k'
  unfold get
  rw [herase]
  split <;> rfl

/-- The entries whose value passes a test. -/
def filter (m : JsMap K V) (p : V → Bool) : JsMap K V := ⟨m.entries.filter fun e => p e.2⟩

theorem get_eq_some : m.get k = some v ↔ (k, v) ∈ m.entries.rows := by
  simp only [get, Option.map_eq_some_iff, Store.get?_eq_some_iff]
  constructor
  · intro h
    obtain ⟨e, ⟨he, rfl⟩, rfl⟩ := h
    exact he
  · intro h
    exact ⟨_, ⟨h, rfl⟩, rfl⟩

@[simp] theorem get_filter (p : V → Bool) : (m.filter p).get k = (m.get k).filter p := by
  refine Option.ext fun v => ?_
  rw [get_eq_some, Option.filter_eq_some_iff, get_eq_some]
  exact List.mem_filter

/-- A list of values under each key: start it, or push on its end. -/
def push (m : JsMap K (List V)) (k : K) (v : V) : JsMap K (List V) :=
  m.set k ((m.get k).getD [] ++ [v])

/-- `m.get(k) ?? []`. -/
def all (m : JsMap K (List V)) (k : K) : List V := (m.get k).getD []

@[simp] theorem all_empty : (empty : JsMap K (List V)).all k = [] := rfl

@[simp] theorem all_push {m : JsMap K (List V)} :
    (m.push k v).all k' = m.all k' ++ if k' = k then [v] else [] := by
  unfold all push
  rw [get_set]
  by_cases h : k' = k
  · subst h; simp
  · simp [h]

end JsMap

/-- Rows counted by a key, and one of the counts read from the map of them. -/
theorem getD_ofEntries_counts {R K : Type} [DecidableEq K] (found : List R) (f : R → K) (k : K) :
    ((JsMap.ofEntries ((found.map f).dedup.map fun k =>
      (k, (found.filter fun r => f r = k).length))).get k).getD 0 =
      (found.filter fun r => f r = k).length := by
  rw [JsMap.get_ofEntries, ← List.map_reverse]
  exact getD_find?_groups (l := found) (f := f) (g := id)
    (fun x => by rw [List.mem_reverse, List.mem_dedup]) (fun _ _ _ _ h => h) k

end Kurul
