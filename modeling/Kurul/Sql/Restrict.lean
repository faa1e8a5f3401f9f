import Kurul.Sql.References

/-!
# Kurul.Sql.Restrict

A part of a store: the rows under the keys that pass a test.

* `restrict_applyAll`, `restrict_applyAll_of_not` — writes inside the part, and outside.
* `filter_restrict`   — a query whose answers are inside the part.
* `deletion_restrict` — a delete of rows inside the part, with everything that names them.
-/

namespace Sql

open Keyed

namespace Store

variable {K V : Type} [Keyed K V]

/-- The rows under the keys that pass a test. -/
def restrict (s : Store V) (p : K → Bool) : Store V := s.filter fun v => p (key v)

@[simp] theorem rows_restrict (s : Store V) (p : K → Bool) :
    (s.restrict p).rows = s.rows.filter fun v => p (key v) := rfl

variable [DecidableEq K] {p : K → Bool} {s : Store V}

theorem get?_restrict (s : Store V) (k : K) :
    (s.restrict p).get? k = if p k = true then s.get? k else none := by
  split
  · rename_i hp
    cases hg : s.get? k with
    | none =>
      rw [get?_eq_none_iff] at hg ⊢
      intro v hv
      exact hg v (List.mem_filter.mp hv).1
    | some v =>
      rw [get?_eq_some_iff] at hg ⊢
      exact ⟨List.mem_filter.mpr ⟨hg.1, by rw [hg.2]; exact hp⟩, hg.2⟩
  · rename_i hp
    rw [get?_eq_none_iff]
    rintro v hv rfl
    exact hp (List.mem_filter.mp hv).2

theorem get?_restrict_of {k : K} (h : p k = true) : (s.restrict p).get? k = s.get? k := by
  rw [get?_restrict, if_pos h]

theorem restrict_put {v : V} (h : p (key v) = true) :
    (s.put v).restrict p = (s.restrict p).put v := by
  have hmem : key v ∈ (s.restrict p).rows.map key ↔ key v ∈ s.rows.map key := by
    simp only [List.mem_map, rows_restrict, List.mem_filter]
    constructor
    · rintro ⟨u, ⟨hu, _⟩, hk⟩
      exact ⟨u, hu, hk⟩
    · rintro ⟨u, hu, hk⟩
      exact ⟨u, ⟨hu, by rw [hk]; exact h⟩, hk⟩
  apply ext_rows
  by_cases hk : key v ∈ s.rows.map key
  · have hput : (s.put v).rows = s.rows.map fun u => if key u = key v then v else u := by
      unfold put
      rw [dif_pos hk]
    have hput' : ((s.restrict p).put v).rows =
        (s.restrict p).rows.map fun u => if key u = key v then v else u := by
      unfold put
      rw [dif_pos (hmem.mpr hk)]
    rw [rows_restrict, hput, hput', List.filter_map, rows_restrict]
    congr 1
    refine List.filter_congr fun u _ => ?_
    rw [Function.comp_apply]
    split
    · rename_i hu
      rw [hu]
    · rfl
  · have hput : (s.put v).rows = s.rows ++ [v] := by
      unfold put
      rw [dif_neg hk]
    have hput' : ((s.restrict p).put v).rows = (s.restrict p).rows ++ [v] := by
      unfold put
      rw [dif_neg (mt hmem.mp hk)]
    have hone : [v].filter (fun u => p (key u)) = [v] := List.filter_cons_of_pos h
    rw [rows_restrict, hput, hput', List.filter_append, rows_restrict, hone]

theorem restrict_erase (k : K) : (s.erase k).restrict p = (s.restrict p).erase k := by
  apply ext_rows
  simp only [restrict, erase, rows_filter, List.filter_filter]
  exact List.filter_congr fun u _ => Bool.and_comm _ _

/-- A write under a key that passes is a write to the part. -/
theorem restrict_apply {w : Write K V} (h : p w.key = true) :
    (s.apply w).restrict p = (s.restrict p).apply w := by
  cases w with
  | put v => exact restrict_put h
  | del k => exact restrict_erase k

theorem restrict_applyAll {ws : List (Write K V)} (h : ∀ w ∈ ws, p w.key = true) :
    (s.applyAll ws).restrict p = (s.restrict p).applyAll ws := by
  induction ws generalizing s with
  | nil => rfl
  | cons w ws ih =>
    rw [applyAll_cons, applyAll_cons, ih fun w' hw' => h w' (List.mem_cons_of_mem w hw'),
      restrict_apply (h w List.mem_cons_self)]

/-- Any other write leaves the part as it is. -/
theorem restrict_apply_of_not {w : Write K V} (h : p w.key = false) :
    (s.apply w).restrict p = s.restrict p := by
  apply ext_rows
  cases w with
  | put v =>
    have hv : p (key v) = false := h
    simp only [apply, put]
    split
    · rw [rows_restrict, rows_restrict, List.filter_map]
      have hsame : ∀ u ∈ s.rows.filter fun u => p (key u),
          (if key u = key v then v else u) = u := by
        intro u hu
        refine if_neg fun hk => ?_
        have := (List.mem_filter.mp hu).2
        rw [hk, hv] at this
        cases this
      have hfilter : (s.rows.filter ((fun u => p (key u)) ∘ fun u => if key u = key v then v else u)) =
          s.rows.filter fun u => p (key u) := by
        refine List.filter_congr fun u _ => ?_
        rw [Function.comp_apply]
        split
        · rename_i hu
          rw [hu]
        · rfl
      rw [hfilter]
      exact (List.map_congr_left hsame).trans (List.map_id _)
    · have hnone : [v].filter (fun u => p (key u)) = [] :=
        List.filter_cons_of_neg (by rw [hv]; exact Bool.false_ne_true)
      rw [rows_restrict, rows_restrict, List.filter_append, hnone, List.append_nil]
  | del k =>
    have hk : p k = false := h
    simp only [apply, erase, rows_restrict, rows_filter, List.filter_filter]
    refine List.filter_congr fun u _ => ?_
    by_cases hu : key u = k
    · simp [hu, hk]
    · simp [hu]

theorem restrict_applyAll_of_not {ws : List (Write K V)} (h : ∀ w ∈ ws, p w.key = false) :
    (s.applyAll ws).restrict p = s.restrict p := by
  induction ws generalizing s with
  | nil => rfl
  | cons w ws ih =>
    rw [applyAll_cons, ih fun w' hw' => h w' (List.mem_cons_of_mem w hw'),
      restrict_apply_of_not (h w List.mem_cons_self)]

omit [DecidableEq K] in
/-- A query whose answers are all in the part is the same there. -/
theorem filter_restrict {q : V → Bool} (h : ∀ v ∈ s.rows, q v = true → p (key v) = true) :
    (s.restrict p).rows.filter q = s.rows.filter q := by
  rw [rows_restrict, List.filter_filter]
  refine List.filter_congr fun v hv => ?_
  by_cases hq : q v = true
  · simp [hq, h v hv hq]
  · simp [hq]

/-! ### A delete in the part -/

variable {R : References K V} {P : K → Prop} {ks : List K}

theorem rounds_add (s : Store V) (n m : Nat) (ks : List K) :
    s.rounds R (n + m) ks = s.rounds R m (s.rounds R n ks) := by
  induction n generalizing ks with
  | zero => rw [Nat.zero_add]; rfl
  | succ n ih => rw [Nat.succ_add, rounds, rounds, ih]

section Deletion

variable (hP : ∀ v ∈ s.rows, ∀ k a, (k, a) ∈ R.refs v → P k → P (key v))
  (hp : ∀ k, P k → p k = true)

include hP

theorem of_names {a : OnDelete} {v : V} (hks : ∀ k ∈ ks, P k) (hv : v ∈ s.rows)
    (hn : R.names a ks v = true) : P (key v) := by
  obtain ⟨k, hk, hr⟩ := R.names_iff.mp hn
  exact hP v hv k a hr (hks k hk)

theorem of_doomed (hks : ∀ k ∈ ks, P k) : ∀ k ∈ s.doomed R ks, P k :=
  doomed_subset hks fun v hv k hr hk => hP v hv k _ hr hk

include hp

theorem cascaded_restrict (hks : ∀ k ∈ ks, P k) : (s.restrict p).cascaded R ks = s.cascaded R ks := by
  unfold cascaded
  rw [filter_restrict fun v hv hq => hp _ (of_names hP hks hv (Bool.and_eq_true_iff.mp hq).1)]

theorem rounds_restrict (n : Nat) (hks : ∀ k ∈ ks, P k) :
    (s.restrict p).rounds R n ks = s.rounds R n ks := by
  induction n generalizing ks with
  | zero => rfl
  | succ n ih =>
    rw [rounds, rounds, cascaded_restrict hP hp hks]
    refine ih fun k hk => ?_
    rcases List.mem_append.mp hk with hk | hk
    · exact hks k hk
    · obtain ⟨v, hv, hn, _, rfl⟩ := (mem_cascaded R).mp hk
      exact of_names hP hks hv hn

/-- The part has fewer rows, and so fewer rounds: they suffice. -/
theorem doomed_restrict (hks : ∀ k ∈ ks, P k) : (s.restrict p).doomed R ks = s.doomed R ks := by
  obtain ⟨d, hd⟩ : ∃ d, s.rows.length + 1 = (s.restrict p).rows.length + 1 + d :=
    Nat.exists_eq_add_of_le (Nat.succ_le_succ (List.length_filter_le (fun v => p (key v)) s.rows))
  have hfixed : s.cascaded R (s.rounds R ((s.restrict p).rows.length + 1) ks) = [] := by
    have hin : (s.restrict p).cascaded R
        ((s.restrict p).rounds R ((s.restrict p).rows.length + 1) ks) = [] :=
      cascaded_rounds _ ks (Nat.lt_succ_of_le (List.length_filter_le _ _))
    have hclosed : ∀ k ∈ s.rounds R ((s.restrict p).rows.length + 1) ks, P k := by
      intro k hk
      refine of_doomed hP hks k ?_
      have hsub := subset_rounds (R := R) s d (s.rounds R ((s.restrict p).rows.length + 1) ks)
      rw [← rounds_add] at hsub
      rw [doomed, hd]
      exact hsub hk
    rwa [rounds_restrict hP hp _ hks, cascaded_restrict hP hp hclosed] at hin
  have hlong : s.doomed R ks = s.rounds R ((s.restrict p).rows.length + 1 + d) ks := by
    rw [doomed, hd]
  rw [hlong, rounds_add, rounds_fixed hfixed, doomed, rounds_restrict hP hp _ hks]

/-- A delete of keys that are in the part, with everything that names them, is one of the part. -/
theorem deletion_restrict (hks : ∀ k ∈ ks, P k) : (s.restrict p).deletion R ks = s.deletion R ks := by
  have hgone := of_doomed hP hks
  have hnames : ∀ a v, v ∈ s.rows → R.names a (s.doomed R ks) v = true → p (key v) = true :=
    fun a v hv hn => hp _ (of_names hP hgone hv hn)
  have hswap : ∀ q : V → Bool, (∀ v ∈ s.rows, q v = true → p (key v) = true) →
      (((s.restrict p).rows.filter fun v => decide (key v ∉ s.doomed R ks)).filter q) =
        (s.rows.filter fun v => decide (key v ∉ s.doomed R ks)).filter q := by
    intro q hq
    rw [List.filter_filter, List.filter_filter]
    exact filter_restrict fun v hv h => hq v hv (Bool.and_eq_true_iff.mp h).1
  have hany : ((s.restrict p).rows.filter fun v => decide (key v ∉ s.doomed R ks)).any
      (R.names .restrict (s.doomed R ks)) =
      (s.rows.filter fun v => decide (key v ∉ s.doomed R ks)).any (R.names .restrict (s.doomed R ks)) := by
    rw [Bool.eq_iff_iff, List.any_eq_true, List.any_eq_true]
    constructor
    · rintro ⟨v, hv, hn⟩
      rw [List.mem_filter] at hv
      exact ⟨v, List.mem_filter.mpr ⟨(List.mem_filter.mp hv.1).1, hv.2⟩, hn⟩
    · rintro ⟨v, hv, hn⟩
      rw [List.mem_filter] at hv
      exact ⟨v, List.mem_filter.mpr ⟨List.mem_filter.mpr ⟨hv.1, hnames _ v hv.1 hn⟩, hv.2⟩, hn⟩
  simp only [deletion, doomed_restrict hP hp hks, hany]
  rw [hswap _ (hnames .setNull), filter_restrict fun v _ h => hp _ (hgone _ (of_decide_eq_true h))]

end Deletion

end Store
end Sql
