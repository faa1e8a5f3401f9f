import Mathlib.Data.Finset.Card
import Kurul.Sql.Call

/-!
# Kurul.Sql.References

Foreign keys and what a `DELETE` does to the rows behind them.

* `References`   — the keys a row names, and what becomes of the row when one of them goes.
* `Store.doomed` — the rows a delete takes with it: the named ones and everything that cascades.
* `Store.deletion` — the writes of a delete: the doomed rows go, `SET NULL` references to them
  are cleared, and a `RESTRICT` reference to one of them refuses the statement.

`doomed_subset` is the induction rule (a set closed under cascading references that holds the
named rows holds all the doomed ones), `doomed_closed` says nothing is left behind,
`mem_applyAll_deletion` what is there afterwards.
-/

namespace Sql

open Keyed

inductive OnDelete where
  | cascade
  | setNull
  | restrict
  deriving DecidableEq

/-- The foreign keys of a row type. -/
structure References (K V : Type) [Keyed K V] where
  refs : V → List (K × OnDelete)
  /-- `SET NULL` on every reference to one of these keys. -/
  clear : (K → Bool) → V → V
  key_clear : ∀ p v, key (clear p v) = key v

variable {K V : Type} [Keyed K V] [DecidableEq K] (R : References K V)

namespace References

/-- The row names one of these keys under this rule. -/
def names (a : OnDelete) (ks : List K) (v : V) : Bool :=
  (R.refs v).any fun r => decide (r.2 = a ∧ r.1 ∈ ks)

theorem names_iff {a : OnDelete} {ks : List K} {v : V} :
    R.names a ks v = true ↔ ∃ k ∈ ks, (k, a) ∈ R.refs v := by
  simp only [names, List.any_eq_true, decide_eq_true_eq, Prod.exists]
  constructor
  · rintro ⟨k, b, hr, rfl, hk⟩
    exact ⟨k, hk, hr⟩
  · rintro ⟨k, hk, hr⟩
    exact ⟨k, a, hr, rfl, hk⟩

theorem names_mono {a : OnDelete} {ks ks' : List K} {v : V} (h : ks ⊆ ks')
    (hn : R.names a ks v = true) : R.names a ks' v = true := by
  obtain ⟨k, hk, hr⟩ := R.names_iff.mp hn
  exact R.names_iff.mpr ⟨k, h hk, hr⟩

end References

namespace Store

/-- Keys of the rows a deletion of these keys cascades to next. -/
def cascaded (s : Store V) (ks : List K) : List K :=
  (s.rows.filter fun v => R.names .cascade ks v && decide (key v ∉ ks)).map key

theorem mem_cascaded {s : Store V} {ks : List K} {k : K} :
    k ∈ s.cascaded R ks ↔ ∃ v ∈ s.rows, R.names .cascade ks v = true ∧ key v ∉ ks ∧ key v = k := by
  simp [cascaded, and_assoc]

/-- `n` rounds of cascading. -/
def rounds (s : Store V) : Nat → List K → List K
  | 0, ks => ks
  | n + 1, ks => rounds s n (ks ++ s.cascaded R ks)

/-- Every row a deletion takes with it. One round more than there are rows reaches them all. -/
def doomed (s : Store V) (ks : List K) : List K := s.rounds R (s.rows.length + 1) ks

variable {R}

theorem subset_rounds (s : Store V) :
    ∀ (n : Nat) (ks : List K), ks ⊆ s.rounds R n ks := by
  intro n
  induction n with
  | zero => intro ks; exact List.Subset.refl ks
  | succ n ih => intro ks; exact List.Subset.trans (List.subset_append_left ks _) (ih _)

theorem subset_doomed (s : Store V) (ks : List K) : ks ⊆ s.doomed R ks := subset_rounds s _ ks

/-- A set of keys that holds the named rows and is closed under cascading references holds every
doomed row. -/
theorem doomed_subset {s : Store V} {P : K → Prop} {ks : List K} (h0 : ∀ k ∈ ks, P k)
    (hstep : ∀ v ∈ s.rows, ∀ k, (k, OnDelete.cascade) ∈ R.refs v → P k → P (key v)) :
    ∀ k ∈ s.doomed R ks, P k := by
  have main : ∀ (n : Nat) (ks : List K), (∀ k ∈ ks, P k) → ∀ k ∈ s.rounds R n ks, P k := by
    intro n
    induction n with
    | zero => intro ks h; exact h
    | succ n ih =>
      intro ks h
      apply ih
      intro k hk
      rcases List.mem_append.mp hk with hk | hk
      · exact h k hk
      · obtain ⟨v, hv, hn, _, rfl⟩ := (mem_cascaded R).mp hk
        obtain ⟨k', hk', hr⟩ := R.names_iff.mp hn
        exact hstep v hv k' hr (h k' hk')
  exact main _ ks h0

/-- Once nothing more cascades, further rounds change nothing. -/
theorem rounds_fixed {s : Store V} {ks : List K} (h : s.cascaded R ks = []) :
    ∀ n, s.rounds R n ks = ks := by
  intro n
  induction n with
  | zero => rfl
  | succ n ih => simp only [rounds, h, List.append_nil]; exact ih

/-- Each round that is not the last finds a row not found before, so `rows.length` rounds
suffice. The measure is the number of stored rows not yet among the keys. -/
theorem cascaded_rounds {s : Store V} :
    ∀ (n : Nat) (ks : List K), (s.rows.filter fun v => decide (key v ∉ ks)).length < n →
      s.cascaded R (s.rounds R n ks) = [] := by
  intro n
  induction n with
  | zero => intro ks h; omega
  | succ n ih =>
    intro ks h
    by_cases hc : s.cascaded R ks = []
    · rw [rounds_fixed hc]; exact hc
    · apply ih
      obtain ⟨k, hk⟩ := List.exists_mem_of_ne_nil _ hc
      obtain ⟨v, hv, hn, hnew, rfl⟩ := (mem_cascaded R).mp hk
      have hlt : (s.rows.filter fun u => decide (key u ∉ ks ++ s.cascaded R ks)).length <
          (s.rows.filter fun u => decide (key u ∉ ks)).length := by
        have hsub : (s.rows.filter fun u => decide (key u ∉ ks ++ s.cascaded R ks)) =
            (s.rows.filter fun u => decide (key u ∉ ks)).filter
              fun u => decide (key u ∉ s.cascaded R ks) := by
          rw [List.filter_filter]
          apply List.filter_congr
          intro u _
          simp [not_or, Bool.and_comm]
        rw [hsub]
        exact List.length_filter_lt_length_iff_exists.mpr
          ⟨v, List.mem_filter.mpr ⟨hv, by simpa using hnew⟩, by simpa using hk⟩
      omega

/-- Nothing is left behind: a row that cascades from a doomed key is doomed. -/
theorem doomed_closed {s : Store V} {ks : List K} {v : V} (hv : v ∈ s.rows) {k : K}
    (hr : (k, OnDelete.cascade) ∈ R.refs v) (hk : k ∈ s.doomed R ks) : key v ∈ s.doomed R ks := by
  by_contra hne
  have hfix : s.cascaded R (s.doomed R ks) = [] := by
    apply cascaded_rounds
    exact Nat.lt_succ_of_le (List.length_filter_le _ _)
  have : key v ∈ s.cascaded R (s.doomed R ks) :=
    (mem_cascaded R).mpr ⟨v, hv, R.names_iff.mpr ⟨k, hk, hr⟩, hne, rfl⟩
  rw [hfix] at this
  cases this

variable (R)

/-- The writes of `DELETE` on these keys, or nothing if a `RESTRICT` reference refuses it. -/
def deletion (s : Store V) (ks : List K) : Option (List (Write K V)) :=
  let gone := s.doomed R ks
  let kept := s.rows.filter fun v => decide (key v ∉ gone)
  if kept.any (R.names .restrict gone) then none
  else some ((s.rows.filter fun v => decide (key v ∈ gone)).map (fun v => .del (key v)) ++
    (kept.filter (R.names .setNull gone)).map fun v => .put (R.clear (fun k => decide (k ∈ gone)) v))

variable {R}

/-- A delete writes two kinds of row: doomed ones, which go, and kept ones, cleared. -/
theorem mem_deletion {s : Store V} {ks : List K} {ws : List (Write K V)}
    (h : s.deletion R ks = some ws) {w : Write K V} (hw : w ∈ ws) :
    (∃ v ∈ s.rows, key v ∈ s.doomed R ks ∧ w = .del (key v)) ∨
    (∃ v ∈ s.rows, key v ∉ s.doomed R ks ∧ R.names .setNull (s.doomed R ks) v = true ∧
      w = .put (R.clear (fun k => decide (k ∈ s.doomed R ks)) v)) := by
  simp only [deletion] at h
  split at h
  · simp at h
  · simp only [Option.some.injEq] at h
    subst h
    rcases List.mem_append.mp hw with hw | hw
    · obtain ⟨v, hv, rfl⟩ := List.mem_map.mp hw
      rw [List.mem_filter] at hv
      exact .inl ⟨v, hv.1, by simpa using hv.2, rfl⟩
    · obtain ⟨v, hv, rfl⟩ := List.mem_map.mp hw
      rw [List.mem_filter, List.mem_filter] at hv
      exact .inr ⟨v, hv.1.1, by simpa using hv.1.2, hv.2, rfl⟩

/-- And it writes all the rows of either kind. -/
theorem mem_writes_of_deletion {s : Store V} {ks : List K} {ws : List (Write K V)}
    (h : s.deletion R ks = some ws) {v : V} (hv : v ∈ s.rows) :
    (key v ∈ s.doomed R ks → .del (key v) ∈ ws) ∧
    (key v ∉ s.doomed R ks → R.names .setNull (s.doomed R ks) v = true →
      .put (R.clear (fun k => decide (k ∈ s.doomed R ks)) v) ∈ ws) := by
  simp only [deletion] at h
  split at h
  · cases h
  · cases h
    constructor
    · intro hgone
      exact List.mem_append_left _ (List.mem_map.mpr ⟨v, List.mem_filter.mpr
        ⟨hv, decide_eq_true hgone⟩, rfl⟩)
    · intro hkept hn
      exact List.mem_append_right _ (List.mem_map.mpr ⟨v, List.mem_filter.mpr
        ⟨List.mem_filter.mpr ⟨hv, decide_eq_true hkept⟩, hn⟩, rfl⟩)

/-- What is there after a delete: a row that is not doomed, cleared if it points at one that is. -/
theorem mem_applyAll_deletion {s : Store V} {ks : List K} {ws : List (Write K V)}
    (h : s.deletion R ks = some ws) {v' : V} (hv' : v' ∈ (s.applyAll ws).rows) :
    ∃ v ∈ s.rows, key v ∉ s.doomed R ks ∧
      (v' = v ∧ R.names .setNull (s.doomed R ks) v = false ∨
        v' = R.clear (fun k => decide (k ∈ s.doomed R ks)) v) := by
  have hget := mem_rows_iff.mp hv'
  by_cases hk : key v' ∈ ws.map Write.key
  · rcases mem_deletion h (put_mem_of_get?_applyAll hk s hget) with ⟨_, _, _, heq⟩ | ⟨v, hv, hkept, _, heq⟩
    · cases heq
    · exact ⟨v, hv, hkept, .inr (Write.put.inj heq)⟩
  · rw [get?_applyAll_of_not_mem hk] at hget
    have hv := mem_of_get? hget
    obtain ⟨hdel, hput⟩ := mem_writes_of_deletion h hv
    have hkept : key v' ∉ s.doomed R ks := fun hgone =>
      hk (List.mem_map.mpr ⟨_, hdel hgone, rfl⟩)
    refine ⟨v', hv, hkept, .inl ⟨rfl, Bool.eq_false_iff.mpr fun hn => hk ?_⟩⟩
    exact List.mem_map.mpr ⟨_, hput hkept hn, R.key_clear _ _⟩

/-- A row that is not doomed and points at none that is stays as it is. -/
theorem mem_of_deletion {s : Store V} {ks : List K} {ws : List (Write K V)}
    (h : s.deletion R ks = some ws) {v : V} (hv : v ∈ s.rows) (hkept : key v ∉ s.doomed R ks)
    (hn : R.names .setNull (s.doomed R ks) v = false) : v ∈ (s.applyAll ws).rows := by
  refine mem_rows_iff.mpr ((get?_applyAll_of_not_mem (fun hk => ?_) s).trans (mem_rows_iff.mp hv))
  obtain ⟨w, hw, hkey⟩ := List.mem_map.mp hk
  rcases mem_deletion h hw with ⟨u, _, hgone, rfl⟩ | ⟨u, hu, _, hnu, rfl⟩
  · exact hkept (hkey ▸ hgone)
  · obtain rfl : u = v := key_inj hu hv ((R.key_clear _ u).symm.trans hkey)
    rw [hn] at hnu
    cases hnu

end Store
end Sql
