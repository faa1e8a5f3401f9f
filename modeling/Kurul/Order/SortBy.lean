import Mathlib.Data.List.Sort
import Mathlib.Data.List.InsertIdx

/-!
# Kurul.Order.SortBy

Sorting a list by a key.

* `sortBy_eq`         — a list in strictly increasing key order is what sorting any permutation of
  it gives.
* `sortBy_map`        — sorting images sorts what they are images of.
* `pairwise_insertIdx` — inserting between what comes before and what comes after keeps an order.
-/

namespace Kurul

section SortBy

variable {α β γ : Type} [LinearOrder β]

/-- `ORDER BY f`. Rows with equal keys keep the order they came in. -/
def sortBy (f : α → β) (l : List α) : List α := l.insertionSort fun a b => f a ≤ f b

theorem sortBy_perm (f : α → β) (l : List α) : (sortBy f l).Perm l := List.perm_insertionSort _ l

@[simp] theorem mem_sortBy {f : α → β} {l : List α} {a : α} : a ∈ sortBy f l ↔ a ∈ l :=
  (sortBy_perm f l).mem_iff

@[simp] theorem length_sortBy (f : α → β) (l : List α) : (sortBy f l).length = l.length :=
  (sortBy_perm f l).length_eq

theorem sortBy_le (f : α → β) (l : List α) : (sortBy f l).Pairwise fun a b => f a ≤ f b := by
  have : Std.Total fun a b : α => f a ≤ f b := ⟨fun a b => le_total (f a) (f b)⟩
  have : IsTrans α fun a b => f a ≤ f b := ⟨fun a b c => le_trans⟩
  exact List.pairwise_insertionSort _ l

/-- Distinct keys come out strictly increasing. -/
theorem sortBy_lt {f : α → β} {l : List α} (h : (l.map f).Nodup) :
    (sortBy f l).Pairwise fun a b => f a < f b := by
  have hne : (sortBy f l).Pairwise fun a b => f a ≠ f b :=
    List.pairwise_map.mp (((sortBy_perm f l).map f).nodup_iff.mpr h)
  exact ((sortBy_le f l).and hne).imp fun h => lt_of_le_of_ne h.1 h.2

/-- A list in strictly increasing order is the sorted form of each of its permutations. -/
theorem sortBy_eq {f : α → β} {l l' : List α} (hp : l.Perm l')
    (hs : l.Pairwise fun a b => f a < f b) : sortBy f l' = l := by
  refine List.Perm.eq_of_pairwise ?_ (sortBy_le f l') (hs.imp le_of_lt)
    ((sortBy_perm f l').trans hp.symm)
  intro a b ha hb hab hba
  have hinj : (l.map f).Nodup := List.pairwise_map.mpr (hs.imp ne_of_lt)
  exact List.inj_on_of_nodup_map hinj (hp.mem_iff.mpr (mem_sortBy.mp ha)) hb (le_antisymm hab hba)

theorem sortBy_of_lt {f : α → β} {l : List α} (hs : l.Pairwise fun a b => f a < f b) :
    sortBy f l = l :=
  sortBy_eq (List.Perm.refl l) hs

/-- Strictly increasing lists with the same members are the same list. -/
theorem eq_of_mem_iff {f : α → β} {l l' : List α} (hl : l.Pairwise fun a b => f a < f b)
    (hl' : l'.Pairwise fun a b => f a < f b) (h : ∀ a, a ∈ l ↔ a ∈ l') : l = l' := by
  have hnodup : ∀ {l : List α}, (l.Pairwise fun a b => f a < f b) → l.Nodup :=
    fun hl => hl.imp fun hab heq => by rw [heq] at hab; exact lt_irrefl _ hab
  rw [← sortBy_of_lt hl']
  exact (sortBy_eq ((List.perm_ext_iff_of_nodup (hnodup hl) (hnodup hl')).mpr h) hl).symm

theorem sortBy_map (f : γ → β) (g : α → γ) (l : List α) :
    sortBy f (l.map g) = (sortBy (fun a => f (g a)) l).map g := by
  unfold sortBy
  rw [List.map_insertionSort (fun a b => f (g a) ≤ f (g b)) (fun a b => f a ≤ f b) g l]
  intro a _ b _
  rfl

/-- A change that leaves alone what a test passes, and passes what the test passes, is not seen by it. -/
theorem filter_map_of_stable {l : List α} {p : α → Bool} {f : α → α} (hp : ∀ a ∈ l, p (f a) = p a)
    (hf : ∀ a ∈ l, p a = true → f a = a) : (l.map f).filter p = l.filter p := by
  have hsame : l.filter (p ∘ f) = l.filter p := List.filter_congr hp
  rw [List.filter_map, hsame]
  conv_rhs => rw [← List.map_id (l.filter p)]
  exact List.map_congr_left fun a ha => hf a (List.mem_filter.mp ha).1 (List.mem_filter.mp ha).2

/-- Filtering a sorted list sorts the filtered one. -/
theorem sortBy_filter {f : α → β} {l : List α} (p : α → Bool) (h : (l.map f).Nodup) :
    sortBy f (l.filter p) = (sortBy f l).filter p :=
  sortBy_eq ((sortBy_perm f l).filter p) ((sortBy_lt h).filter p)

/-- What comes behind the last of the first entries is what is greater. -/
theorem filter_gt_getLast {f : α → β} {l : List α} (hs : l.Pairwise fun a b => f a < f b) {n : Nat}
    {a : α} (h : (l.take n).getLast? = some a) {p : α → Bool} (hp : ∀ b, p b = true ↔ f a < f b) :
    l.filter p = l.drop n := by
  obtain ⟨init, hinit⟩ := List.getLast?_eq_some_iff.mp h
  have happend := hs
  rw [← List.take_append_drop n l] at happend
  obtain ⟨hfront, _, hacross⟩ := List.pairwise_append.mp happend
  have hmem : a ∈ l.take n := by rw [hinit]; simp
  conv_lhs => rw [← List.take_append_drop n l]
  rw [List.filter_append, List.filter_eq_nil_iff.mpr, List.filter_eq_self.mpr, List.nil_append]
  · exact fun b hb => (hp b).mpr (hacross a hmem b hb)
  · intro b hb
    rw [hp]
    rw [hinit] at hfront hb
    rcases List.mem_append.mp hb with hb | hb
    · exact not_lt_of_ge (le_of_lt ((List.pairwise_append.mp hfront).2.2 b hb a (List.mem_singleton_self a)))
    · rw [List.mem_singleton.mp hb]
      exact lt_irrefl _

/-- In a strictly increasing list entries compare as their indices do. -/
theorem getElem_lt_iff {f : α → β} {l : List α} (hs : l.Pairwise fun a b => f a < f b) {i j : Nat}
    (hi : i < l.length) (hj : j < l.length) : f l[i] < f l[j] ↔ i < j := by
  have hmono := List.pairwise_iff_getElem.mp hs
  constructor
  · intro h
    by_contra hij
    rcases Nat.lt_or_eq_of_le (Nat.le_of_not_lt hij) with hlt | rfl
    · exact lt_asymm h (hmono j i hj hi hlt)
    · exact lt_irrefl _ h
  · exact hmono i j hi hj

/-- Two entries are neighbours exactly if nothing in the list lies between them. -/
theorem succ_iff_no_between {f : α → β} {l : List α} (hs : l.Pairwise fun a b => f a < f b)
    {i j : Nat} (hi : i < l.length) (hj : j < l.length) (hij : i < j) :
    j = i + 1 ↔ ∀ a ∈ l, ¬ (f l[i] < f a ∧ f a < f l[j]) := by
  constructor
  · rintro rfl a ha ⟨hia, haj⟩
    obtain ⟨x, hx, rfl⟩ := List.mem_iff_getElem.mp ha
    rw [getElem_lt_iff hs hi hx] at hia
    rw [getElem_lt_iff hs hx hj] at haj
    omega
  · intro h
    by_contra hne
    have hmid : i + 1 < l.length := by omega
    refine h l[i + 1] (List.getElem_mem hmid) ⟨?_, ?_⟩
    · rw [getElem_lt_iff hs hi hmid]
      omega
    · rw [getElem_lt_iff hs hmid hj]
      omega

end SortBy

/-! ## Insertion -/

section Insert

variable {α : Type} {r : α → α → Prop}

theorem pairwise_insertIdx {l : List α} {k : Nat} {x : α} (hl : l.Pairwise r) (hk : k ≤ l.length)
    (hbefore : ∀ a ∈ l.take k, r a x) (hafter : ∀ a ∈ l.drop k, r x a) :
    (l.insertIdx k x).Pairwise r := by
  induction l generalizing k with
  | nil =>
    obtain rfl : k = 0 := by simpa using hk
    simp
  | cons y l ih =>
    rw [List.pairwise_cons] at hl
    cases k with
    | zero => exact List.pairwise_cons.mpr ⟨hafter, List.pairwise_cons.mpr hl⟩
    | succ k =>
      have hk' : k ≤ l.length := by simpa using hk
      have htail : (l.insertIdx k x).Pairwise r :=
        ih hl.2 hk' (fun a ha => hbefore a (List.mem_cons_of_mem y ha)) hafter
      refine List.pairwise_cons.mpr ⟨?_, htail⟩
      intro a ha
      rcases (List.mem_insertIdx hk').mp ha with rfl | ha
      · exact hbefore y (by simp)
      · exact hl.1 a ha

/-- In an increasing list everything before index `k` is at most the entry there. -/
theorem forall_take_of_pairwise {l : List α} (hl : l.Pairwise r) {k : Nat} {P : α → Prop}
    (hlast : ∀ a, l[k - 1]? = some a → 0 < k → P a) (hdown : ∀ a b, r a b → P b → P a)
    (hk : k ≤ l.length) : ∀ a ∈ l.take k, P a := by
  intro a ha
  obtain ⟨i, hi, rfl⟩ := List.mem_take_iff_getElem.mp ha
  have hik : i < k := by omega
  have hP : P l[k - 1] := hlast _ (List.getElem?_eq_getElem (by omega)) (by omega)
  by_cases h : i = k - 1
  · subst h; exact hP
  · exact hdown _ _ (List.pairwise_iff_getElem.mp hl i (k - 1) (by omega) (by omega) (by omega)) hP

/-- In an increasing list everything from index `k` on is at least the entry there. -/
theorem forall_drop_of_pairwise {l : List α} (hl : l.Pairwise r) {k : Nat} {P : α → Prop}
    (hfirst : ∀ a, l[k]? = some a → P a) (hup : ∀ a b, r a b → P a → P b) :
    ∀ a ∈ l.drop k, P a := by
  intro a ha
  obtain ⟨i, hi, rfl⟩ := List.mem_drop_iff_getElem.mp ha
  have hP : P l[k] := hfirst _ (List.getElem?_eq_getElem (by omega))
  by_cases h : i = 0
  · subst h; exact hP
  · exact hup _ _ (List.pairwise_iff_getElem.mp hl k (k + i) (by omega) (by omega) (by omega)) hP

end Insert
end Kurul
