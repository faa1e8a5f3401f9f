import Mathlib.Algebra.GroupWithZero.Nat
import Mathlib.Data.List.Basic
import Mathlib.Data.List.Dedup
import Mathlib.Data.List.Forall2
import Mathlib.Data.List.Nodup
import Mathlib.Data.List.Perm.Basic

/-!
# Kurul.Order.Grouping

Entries of which each has a place or an error.

* `assigned_dropped_perm` — no entry is both assigned and dropped, and none is neither.
* `flatMap_assigned_perm` — walking the places, each once, walks the entries, each once.
* `filter_flatMap_key`    — of what parts contribute, the rows under one part's key are its own.
* `sum_length_filter`     — rows counted key by key are the rows counted at once.
* `exists_split`          — a split of what is read from entries comes from a split of the entries.
-/

namespace Kurul

variable {ε κ α : Type}

/-- The entries that have a place, each with it. -/
def assigned (place : α → Except ε κ) (entries : List α) : List (κ × α) :=
  entries.filterMap fun entry => (place entry).toOption.map fun k => (k, entry)

/-- The entries that have none. -/
def dropped (place : α → Except ε κ) (entries : List α) : List α :=
  entries.filter fun entry => !(place entry).isOk

variable {place : α → Except ε κ} {entries : List α}

theorem mem_assigned {e : κ × α} :
    e ∈ assigned place entries ↔ e.2 ∈ entries ∧ place e.2 = .ok e.1 := by
  unfold assigned
  rw [List.mem_filterMap]
  constructor
  · rintro ⟨entry, hmem, h⟩
    cases hp : place entry with
    | error e => simp [hp, Except.toOption] at h
    | ok k =>
      simp only [hp, Except.toOption, Option.map_some, Option.some.injEq] at h
      subst h
      exact ⟨hmem, hp⟩
  · rintro ⟨hmem, hp⟩
    exact ⟨e.2, hmem, by simp [hp, Except.toOption]⟩

/-- The entries that have one place. -/
theorem map_snd_filter_assigned [DecidableEq κ] (place : α → Except ε κ) (entries : List α) (k : κ) :
    ((assigned place entries).filter fun e => e.1 = k).map Prod.snd =
      entries.filter fun entry => (place entry).toOption = some k := by
  induction entries with
  | nil => rfl
  | cons entry rest ih =>
    cases hp : place entry with
    | error e => simpa [assigned, hp, Except.toOption] using ih
    | ok k' =>
      by_cases hk : k' = k
      · simpa [assigned, hp, Except.toOption, hk] using ih
      · simpa [assigned, hp, Except.toOption, hk] using ih

/-- Every entry either has a place or has none. -/
theorem assigned_dropped_perm (place : α → Except ε κ) (entries : List α) :
    ((assigned place entries).map Prod.snd ++ dropped place entries).Perm entries := by
  induction entries with
  | nil => exact List.Perm.refl _
  | cons entry rest ih =>
    cases hp : place entry with
    | error e =>
      have hd : dropped place (entry :: rest) = entry :: dropped place rest := by
        simp [dropped, hp, Except.isOk, Except.toBool]
      have ha : assigned place (entry :: rest) = assigned place rest := by
        simp [assigned, hp, Except.toOption]
      rw [hd, ha]
      exact List.perm_middle.trans (ih.cons _)
    | ok k =>
      have hd : dropped place (entry :: rest) = dropped place rest := by
        simp [dropped, hp, Except.isOk, Except.toBool]
      have ha : assigned place (entry :: rest) = (k, entry) :: assigned place rest := by
        simp [assigned, hp, Except.toOption]
      rw [hd, ha]
      exact ih.cons _

/-- Walking the places, each once, walks the entries, each once. -/
theorem flatMap_assigned_perm [DecidableEq κ] {ks : List κ} (hnd : ks.Nodup) {l : List (κ × α)}
    (hks : ∀ e ∈ l, e.1 ∈ ks) :
    (ks.flatMap fun k => (l.filter fun e => e.1 = k).map Prod.snd).Perm (l.map Prod.snd) := by
  have hperm : (ks.flatMap fun k => l.filter fun e => e.1 = k).Perm l := by
    induction ks generalizing l with
    | nil =>
      obtain rfl : l = [] := List.eq_nil_iff_forall_not_mem.mpr fun e he => by simpa using hks e he
      exact List.Perm.refl _
    | cons k ks ih =>
      rw [List.nodup_cons] at hnd
      rw [List.flatMap_cons]
      have hrest : (ks.flatMap fun j => l.filter fun e => e.1 = j) =
          ks.flatMap fun j => (l.filter fun e => e.1 ≠ k).filter fun e => e.1 = j := by
        refine List.flatMap_congr fun j hj => ?_
        rw [List.filter_filter]
        refine List.filter_congr fun e _ => ?_
        have hjk : j ≠ k := fun h => hnd.1 (h ▸ hj)
        by_cases he : e.1 = j
        · simp [he, hjk]
        · simp [he]
      have htail := ih hnd.2 (l := l.filter fun e => e.1 ≠ k) fun e he => by
        obtain ⟨hmem, hne⟩ := List.mem_filter.mp he
        exact (List.mem_cons.mp (hks e hmem)).resolve_left (by simpa using hne)
      rw [hrest]
      refine (htail.append_left _).trans ?_
      simpa using List.filter_append_perm (fun e : κ × α => decide (e.1 = k)) l
  rw [← List.map_flatMap]
  exact hperm.map Prod.snd

/-- In lists matched one to one, what is on the right has its match on the left. -/
theorem exists_of_forall₂_right {β : Type} {r : α → β → Prop} {l : List α} {l' : List β}
    (h : List.Forall₂ r l l') {b : β} (hb : b ∈ l') : ∃ a ∈ l, r a b := by
  induction h with
  | nil => cases hb
  | cons hab _ ih =>
    rcases List.mem_cons.mp hb with rfl | hb
    · exact ⟨_, List.mem_cons_self, hab⟩
    · obtain ⟨a, ha, hr⟩ := ih hb
      exact ⟨a, List.mem_cons_of_mem _ ha, hr⟩

/-- Of the rows that parts with distinct keys contribute, those under a part's key are its own. -/
theorem filter_flatMap_key {ι ρ : Type} [DecidableEq κ] {parts : List ι} (key : ι → κ)
    {items : ι → List ρ} {k : ρ → κ} (hnd : (parts.map key).Nodup)
    (hkey : ∀ p ∈ parts, ∀ item ∈ items p, k item = key p) {p : ι} (hp : p ∈ parts) :
    ((parts.flatMap items).filter fun item => k item = key p) = items p := by
  induction parts with
  | nil => cases hp
  | cons q parts ih =>
    rw [List.map_cons, List.nodup_cons] at hnd
    have hq := hkey q List.mem_cons_self
    have hparts := fun x hx => hkey x (List.mem_cons_of_mem q hx)
    rw [List.flatMap_cons, List.filter_append]
    rcases List.mem_cons.mp hp with rfl | hp
    · have hown : ((items p).filter fun item => k item = key p) = items p :=
        List.filter_eq_self.mpr fun item hitem => by simpa using hq item hitem
      have hrest : ((parts.flatMap items).filter fun item => k item = key p) = [] := by
        refine List.filter_eq_nil_iff.mpr fun item hitem => ?_
        obtain ⟨x, hx, hitem⟩ := List.mem_flatMap.mp hitem
        have hne : key x ≠ key p := fun h => hnd.1 (h ▸ List.mem_map_of_mem hx)
        simpa [hparts x hx item hitem] using hne
      rw [hown, hrest, List.append_nil]
    · have hnone : ((items q).filter fun item => k item = key p) = [] := by
        refine List.filter_eq_nil_iff.mpr fun item hitem => ?_
        have hne : key q ≠ key p := fun h => hnd.1 (h ▸ List.mem_map_of_mem hp)
        simpa [hq item hitem] using hne
      rw [hnone, List.nil_append]
      exact ih hnd.2 hparts hp

theorem filterMap_isSome_forall₂ {β : Type} (f : α → Option β) (l : List α) :
    List.Forall₂ (fun a b => f a = some b) (l.filter fun a => (f a).isSome) (l.filterMap f) := by
  induction l with
  | nil => exact .nil
  | cons a l ih =>
    cases h : f a with
    | none => simpa [List.filter_cons, List.filterMap_cons, h] using ih
    | some b => simpa [List.filter_cons, List.filterMap_cons, h] using ih

/-- What is read from entries, split in two, comes from a split of the entries: those behind
either half, and those that cannot be read. -/
theorem exists_split {β : Type} {f : α → Option β} {entries : List α} {l₁ l₂ : List β}
    (h : (l₁ ++ l₂).Perm (entries.filterMap f)) : ∃ w d,
      (w ++ (d ++ entries.filter fun a => (f a).isNone)).Perm entries ∧
      List.Forall₂ (fun a b => f a = some b) w l₁ ∧ List.Forall₂ (fun a b => f a = some b) d l₂ := by
  have hread := filterMap_isSome_forall₂ f entries
  obtain ⟨l, hl, hperm⟩ := List.perm_comp_forall₂ h hread.flip
  have hflip := hl.flip
  refine ⟨l.take l₁.length, l.drop l₁.length, ?_, List.forall₂_take_append _ _ _ hflip,
    List.forall₂_drop_append _ _ _ hflip⟩
  rw [← List.append_assoc, List.take_append_drop]
  refine (hperm.append_right _).trans ?_
  have hsplit := List.filter_append_perm (fun a => (f a).isSome) entries
  simpa only [Option.not_isSome] using hsplit

/-- Rows counted by a key and looked up by an image of it that tells the keys apart. -/
theorem getD_find?_groups {β : Type} [DecidableEq β] [DecidableEq κ] {l : List α} {f : α → β}
    {g : β → κ} {keys : List β}
    (hkeys : ∀ x, x ∈ keys ↔ x ∈ l.map f)
    (hg : ∀ a ∈ l, ∀ b ∈ l, g (f a) = g (f b) → f a = f b) (k : κ) :
    (((keys.map fun x => (g x, (l.filter fun a => f a = x).length)).find? fun e => e.1 = k).map
      Prod.snd).getD 0 = (l.filter fun a => g (f a) = k).length := by
  rw [List.find?_map, Option.map_map]
  cases hfind : keys.find? ((fun e : κ × Nat => decide (e.1 = k)) ∘ fun x =>
      (g x, (l.filter fun a => f a = x).length)) with
  | some x =>
    obtain rfl : g x = k := by simpa using List.find?_some hfind
    obtain ⟨a, ha, rfl⟩ := List.mem_map.mp ((hkeys x).mp (List.mem_of_find?_eq_some hfind))
    refine congrArg List.length (List.filter_congr fun b hb => ?_)
    rw [decide_eq_decide]
    exact ⟨congrArg g, hg b hb a ha⟩
  | none =>
    have hnone := List.find?_eq_none.mp hfind
    rw [Option.map_none, Option.getD_none, eq_comm, List.length_eq_zero_iff, List.filter_eq_nil_iff]
    intro a ha hk
    exact hnone (f a) ((hkeys _).mpr (List.mem_map_of_mem ha)) (by simpa using hk)

/-- Rows of which each is under one key at most, counted key by key. -/
theorem sum_length_filter {l : List α} {p : κ → α → Bool} :
    ∀ {keys : List κ}, keys.Nodup →
      (∀ a ∈ l, ∀ k ∈ keys, ∀ k' ∈ keys, p k a = true → p k' a = true → k = k') →
      (keys.map fun k => (l.filter (p k)).length).sum =
        (l.filter fun a => keys.any fun k => p k a).length := by
  intro keys
  induction keys with
  | nil => simp
  | cons k keys ih =>
    intro hnd hone
    rw [List.nodup_cons] at hnd
    have hrest := ih hnd.2 fun a ha k₁ h₁ k₂ h₂ =>
      hone a ha k₁ (List.mem_cons_of_mem k h₁) k₂ (List.mem_cons_of_mem k h₂)
    have hsplit : ∀ l' : List α, (∀ a ∈ l', a ∈ l) →
        (l'.filter fun a => (k :: keys).any fun k => p k a).length =
          (l'.filter (p k)).length + (l'.filter fun a => keys.any fun k => p k a).length := by
      intro l'
      induction l' with
      | nil => simp
      | cons a l' ih' =>
        intro hl'
        have ih' := ih' fun b hb => hl' b (List.mem_cons_of_mem a hb)
        by_cases hk : p k a = true
        · have hno : (keys.any fun k => p k a) = false := by
            refine List.any_eq_false.mpr fun k' hk' hp => hnd.1 ?_
            rwa [hone a (hl' a List.mem_cons_self) k List.mem_cons_self k'
              (List.mem_cons_of_mem k hk') hk hp]
          simp [hk, hno] at ih' ⊢
          omega
        · by_cases hany : (keys.any fun k => p k a) = true
          · simp [hk, hany] at ih' ⊢
            omega
          · simp [hk, hany] at ih' ⊢
            omega
    rw [List.map_cons, List.sum_cons, hrest, hsplit l fun _ h => h]

/-- Two disjoint parts are the whole when they are as long together. -/
theorem length_filter_add_eq_iff {l : List α} {p q : α → Bool}
    (hpq : ∀ a ∈ l, p a = true → q a = true → False) :
    (l.filter p).length + (l.filter q).length = l.length ↔ ∀ a ∈ l, p a = true ∨ q a = true := by
  suffices h : (l.filter p).length + (l.filter q).length ≤ l.length ∧
      ((l.filter p).length + (l.filter q).length = l.length ↔
        ∀ a ∈ l, p a = true ∨ q a = true) from h.2
  induction l with
  | nil => simp
  | cons a l ih =>
    obtain ⟨hle, hiff⟩ := ih fun b hb => hpq b (List.mem_cons_of_mem a hb)
    rw [List.forall_mem_cons, ← hiff]
    by_cases hp : p a = true
    · have hq : q a = false := Bool.eq_false_iff.mpr (hpq a List.mem_cons_self hp)
      simp [hp, hq]
      omega
    · by_cases hq : q a = true
      · simp [hp, hq]
        omega
      · simp [hp, hq]
        omega

end Kurul
