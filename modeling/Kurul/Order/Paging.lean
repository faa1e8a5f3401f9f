import Kurul.Order.SortBy
import Mathlib.Data.Finset.Card

/-!
# Kurul.Order.Paging

Lists read page by page, each page after the key its predecessor ended with, while the rows change
between pages.

* `toCursorPage`, `readPage` — the server's half: the rows after a cursor, one more than fit, cut.
* `drain`                    — the client's half: the loop over the pages.
* `drain_sound`              — what it has is in strictly increasing order, and was read.
* `drain_complete`           — what was there at every page it has read.
* `drain_terminates`         — once no keys are added.
* `drain_eq`                 — from rows that do not change, their sorted list.
-/

namespace Paging

open Kurul

variable {α T K : Type}

structure CursorPage (K T : Type) where
  items : List T
  nextCursor : Option K
  hasMore : Bool

/-- Splits an over-fetched result into a cursor page: the row too many says that there is more. -/
def toCursorPage (key : α → K) (rows : List α) (limit : Nat) (map : α → T) : CursorPage K T :=
  let hasMore := limit < rows.length
  let page := if hasMore then rows.take limit else rows
  ⟨page.map map, if hasMore then page.getLast?.map key else none, hasMore⟩

theorem toCursorPage_last {key : α → K} {limit : Nat} {rows : List α} {map : α → T}
    (h : rows.length ≤ limit) :
    toCursorPage key rows limit map = ⟨rows.map map, none, false⟩ := by
  simp only [toCursorPage, Nat.not_lt.mpr h, if_false, decide_false]

theorem toCursorPage_more {key : α → K} {limit : Nat} {rows : List α} {map : α → T}
    (h : limit < rows.length) : toCursorPage key rows limit map =
    ⟨(rows.take limit).map map, (rows.take limit).getLast?.map key, true⟩ := by
  simp only [toCursorPage, h, if_true, decide_true]

/-- The loop between two pages. -/
inductive Progress (K T : Type) where
  | going (cursor : Option K) (items : List T)
  | returned (items : List T)
  | thrown

/-- What the loop returned, if it has. -/
def Progress.result : Progress K T → Option (List T)
  | .returned items => some items
  | _ => none

theorem Progress.result_eq_some {p : Progress K T} {items : List T} (h : p.result = some items) :
    p = .returned items := by
  cases p with
  | returned items' => exact congrArg Progress.returned (Option.some.inj h)
  | going cursor items' => cases h
  | thrown => cases h

variable [LinearOrder K]

/-- Whether a key is after a cursor; without a cursor every key is. -/
def after (cursor : Option K) (k : K) : Bool := cursor.all fun c => c < k

/-- The rows after a cursor in the order of their keys, up to one more than the limit. -/
def readPage (key : α → K) (limit : Nat) (cursor : Option K) (rows : List α) : List α :=
  (sortBy key (rows.filter fun a => after cursor (key a))).take (limit + 1)

/-! ## The loop -/

/-- One page: its rows are kept, and the loop goes on if there is a next page. A cursor that does
not advance would loop forever, so it ends the loop instead. -/
def turn (truthy : K → Bool) (cursor : Option K) (items : List T) :
    Option (CursorPage K T) → Progress K T
  | none => .thrown
  | some page =>
    let items := items ++ page.items
    match page.nextCursor with
    | none => .returned items
    | some next =>
      if !page.hasMore || !truthy next || some next = cursor then .returned items
      else .going (some next) items

/-- The loop after `n` pages; `answer i cursor` is what the `i`-th request is answered, or the
exception it throws. -/
def drain (truthy : K → Bool) (answer : Nat → Option K → Option (CursorPage K T)) : Nat → Progress K T
  | 0 => .going none []
  | n + 1 =>
    match drain truthy answer n with
    | .going cursor items => turn truthy cursor items (answer n cursor)
    | p => p

/-! ## One page -/

section Page

variable {key : α → K} {limit : Nat} {cursor : Option K} {rows : List α} {map : α → T} {a : α}

omit [LinearOrder K] in
theorem toCursorPage_congr {map' : α → T} (h : ∀ a ∈ rows, map a = map' a) :
    toCursorPage key rows limit map = toCursorPage key rows limit map' := by
  by_cases hlen : limit < rows.length
  · rw [toCursorPage_more hlen, toCursorPage_more hlen]
    congr 1
    exact List.map_congr_left fun a ha => h a (List.mem_of_mem_take ha)
  · rw [toCursorPage_last (by omega), toCursorPage_last (by omega), List.map_congr_left h]

omit [LinearOrder K] in
theorem toCursorPage_map {β : Type} {f : α → β} {key : β → K} {map : β → T} :
    toCursorPage key (rows.map f) limit map = toCursorPage (key ∘ f) rows limit (map ∘ f) := by
  by_cases h : limit < rows.length
  · rw [toCursorPage_more (by rwa [List.length_map]), toCursorPage_more h, ← List.map_take,
      List.map_map, List.getLast?_map, Option.map_map]
  · rw [toCursorPage_last (by rw [List.length_map]; omega), toCursorPage_last (by omega), List.map_map]

omit [LinearOrder K] in
/-- The next cursor is the key of a row read. -/
theorem toCursorPage_next {c : K}
    (h : (toCursorPage key rows limit map).nextCursor = some c) : ∃ a ∈ rows, key a = c := by
  by_cases hlen : limit < rows.length
  · rw [toCursorPage_more hlen] at h
    obtain ⟨a, ha, hkey⟩ := Option.map_eq_some_iff.mp h
    exact ⟨a, List.mem_of_mem_take (List.mem_of_getLast? ha), hkey⟩
  · rw [toCursorPage_last (by omega)] at h
    cases h

theorem mem_readPage (h : a ∈ readPage key limit cursor rows) : a ∈ rows :=
  (List.mem_filter.mp (mem_sortBy.mp (List.mem_of_mem_take h))).1

theorem mem_after (cursor : Option K) (hnd : (rows.map key).Nodup) :
    (sortBy key (rows.filter fun a => after cursor (key a))).Pairwise (fun a b => key a < key b) ∧
      ∀ a, a ∈ sortBy key (rows.filter fun a => after cursor (key a)) ↔
        a ∈ rows ∧ after cursor (key a) = true := by
  refine ⟨sortBy_lt (hnd.sublist (List.filter_sublist.map key)), fun a => ?_⟩
  rw [mem_sortBy, List.mem_filter]

/-- The last entry of an increasing list is the greatest. -/
theorem le_getLast {l : List α} {last : α} (hs : l.Pairwise fun a b => key a < key b)
    (hlast : l.getLast? = some last) (ha : a ∈ l) : key a ≤ key last := by
  obtain ⟨init, rfl⟩ := List.getLast?_eq_some_iff.mp hlast
  rcases List.mem_append.mp ha with h | h
  · exact le_of_lt ((List.pairwise_append.mp hs).2.2 a h last (List.mem_singleton_self last))
  · rw [List.mem_singleton.mp h]

/-- A page is in order, and made of rows after the cursor. With no more to come it has all of them;
else it ends at the next cursor, and has all the rows up to there. -/
theorem page_cases (cursor : Option K) (map : α → T) (hnd : (rows.map key).Nodup)
    (hlim : 0 < limit) :
    ∃ page : List α, (page.Pairwise fun a b => key a < key b) ∧
      (∀ a ∈ page, a ∈ rows ∧ after cursor (key a) = true) ∧
      ((toCursorPage key (readPage key limit cursor rows) limit map = ⟨page.map map, none, false⟩ ∧
          ∀ a ∈ rows, after cursor (key a) = true → a ∈ page) ∨
        ∃ last ∈ page, toCursorPage key (readPage key limit cursor rows) limit map =
            ⟨page.map map, some (key last), true⟩ ∧
          (∀ a ∈ page, key a ≤ key last) ∧
          ∀ a ∈ rows, after cursor (key a) = true → key a ≤ key last → a ∈ page) := by
  obtain ⟨hsorted, hmem⟩ := mem_after cursor hnd
  unfold readPage
  generalize sortBy key (rows.filter fun a => after cursor (key a)) = found at hsorted hmem
  have hsub : ∀ n, (found.take n).Pairwise fun a b => key a < key b :=
    fun n => hsorted.sublist (List.take_sublist n found)
  refine ⟨found.take limit, hsub limit, fun a ha => (hmem a).mp (List.mem_of_mem_take ha), ?_⟩
  by_cases hmore : limit < found.length
  · right
    have hne : found.take limit ≠ [] := by
      rw [ne_eq, List.take_eq_nil_iff]
      intro h
      rcases h with h | h
      · omega
      · simp [h] at hmore
    have hlast : (found.take limit).getLast? = some ((found.take limit).getLast hne) :=
      List.getLast?_eq_some_getLast hne
    refine ⟨(found.take limit).getLast hne, List.getLast_mem hne, ?_, ?_, ?_⟩
    · rw [toCursorPage_more (by rw [List.length_take]; omega), List.take_take,
        Nat.min_eq_left (by omega), hlast]
      rfl
    · exact fun a ha => le_getLast (hsub limit) hlast ha
    · intro a ha hafter hle
      have hfound := (hmem a).mpr ⟨ha, hafter⟩
      rw [← List.take_append_drop limit found] at hfound hsorted
      rcases List.mem_append.mp hfound with h | h
      · exact h
      · exact absurd hle (not_le_of_gt
          ((List.pairwise_append.mp hsorted).2.2 _ (List.getLast_mem hne) a h))
  · left
    have hall : found.take limit = found := List.take_of_length_le (by omega)
    rw [toCursorPage_last (by rw [List.length_take]; omega), List.take_of_length_le (by omega), hall]
    exact ⟨rfl, fun a ha hafter => (hmem a).mpr ⟨ha, hafter⟩⟩

end Page

/-! ## The whole loop -/

section Loop

variable {key : α → K} {keyOf : T → K} {limit : Nat} {truthy : K → Bool}
  {answer : Nat → Option K → Option (CursorPage K T)} {l : Nat → List α} {map : Nat → α → T}

/-- The `i`-th request, if it is answered, is answered from the rows `l i`. -/
structure Serves (key : α → K) (keyOf : T → K) (limit : Nat) (truthy : K → Bool)
    (answer : Nat → Option K → Option (CursorPage K T)) (l : Nat → List α) (map : Nat → α → T) :
    Prop where
  limit_pos : 0 < limit
  nodup : ∀ i, ((l i).map key).Nodup
  keys_truthy : ∀ i, ∀ a ∈ l i, truthy (key a) = true
  key_map : ∀ i a, keyOf (map i a) = key a
  answers : ∀ i cursor, (∀ c ∈ cursor, truthy c = true) → answer i cursor = none ∨
    answer i cursor = some (toCursorPage key (readPage key limit cursor (l i)) limit (map i))

/-- A key that was there at each of the first `n` pages. -/
def Stays (key : α → K) (l : Nat → List α) (n : Nat) (k : K) : Prop := ∀ i < n, ∃ a ∈ l i, key a = k

/-- What the loop has after `n` pages: rows it has read, in order, up to a bound all that stayed. -/
structure Holds (key : α → K) (keyOf : T → K) (l : Nat → List α) (map : Nat → α → T) (n : Nat)
    (bound : K → Prop) (items : List T) : Prop where
  sorted : items.Pairwise fun t t' => keyOf t < keyOf t'
  upto : ∀ t ∈ items, bound (keyOf t)
  sound : ∀ t ∈ items, ∃ i < n, ∃ a ∈ l i, t = map i a
  complete : ∀ k, bound k → Stays key l n k → ∃ t ∈ items, keyOf t = k

/-- Up to the cursor. -/
def UpTo (cursor : Option K) (k : K) : Prop := ∃ c ∈ cursor, k ≤ c

theorem after_or_upTo (cursor : Option K) (k : K) : after cursor k = true ∨ UpTo cursor k := by
  cases cursor with
  | none => exact .inl rfl
  | some c =>
    rcases lt_or_ge c k with h | h
    · exact .inl (by simpa [after] using h)
    · exact .inr ⟨c, rfl, h⟩

theorem lt_of_upTo {cursor : Option K} {k k' : K} (h : UpTo cursor k) (h' : after cursor k' = true) :
    k < k' := by
  obtain ⟨c, rfl, hle⟩ := h
  exact lt_of_le_of_lt hle (by simpa [after] using h')

variable (hs : Serves key keyOf limit truthy answer l map) {n : Nat} {cursor : Option K}
  {items : List T}

include hs in
/-- A page behind what there is: what there is then. -/
theorem Holds.append (h : Holds key keyOf l map n (UpTo cursor) items) {page : List α}
    (hsorted : page.Pairwise fun a b => key a < key b)
    (hmem : ∀ a ∈ page, a ∈ l n ∧ after cursor (key a) = true) {bound : K → Prop}
    (hupto : ∀ k, UpTo cursor k → bound k) (hpage : ∀ a ∈ page, bound (key a))
    (hall : ∀ a ∈ l n, after cursor (key a) = true → bound (key a) → a ∈ page) :
    Holds key keyOf l map (n + 1) bound (items ++ page.map (map n)) := by
  constructor
  · refine List.pairwise_append.mpr ⟨h.sorted, ?_, ?_⟩
    · exact List.pairwise_map.mpr (hsorted.imp fun hab => by rwa [hs.key_map, hs.key_map])
    · intro t ht t' ht'
      obtain ⟨a, ha, rfl⟩ := List.mem_map.mp ht'
      rw [hs.key_map]
      exact lt_of_upTo (h.upto t ht) (hmem a ha).2
  · intro t ht
    rcases List.mem_append.mp ht with ht | ht
    · exact hupto _ (h.upto t ht)
    · obtain ⟨a, ha, rfl⟩ := List.mem_map.mp ht
      rw [hs.key_map]
      exact hpage a ha
  · intro t ht
    rcases List.mem_append.mp ht with ht | ht
    · obtain ⟨i, hi, hrest⟩ := h.sound t ht
      exact ⟨i, by omega, hrest⟩
    · obtain ⟨a, ha, rfl⟩ := List.mem_map.mp ht
      exact ⟨n, by omega, a, (hmem a ha).1, rfl⟩
  · intro k hk hstays
    rcases after_or_upTo cursor k with hafter | hupto'
    · obtain ⟨a, ha, rfl⟩ := hstays n (by omega)
      exact ⟨map n a, List.mem_append_right _ (List.mem_map_of_mem (hall a ha hafter hk)),
        hs.key_map n a⟩
    · obtain ⟨t, ht, hkey⟩ := h.complete k hupto' fun i hi => hstays i (by omega)
      exact ⟨t, List.mem_append_left _ ht, hkey⟩

/-- The loop between two pages: the cursor is a key, and bounds what there is. -/
def Going (key : α → K) (keyOf : T → K) (truthy : K → Bool) (l : Nat → List α) (map : Nat → α → T)
    (n : Nat) (cursor : Option K) (items : List T) : Prop :=
  (∀ c ∈ cursor, truthy c = true) ∧ Holds key keyOf l map n (UpTo cursor) items

include hs in
/-- One page: the loop goes on behind a greater cursor, one of the keys read, or returns with all
that stayed, or throws because the request does. -/
theorem turn_cases (h : Going key keyOf truthy l map n cursor items) :
    (∃ c items', turn truthy cursor items (answer n cursor) = .going (some c) items' ∧
      Going key keyOf truthy l map (n + 1) (some c) items' ∧ after cursor c = true ∧
      ∃ a ∈ l n, key a = c) ∨
    (∃ items', turn truthy cursor items (answer n cursor) = .returned items' ∧
      Holds key keyOf l map (n + 1) (fun _ => True) items') ∨
    turn truthy cursor items (answer n cursor) = .thrown ∧ answer n cursor = none := by
  rcases hs.answers n cursor h.1 with hnone | hsome
  · exact .inr (.inr ⟨by rw [hnone, turn], hnone⟩)
  · obtain ⟨page, hsorted, hmem, ⟨hpage, hall⟩ | ⟨last, hlast, hpage, hle, hall⟩⟩ :=
      page_cases cursor (map n) (hs.nodup n) hs.limit_pos
    · refine .inr (.inl ⟨_, by rw [hsome, hpage, turn], ?_⟩)
      exact h.2.append hs hsorted hmem (fun _ _ => trivial) (fun _ _ => trivial)
        fun a ha hafter _ => hall a ha hafter
    · have hnext : truthy (key last) = true := hs.keys_truthy n last (hmem last hlast).1
      have hafter := (hmem last hlast).2
      have hne : some (key last) ≠ cursor := by
        intro heq
        rw [← heq] at hafter
        simp [after] at hafter
      refine .inl ⟨key last, items ++ page.map (map n), ?_, ⟨?_, ?_⟩, hafter, last,
        (hmem last hlast).1, rfl⟩
      · rw [hsome, hpage]
        simp [turn, hnext, hne]
      · intro c hc
        cases hc
        exact hnext
      · refine h.2.append hs hsorted hmem ?_ (fun a ha => ⟨_, rfl, hle a ha⟩) ?_
        · exact fun k hk => ⟨_, rfl, le_of_lt (lt_of_upTo hk hafter)⟩
        · intro a ha hafter' hbound
          obtain ⟨c, hc, hle'⟩ := hbound
          cases hc
          exact hall a ha hafter' hle'

/-- Two servers whose answers are the same, and who hand out only cursors that they are the same for. -/
theorem drain_congr {answer' : Nat → Option K → Option (CursorPage K T)} {P : K → Prop}
    (hsame : ∀ i cursor, (∀ c ∈ cursor, P c) → answer i cursor = answer' i cursor)
    (hnext : ∀ i cursor page, answer' i cursor = some page → ∀ c ∈ page.nextCursor, P c) (n : Nat) :
    drain truthy answer n = drain truthy answer' n := by
  suffices h : drain truthy answer n = drain truthy answer' n ∧
      ∀ cursor items, drain truthy answer' n = .going cursor items → ∀ c ∈ cursor, P c from h.1
  induction n with
  | zero =>
    refine ⟨rfl, fun cursor items h => ?_⟩
    cases h
    exact nofun
  | succ n ih =>
    obtain ⟨heq, hcursor⟩ := ih
    rw [drain, drain, heq]
    cases hprev : drain truthy answer' n with
    | going cursor items =>
      dsimp only
      rw [hsame n cursor (hcursor cursor items hprev)]
      refine ⟨rfl, fun cursor' items' h => ?_⟩
      cases hpage : answer' n cursor with
      | none =>
        rw [hpage] at h
        cases h
      | some page =>
        rw [hpage, turn] at h
        cases hc : page.nextCursor with
        | none =>
          rw [hc] at h
          cases h
        | some next =>
          rw [hc] at h
          dsimp only at h
          split at h
          · cases h
          · cases h
            exact hc ▸ hnext n cursor page hpage
    | returned items => exact ⟨rfl, fun _ _ h => by cases h⟩
    | thrown => exact ⟨rfl, fun _ _ h => by cases h⟩

theorem drain_succ (h : drain truthy answer n = .going cursor items) :
    drain truthy answer (n + 1) = turn truthy cursor items (answer n cursor) := by
  rw [drain, h]

include hs in
theorem drain_going (h : drain truthy answer n = .going cursor items) :
    Going key keyOf truthy l map n cursor items := by
  induction n generalizing cursor items with
  | zero =>
    cases h
    refine ⟨nofun, List.Pairwise.nil, nofun, nofun, fun k hk _ => ?_⟩
    obtain ⟨c, hc, _⟩ := hk
    cases hc
  | succ n ih =>
    rw [drain] at h
    split at h
    · rename_i c items₀ hprev
      rcases turn_cases hs (ih hprev) with ⟨c', items', hturn, hgoing, _⟩ | ⟨items', hturn, _⟩ | ⟨hturn, _⟩
      · rw [hturn] at h
        cases h
        exact hgoing
      · rw [hturn] at h
        cases h
      · rw [hturn] at h
        cases h
    · rename_i hne
      exact absurd h (hne cursor items)

include hs in
/-- What was there at every page the loop has read when it returns, it returns. -/
theorem drain_complete {items' : List T} (h : drain truthy answer n = .going cursor items)
    (h' : drain truthy answer (n + 1) = .returned items') :
    Holds key keyOf l map (n + 1) (fun _ => True) items' := by
  rw [drain_succ h] at h'
  rcases turn_cases hs (drain_going hs h) with ⟨c', _, hturn, _⟩ | ⟨_, hturn, hholds⟩ | ⟨hturn, _⟩
  · exact absurd (hturn.symm.trans h') nofun
  · rw [hturn] at h'
    cases h'
    exact hholds
  · exact absurd (hturn.symm.trans h') nofun

/-- A loop that has returned did so after some page. -/
theorem drain_returned (h : drain truthy answer n = .returned items) :
    ∃ m < n, ∃ cursor items₀, drain truthy answer m = .going cursor items₀ ∧
      drain truthy answer (m + 1) = .returned items := by
  induction n with
  | zero => cases h
  | succ n ih =>
    cases hprev : drain truthy answer n with
    | going cursor items₀ => exact ⟨n, by omega, cursor, items₀, hprev, h⟩
    | returned items₀ =>
      rw [drain, hprev] at h
      obtain ⟨m, hm, hrest⟩ := ih (hprev.trans h)
      exact ⟨m, by omega, hrest⟩
    | thrown =>
      rw [drain, hprev] at h
      cases h

include hs in
/-- At any page: in strictly increasing order, and read at one of the pages. -/
theorem drain_sound
    (h : (∃ cursor, drain truthy answer n = .going cursor items) ∨ drain truthy answer n = .returned items) :
    (items.Pairwise fun t t' => keyOf t < keyOf t') ∧ ∀ t ∈ items, ∃ i < n, ∃ a ∈ l i, t = map i a := by
  rcases h with ⟨cursor, h⟩ | h
  · have hgoing := drain_going hs h
    exact ⟨hgoing.2.sorted, hgoing.2.sound⟩
  · obtain ⟨m, hm, cursor, items₀, hprev, hret⟩ := drain_returned h
    have hholds := drain_complete hs hprev hret
    refine ⟨hholds.sorted, fun t ht => ?_⟩
    obtain ⟨i, hi, hrest⟩ := hholds.sound t ht
    exact ⟨i, by omega, hrest⟩

include hs in
/-- Only a request that throws makes the loop throw. -/
theorem drain_thrown (h : drain truthy answer n = .thrown) :
    ∃ i < n, ∃ cursor, answer i cursor = none := by
  induction n with
  | zero => cases h
  | succ n ih =>
    cases hprev : drain truthy answer n with
    | going cursor items =>
      rw [drain_succ hprev] at h
      rcases turn_cases hs (drain_going hs hprev) with ⟨_, _, hturn, _⟩ | ⟨_, hturn, _⟩ | ⟨_, hnone⟩
      · exact absurd (hturn.symm.trans h) nofun
      · exact absurd (hturn.symm.trans h) nofun
      · exact ⟨n, by omega, cursor, hnone⟩
    | returned items =>
      rw [drain, hprev] at h
      cases h
    | thrown =>
      obtain ⟨i, hi, hrest⟩ := ih hprev
      exact ⟨i, by omega, hrest⟩

/-- The keys still to come. -/
def keysAfter (keys : List K) (cursor : Option K) : Finset K :=
  keys.toFinset.filter fun k => after cursor k = true

theorem card_keysAfter_lt {keys : List K} {k : K} (hk : k ∈ keys) (hafter : after cursor k = true) :
    (keysAfter keys (some k)).card < (keysAfter keys cursor).card := by
  refine Finset.card_lt_card (Finset.ssubset_iff_of_subset ?_ |>.mpr ⟨k, ?_, ?_⟩)
  · intro k' hk'
    obtain ⟨hmem, hgt⟩ := Finset.mem_filter.mp hk'
    refine Finset.mem_filter.mpr ⟨hmem, ?_⟩
    have hgt' : k < k' := by simpa [after] using hgt
    cases cursor with
    | none => rfl
    | some c =>
      have hc : c < k := by simpa [after] using hafter
      simpa [after] using lt_trans hc hgt'
  · exact Finset.mem_filter.mpr ⟨List.mem_toFinset.mpr hk, hafter⟩
  · simp [keysAfter, after]

include hs in
/-- Once no keys are added the loop comes to its end: each page moves the cursor to a greater one of
finitely many keys. -/
theorem drain_terminates {keys : Nat → List K} (hkeys : ∀ i, ∀ a ∈ l i, key a ∈ keys i) {n₀ : Nat}
    (hstop : ∀ i, n₀ ≤ i → keys (i + 1) ⊆ keys i) :
    ∃ n, (∃ items, drain truthy answer n = .returned items) ∨ drain truthy answer n = .thrown := by
  have hsub : ∀ d, keys (n₀ + d) ⊆ keys n₀ := by
    intro d
    induction d with
    | zero => exact List.Subset.refl _
    | succ d ih => exact fun k hk => ih (hstop (n₀ + d) (by omega) hk)
  -- by induction on how many of the keys are still to come
  have hgo : ∀ m d cursor items, drain truthy answer (n₀ + d) = .going cursor items →
      (keysAfter (keys n₀) cursor).card = m →
      ∃ n, (∃ items, drain truthy answer n = .returned items) ∨ drain truthy answer n = .thrown := by
    intro m
    induction m using Nat.strong_induction_on with
    | _ m ih =>
      intro d cursor items h hcard
      rcases turn_cases hs (drain_going hs h) with
        ⟨c, items', hturn, _, hafter, a, ha, rfl⟩ | ⟨items', hturn, _⟩ | ⟨hturn, _⟩
      · have hlt := card_keysAfter_lt (hsub d (hkeys _ a ha)) hafter
        exact ih _ (hcard ▸ hlt) (d + 1) (some (key a)) items' ((drain_succ h).trans hturn) rfl
      · exact ⟨n₀ + d + 1, .inl ⟨items', (drain_succ h).trans hturn⟩⟩
      · exact ⟨n₀ + d + 1, .inr ((drain_succ h).trans hturn)⟩
  cases h : drain truthy answer n₀ with
  | going cursor items => exact hgo _ 0 cursor items h rfl
  | returned items => exact ⟨n₀, .inl ⟨items, h⟩⟩
  | thrown => exact ⟨n₀, .inr h⟩

include hs in
/-- From rows that do not change: their sorted list, whatever the limit. -/
theorem drain_eq {rows : List α} {f : α → T} (hl : ∀ i, l i = rows) (hmap : ∀ i a, map i a = f a)
    (h : drain truthy answer n = .returned items) : items = (sortBy key rows).map f := by
  obtain ⟨m, _, cursor, items₀, hprev, hret⟩ := drain_returned h
  have hholds := drain_complete hs hprev hret
  have hnd : (rows.map key).Nodup := hl 0 ▸ hs.nodup 0
  have hkey : ∀ a, keyOf (f a) = key a := fun a => hmap 0 a ▸ hs.key_map 0 a
  refine eq_of_mem_iff (f := keyOf) hholds.sorted ?_ fun t => ?_
  · exact List.pairwise_map.mpr ((sortBy_lt hnd).imp fun hab => by rwa [hkey, hkey])
  · rw [List.mem_map]
    constructor
    · intro ht
      obtain ⟨i, _, a, ha, rfl⟩ := hholds.sound t ht
      exact ⟨a, mem_sortBy.mpr (hl i ▸ ha), (hmap i a).symm⟩
    · intro ht
      obtain ⟨a, ha, rfl⟩ := ht
      have ha := mem_sortBy.mp ha
      obtain ⟨t, ht, heq⟩ := hholds.complete (key a) trivial fun i _ => ⟨a, hl i ▸ ha, rfl⟩
      obtain ⟨i, _, a', ha', rfl⟩ := hholds.sound t ht
      rw [hs.key_map] at heq
      obtain rfl := List.inj_on_of_nodup_map hnd (hl i ▸ ha') ha heq
      rwa [hmap] at ht

end Loop

end Paging
