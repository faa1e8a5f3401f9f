import Kurul.Order.Paging
import Mathlib.Data.List.Chain

/-!
# Kurul.Order.GapFree

A list put together from pages that were read at different times, each from the rows there were then.

* `GapFree`        — in order, with no row left out that was there when the later neighbour was read.
* `Continues`      — a part that can come after a cursor.
* `GapFree.append` — a part after a cursor the list ends at.
* `continues_page` — a page is such a part.
-/

namespace Paging

open Kurul

variable {α T K : Type} [LinearOrder K]

/-- What was read, with the rows there were. -/
structure Found (α T : Type) where
  value : T
  rows : List α

section Parts

variable (key : α → K) (keyOf : T → K) (p : α → Bool)

/-- In order, and with all the rows with `p` there were between two neighbours when the later one was
read. -/
structure GapFree (l : List (Found α T)) : Prop where
  increasing : l.Pairwise fun a b => keyOf a.value < keyOf b.value
  gapless : l.IsChain fun a b => ∀ r ∈ b.rows, p r = true →
    ¬ (keyOf a.value < key r ∧ key r < keyOf b.value)

/-- A part of the list from the first row after a cursor on. -/
structure Continues (cursor : Option K) (l : List (Found α T)) : Prop extends
    GapFree key keyOf p l where
  after : ∀ a ∈ l, after cursor (keyOf a.value) = true
  first : ∀ b ∈ l.head?, ∀ r ∈ b.rows, p r = true → Paging.after cursor (key r) = true →
    ¬ key r < keyOf b.value

end Parts

variable {key : α → K} {keyOf : T → K} {p : α → Bool} {l l' : List (Found α T)} {c : K}

theorem GapFree.nil : GapFree key keyOf p [] := ⟨.nil, .nil⟩

/-- The last of a list in order is the cursor, and what comes after the cursor comes after all. -/
theorem GapFree.append (h : GapFree key keyOf p l)
    (hc : l.getLast?.map (fun a => keyOf a.value) = some c)
    (h' : Continues key keyOf p (some c) l') : GapFree key keyOf p (l ++ l') := by
  obtain ⟨last, hlast, rfl⟩ := Option.map_eq_some_iff.mp hc
  have hafter : ∀ b ∈ l', keyOf last.value < keyOf b.value := fun b hb => by
    simpa [after] using h'.after b hb
  constructor
  · refine List.pairwise_append.mpr ⟨h.increasing, h'.increasing, fun a ha b hb => ?_⟩
    have hle : ∀ readKey : Found α T → K, (l.Pairwise fun a b => readKey a < readKey b) →
        readKey a ≤ readKey last := fun _ hs => le_getLast hs hlast ha
    exact lt_of_le_of_lt (hle _ h.increasing) (hafter b hb)
  · refine List.isChain_append.mpr ⟨h.gapless, h'.gapless, fun a ha b hb r hr hp hbetween => ?_⟩
    obtain rfl : last = a := Option.some.inj (hlast.symm.trans ha)
    exact h'.first b hb r hr hp (by simpa [after] using hbetween.1) hbetween.2

/-- Between two neighbours of a list in order there is none of its entries. -/
theorem not_between {page l₁ l₂ : List α} {a b r : α} (hs : page.Pairwise fun a b => key a < key b)
    (hpage : page = l₁ ++ a :: b :: l₂) (hr : r ∈ page) : ¬ (key a < key r ∧ key r < key b) := by
  subst hpage
  obtain ⟨-, htail, hcross⟩ := List.pairwise_append.mp hs
  obtain ⟨ha, hb⟩ := List.pairwise_cons.mp htail
  obtain ⟨hb, -⟩ := List.pairwise_cons.mp hb
  rintro ⟨har, hrb⟩
  simp only [List.mem_append, List.mem_cons] at hr
  rcases hr with hr | rfl | rfl | hr
  · exact lt_asymm har (hcross r hr a List.mem_cons_self)
  · exact lt_irrefl _ har
  · exact lt_irrefl _ hrb
  · exact lt_asymm hrb (hb r hr)

section Page

variable {rows : List α} {limit : Nat} {cursor : Option K} {map : α → T}

/-- What was found with a page. -/
def found (rows : List α) (page : CursorPage K T) : List (Found α T) :=
  page.items.map fun value => ⟨value, rows⟩

/-- A page in order that has every row after the cursor up to each of its own. -/
theorem continues_of_page {page : List α} (hkey : ∀ a, keyOf (map a) = key a)
    (hs : page.Pairwise fun a b => key a < key b)
    (hafter : ∀ a ∈ page, after cursor (key a) = true)
    (hall : ∀ b ∈ page, ∀ r ∈ rows, p r = true → after cursor (key r) = true → key r < key b → r ∈ page) :
    Continues key keyOf p cursor ((page.map map).map fun value => ⟨value, rows⟩) := by
  rw [List.map_map]
  refine ⟨⟨?_, ?_⟩, ?_, ?_⟩
  · exact List.pairwise_map.mpr (hs.imp fun hab => by simpa [hkey] using hab)
  · refine (List.isChain_map _).mpr (List.isChain_iff_forall_rel_of_append_cons_cons.mpr ?_)
    intro a b l₁ l₂ hpage r hr hp hbetween
    simp only [Function.comp_apply, hkey] at hr hbetween
    have ha : a ∈ page := by simp [hpage]
    have hb : b ∈ page := by simp [hpage]
    have hcursor : after cursor (key r) = true := by
      cases cursor with
      | none => rfl
      | some c => simpa [after] using lt_trans (by simpa [after] using hafter a ha) hbetween.1
    exact not_between hs hpage (hall b hb r hr hp hcursor hbetween.2) hbetween
  · intro a ha
    obtain ⟨x, hx, rfl⟩ := List.mem_map.mp ha
    simpa [hkey] using hafter x hx
  · intro b hb r hr hp hcursor hlt
    rw [List.head?_map] at hb
    obtain ⟨x, hx, rfl⟩ := Option.map_eq_some_iff.mp hb
    simp only [Function.comp_apply, hkey] at hr hlt
    obtain ⟨rest, rfl⟩ := List.head?_eq_some_iff.mp hx
    rcases List.mem_cons.mp (hall x List.mem_cons_self r hr hp hcursor hlt) with rfl | hmem
    · exact lt_irrefl _ hlt
    · exact lt_asymm hlt ((List.pairwise_cons.mp hs).1 r hmem)

/-- A page read from the rows with `p` continues at its cursor, and ends at the next one. -/
theorem continues_page (hkey : ∀ a, keyOf (map a) = key a) (hnd : (rows.map key).Nodup)
    (hlim : 0 < limit) :
    let page := toCursorPage key (readPage key limit cursor (rows.filter p)) limit map
    Continues key keyOf p cursor (found rows page) ∧
      (∀ c ∈ page.nextCursor, (found rows page).getLast?.map (fun a => keyOf a.value) = some c) ∧
      ∀ t ∈ page.items, ∃ a ∈ rows, p a = true ∧ t = map a := by
  have hnd' : ((rows.filter p).map key).Nodup := hnd.sublist (List.filter_sublist.map key)
  obtain ⟨page, hs, hmem, hcases⟩ := page_cases cursor map hnd' hlim
  have hfrom : ∀ t ∈ page.map map, ∃ a ∈ rows, p a = true ∧ t = map a := by
    intro t ht
    obtain ⟨a, ha, rfl⟩ := List.mem_map.mp ht
    obtain ⟨hrow, hp⟩ := List.mem_filter.mp (hmem a ha).1
    exact ⟨a, hrow, hp, rfl⟩
  have hcontinues : (∀ b ∈ page, ∀ r ∈ rows, p r = true → after cursor (key r) = true →
        key r < key b → r ∈ page) →
      Continues key keyOf p cursor ((page.map map).map fun value => ⟨value, rows⟩) :=
    continues_of_page hkey hs fun a ha => (hmem a ha).2
  rcases hcases with ⟨heq, hall⟩ | ⟨last, hlast, heq, hle, hall⟩
  · rw [heq]
    refine ⟨hcontinues fun b _ r hr hp hcursor _ => ?_, nofun, hfrom⟩
    exact hall r (List.mem_filter.mpr ⟨hr, hp⟩) hcursor
  · rw [heq]
    refine ⟨hcontinues fun b hb r hr hp hcursor hlt => ?_, ?_, hfrom⟩
    · exact hall r (List.mem_filter.mpr ⟨hr, hp⟩) hcursor (le_trans (le_of_lt hlt) (hle b hb))
    · rintro c ⟨⟩
      have hne : page ≠ [] := List.ne_nil_of_mem hlast
      have hend : page.getLast? = some (page.getLast hne) := List.getLast?_eq_some_getLast hne
      have hsame : key (page.getLast hne) = key last :=
        le_antisymm (hle _ (List.getLast_mem hne)) (le_getLast hs hend hlast)
      simp [found, List.getLast?_map, hend, hkey, hsame]

end Page

end Paging
