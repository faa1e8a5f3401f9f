import Kurul.History
import Kurul.JsString
import Kurul.Order.SortBy

/-!
# Kurul.Web.BoardLog

The server as a viewer of one board meets it: the tasks of the board as they stood after each commit,
and the pages a drain reads them in.

* `card_succ`      — what one commit does to what is known of one task.
* `page_covers`    — a page has every task it does not leave to the pages after it.
-/

namespace Kurul
namespace Web

open History

/-- Where a task stands. -/
structure Card where
  id : Id
  columnId : Id
  position : Position
  deriving DecidableEq

inductive Change where
  | created (card : Card)
  /-- Everything but the place: `PATCH /tasks/:id`. -/
  | updated (taskId : Id)
  /-- With the positions that others of the column were given to make room. -/
  | moved (taskId columnId : Id) (position : Position) (respread : List (Id × Position))
  | deleted (taskId : Id)
  deriving DecidableEq

/-- A change and who made it. -/
structure Commit where
  change : Change
  actorId : Id
  deriving DecidableEq

def Change.taskId : Change → Id
  | .created card => card.id
  | .updated taskId => taskId
  | .moved taskId _ _ _ => taskId
  | .deleted taskId => taskId

/-- One task stands elsewhere. -/
def place (taskId columnId : Id) (position : Position) (cards : List Card) : List Card :=
  cards.map fun card => if card.id = taskId then { card with columnId, position } else card

def remove (taskId : Id) (cards : List Card) : List Card := cards.filter fun card => card.id ≠ taskId

def reposition (positions : List (Id × Position)) (cards : List Card) : List Card :=
  cards.map fun card => match positions.lookup card.id with
    | some position => { card with position }
    | none => card

def Change.apply : Change → List Card → List Card
  | .created card, cards => cards ++ [card]
  | .updated _, cards => cards
  | .moved taskId columnId position respread, cards =>
    place taskId columnId position (reposition respread cards)
  | .deleted taskId, cards => remove taskId cards

/-- No task moves but the one it names. -/
def Change.Plain : Change → Prop
  | .moved _ _ _ respread => respread = []
  | _ => True

instance (c : Change) : Decidable c.Plain := by
  cases c <;> unfold Change.Plain <;> infer_instance

@[simp] theorem reposition_nil (cards : List Card) : reposition [] cards = cards :=
  List.map_id cards

/-- The task with this id. -/
def cardOf (cards : List Card) (taskId : Id) : Option Card := cards.find? fun card => card.id = taskId

section CardOf

variable {cards : List Card} {card : Card} {taskId : Id}

theorem cardOf_eq_none : cardOf cards taskId = none ↔ ∀ card ∈ cards, card.id ≠ taskId := by
  simp [cardOf]

theorem id_of_cardOf (h : cardOf cards taskId = some card) : card.id = taskId := by
  simpa using List.find?_some h

theorem mem_of_cardOf (h : cardOf cards taskId = some card) : card ∈ cards :=
  List.mem_of_find?_eq_some h

theorem cardOf_of_mem (hnd : (cards.map Card.id).Nodup) (hmem : card ∈ cards) :
    cardOf cards card.id = some card := by
  cases h : cardOf cards card.id with
  | none => exact absurd rfl (cardOf_eq_none.mp h card hmem)
  | some card' =>
    rw [List.inj_on_of_nodup_map hnd (mem_of_cardOf h) hmem (id_of_cardOf h)]

@[simp] theorem cardOf_append {cards' : List Card} :
    cardOf (cards ++ cards') taskId = (cardOf cards taskId).or (cardOf cards' taskId) :=
  List.find?_append

theorem cardOf_map {f : Card → Card} (hf : ∀ card, (f card).id = card.id) :
    cardOf (cards.map f) taskId = (cardOf cards taskId).map f := by
  simp only [cardOf, List.find?_map, Function.comp_def, hf]

theorem cardOf_filter {p : Card → Bool} (hp : ∀ card ∈ cards, card.id = taskId → p card = true) :
    cardOf (cards.filter p) taskId = cardOf cards taskId := by
  unfold cardOf
  induction cards with
  | nil => rfl
  | cons card rest ih =>
    have ih := ih fun card' hmem => hp card' (List.mem_cons_of_mem _ hmem)
    by_cases h : card.id = taskId
    · rw [List.filter_cons_of_pos (hp card List.mem_cons_self h), List.find?_cons_of_pos (by simpa),
        List.find?_cons_of_pos (by simpa)]
    · rw [List.find?_cons_of_neg (by simpa), List.filter_cons]
      split
      · rw [List.find?_cons_of_neg (by simpa), ih]
      · exact ih

/-- Lists that show every task alike have the same tasks. -/
theorem perm_of_cardOf {cards' : List Card} (hnd : (cards.map Card.id).Nodup)
    (hnd' : (cards'.map Card.id).Nodup) (h : ∀ taskId, cardOf cards taskId = cardOf cards' taskId) :
    cards.Perm cards' := by
  refine (List.perm_ext_iff_of_nodup (List.Nodup.of_map _ hnd) (List.Nodup.of_map _ hnd')).mpr ?_
  intro card
  constructor
  · intro hmem
    exact mem_of_cardOf ((h card.id).symm.trans (cardOf_of_mem hnd hmem))
  · intro hmem
    exact mem_of_cardOf ((h card.id).trans (cardOf_of_mem hnd' hmem))

theorem cardOf_perm {cards cards' : List Card} (hnd : (cards.map Card.id).Nodup)
    (h : cards'.Perm cards) (taskId : Id) : cardOf cards' taskId = cardOf cards taskId := by
  have hnd' : (cards'.map Card.id).Nodup := (h.map Card.id).nodup_iff.mpr hnd
  cases hcard : cardOf cards taskId with
  | none => exact cardOf_eq_none.mpr fun card hmem => cardOf_eq_none.mp hcard card (h.mem_iff.mp hmem)
  | some card =>
    rw [← id_of_cardOf hcard]
    exact cardOf_of_mem hnd' (h.mem_iff.mpr (mem_of_cardOf hcard))

end CardOf

theorem cardOf_place {cards : List Card} {t taskId columnId : Id} {position : Position} :
    cardOf (place t columnId position cards) taskId =
      if t = taskId then (cardOf cards taskId).map fun card => { card with columnId, position }
      else cardOf cards taskId := by
  rw [place, cardOf_map (fun card => by split <;> rfl)]
  cases h : cardOf cards taskId with
  | none => simp
  | some card =>
    have hid := id_of_cardOf h
    by_cases ht : t = taskId <;> simp [hid, ht, eq_comm]

theorem cardOf_remove {cards : List Card} {t taskId : Id} :
    cardOf (remove t cards) taskId = if t = taskId then none else cardOf cards taskId := by
  split
  · rename_i h
    subst h
    rw [cardOf_eq_none]
    intro card hmem
    simpa using (List.mem_filter.mp hmem).2
  · rename_i h
    exact cardOf_filter fun card _ hid => decide_eq_true fun heq => h (heq.symm.trans hid)

theorem ids_place (taskId columnId : Id) (position : Position) (cards : List Card) :
    (place taskId columnId position cards).map Card.id = cards.map Card.id := by
  simp only [place, List.map_map]
  refine List.map_congr_left fun card _ => ?_
  simp only [Function.comp_apply]
  split <;> rfl

/-- What a plain change makes of one task. -/
def Change.onCard : Change → Id → Option Card → Option Card
  | .created card, taskId, known => known.or (if card.id = taskId then some card else none)
  | .updated _, _, known => known
  | .moved t columnId position _, taskId, known =>
    if t = taskId then known.map fun card => { card with columnId, position } else known
  | .deleted t, taskId, known => if t = taskId then none else known

theorem cardOf_apply {c : Change} (h : c.Plain) (cards : List Card) (taskId : Id) :
    cardOf (c.apply cards) taskId = c.onCard taskId (cardOf cards taskId) := by
  cases c with
  | created card =>
    simp only [Change.apply, cardOf_append, Change.onCard]
    congr 1
    by_cases h : card.id = taskId <;> simp [cardOf, h]
  | updated t => rfl
  | moved t columnId position respread =>
    obtain rfl : respread = [] := h
    rw [Change.apply, reposition_nil]
    exact cardOf_place
  | deleted t => exact cardOf_remove

/-! ## The log -/

/-- A board, and every commit to it since. -/
structure BoardLog where
  initial : List Card
  commits : List Commit

namespace BoardLog

/-- The board after the first `n` commits. -/
def cards (l : BoardLog) (n : Nat) : List Card :=
  version (fun c : Commit => c.change.apply) l.initial l.commits n

/-- The number of commits so far. -/
def now (l : BoardLog) : Nat := l.commits.length

def card (l : BoardLog) (n : Nat) (taskId : Id) : Option Card := cardOf (l.cards n) taskId

def push (l : BoardLog) (c : Commit) : BoardLog := { l with commits := l.commits ++ [c] }

/-- A commit that can be the `n`-th: a task is created under an id that never was, and changed only
while it is there. -/
def Fits (l : BoardLog) (n : Nat) : Change → Prop
  | .created card => ∀ m ≤ n, l.card m card.id = none
  | .updated taskId | .moved taskId _ _ _ | .deleted taskId => l.card n taskId ≠ none

instance (l : BoardLog) (n : Nat) (c : Change) : Decidable (l.Fits n c) := by
  cases c <;> unfold Fits <;> infer_instance

structure Sound (l : BoardLog) : Prop where
  nodup : (l.initial.map Card.id).Nodup
  fits : ∀ n c, l.commits[n]? = some c → l.Fits n c.change
  plain : ∀ (n : Nat) c, l.commits[n]? = some c → c.change.Plain

variable {l : BoardLog} {c : Commit} {n : Nat} {taskId : Id}

@[simp] theorem now_push : (l.push c).now = l.now + 1 := by simp [now, push]

theorem commits_push (h : n < l.now) : (l.push c).commits[n]? = l.commits[n]? :=
  List.getElem?_append_left h

theorem commits_push_now : (l.push c).commits[l.now]? = some c := by simp [push, now]

theorem cards_push (h : n ≤ l.now) : (l.push c).cards n = l.cards n := version_append [c] h

theorem card_push (h : n ≤ l.now) : (l.push c).card n taskId = l.card n taskId := by
  rw [card, cards_push h, card]

theorem Sound.card_succ (hl : l.Sound) (h : l.commits[n]? = some c) :
    l.card (n + 1) taskId = c.change.onCard taskId (l.card n taskId) := by
  rw [card, cards, version_succ h, cardOf_apply (hl.plain n c h)]
  rfl

theorem commits_push_eq {c' : Commit} (h : (l.push c).commits[n]? = some c') :
    n < l.now ∧ l.commits[n]? = some c' ∨ n = l.now ∧ c = c' := by
  rcases Nat.lt_or_ge n l.now with hn | hn
  · exact .inl ⟨hn, by rwa [commits_push hn] at h⟩
  · obtain rfl : n = l.now := by
      have hlt := (List.getElem?_eq_some_iff.mp h).1
      simp only [push, List.length_append, List.length_cons, List.length_nil] at hlt
      exact Nat.le_antisymm (Nat.lt_succ_iff.mp hlt) hn
    exact .inr ⟨rfl, Option.some.inj (commits_push_now.symm.trans h)⟩

theorem fits_push {change : Change} (hn : n ≤ l.now) (h : l.Fits n change) :
    (l.push c).Fits n change := by
  cases change with
  | created card => exact fun m hm => (card_push (hm.trans hn)).trans (h m hm)
  | updated taskId => exact (card_push hn).trans_ne h
  | moved taskId _ _ _ => exact (card_push hn).trans_ne h
  | deleted taskId => exact (card_push hn).trans_ne h

theorem Sound.push (h : l.Sound) (hc : l.Fits l.now c.change) (hplain : c.change.Plain) :
    (l.push c).Sound where
  nodup := h.nodup
  fits := by
    intro n c' hc'
    rcases commits_push_eq hc' with ⟨hn, hc'⟩ | ⟨rfl, rfl⟩
    · exact fits_push hn.le (h.fits n c' hc')
    · exact fits_push le_rfl hc
  plain := by
    intro n c' hc'
    rcases commits_push_eq hc' with ⟨_, hc'⟩ | ⟨_, rfl⟩
    · exact h.plain n c' hc'
    · exact hplain

/-- No id is twice on the board. -/
theorem Sound.cards_nodup (h : l.Sound) (n : Nat) : ((l.cards n).map Card.id).Nodup := by
  refine version_inv (P := fun cards : List Card => (cards.map Card.id).Nodup) h.nodup ?_ n
  intro i c hc hnd
  have hfits := h.fits i c hc
  have hplain := h.plain i c hc
  revert hfits hplain
  cases c.change with
  | created card =>
    intro hfits _
    simp only [Change.apply, List.map_append, List.map_cons, List.map_nil]
    refine List.nodup_append.mpr ⟨hnd, by simp, ?_⟩
    intro id hid id' hid'
    obtain ⟨card', hmem, rfl⟩ := List.mem_map.mp hid
    rw [List.mem_singleton.mp hid']
    exact cardOf_eq_none.mp (hfits i le_rfl) card' hmem
  | updated taskId => exact fun _ _ => hnd
  | moved taskId columnId position respread =>
    rintro _ rfl
    rw [Change.apply, reposition_nil, ids_place]
    exact hnd
  | deleted taskId => exact fun _ _ => hnd.sublist (List.filter_sublist.map _)

end BoardLog

/-! ## Pages -/

/-- `BOARD_TASK_PAGE_LIMIT`. -/
def boardTaskPageLimit : Nat := 100

/-- `id > cursor`, where there is a cursor. -/
def After (cursor : Option Id) (id : Id) : Prop := ∀ c ∈ cursor, c < id

instance (cursor : Option Id) (id : Id) : Decidable (After cursor id) := by
  unfold After
  cases cursor with
  | none => exact isTrue (by simp)
  | some c => exact decidable_of_iff (c < id) (by simp)

/-- One page of tasks, and the cursor that its successor starts at. -/
structure CardPage where
  items : List Card
  nextCursor : Option Id

/-- The tasks after the cursor, by id. -/
def listed (cursor : Option Id) (cards : List Card) : List Card :=
  (sortBy Card.id cards).filter fun card => After cursor card.id

/-- `TaskService.list` and `toCursorPage`: one row more than the limit tells whether another page
follows. -/
def pageAfter (cursor : Option Id) (cards : List Card) : CardPage :=
  let found := (listed cursor cards).take (boardTaskPageLimit + 1)
  let items := found.take boardTaskPageLimit
  ⟨items, if boardTaskPageLimit < found.length then items.getLast?.map Card.id else none⟩

section Page

variable {cursor : Option Id} {cards : List Card} {card : Card}

theorem items_eq : (pageAfter cursor cards).items = (listed cursor cards).take boardTaskPageLimit := by
  simp [pageAfter, List.take_take]

theorem mem_listed : card ∈ listed cursor cards ↔ card ∈ cards ∧ After cursor card.id := by
  simp [listed]

theorem listed_lt (hnd : (cards.map Card.id).Nodup) :
    (listed cursor cards).Pairwise fun a b => a.id < b.id :=
  (sortBy_lt hnd).filter _

theorem mem_of_mem_items (h : card ∈ (pageAfter cursor cards).items) :
    card ∈ cards ∧ After cursor card.id := by
  rw [items_eq] at h
  exact mem_listed.mp (List.mem_of_mem_take h)

theorem items_nodup (hnd : (cards.map Card.id).Nodup) :
    ((pageAfter cursor cards).items.map Card.id).Nodup := by
  rw [items_eq]
  refine List.Nodup.sublist ((List.take_sublist _ _).map _) ?_
  exact List.pairwise_map.mpr ((listed_lt hnd).imp ne_of_lt)

/-- Where another page follows, this one is full, and ends at the cursor. -/
theorem nextCursor_eq_some {c : Id} : (pageAfter cursor cards).nextCursor = some c ↔
    boardTaskPageLimit < (listed cursor cards).length ∧
      ∃ card, (listed cursor cards)[boardTaskPageLimit - 1]? = some card ∧ card.id = c := by
  have hlen : boardTaskPageLimit < ((listed cursor cards).take (boardTaskPageLimit + 1)).length ↔
      boardTaskPageLimit < (listed cursor cards).length := by
    rw [List.length_take]
    omega
  simp only [pageAfter, hlen, List.take_take, min_eq_left (Nat.le_succ boardTaskPageLimit)]
  split
  · rename_i hmore
    have hlast : ((listed cursor cards).take boardTaskPageLimit).getLast? =
        (listed cursor cards)[boardTaskPageLimit - 1]? := by
      rw [List.getLast?_eq_getElem?, List.length_take, min_eq_left hmore.le,
        List.getElem?_take_of_lt (by decide)]
    rw [hlast, Option.map_eq_some_iff]
    exact ⟨fun h => ⟨hmore, h⟩, fun h => h.2⟩
  · rename_i hless
    exact ⟨nofun, fun h => absurd h.1 hless⟩

/-- The cursor of a drain always advances. -/
theorem after_nextCursor {c : Id} (h : (pageAfter cursor cards).nextCursor = some c) :
    After cursor c := by
  obtain ⟨_, card, hcard, rfl⟩ := nextCursor_eq_some.mp h
  exact (mem_listed.mp (List.mem_of_getElem? hcard)).2

/-- A page has every task that it does not leave to the pages after it. -/
theorem page_covers (hnd : (cards.map Card.id).Nodup) (hmem : card ∈ cards)
    (hafter : After cursor card.id) : card ∈ (pageAfter cursor cards).items ∨
      ∃ c, (pageAfter cursor cards).nextCursor = some c ∧ c < card.id := by
  obtain ⟨j, hj, hcard⟩ := List.mem_iff_getElem.mp (mem_listed.mpr ⟨hmem, hafter⟩)
  rcases Nat.lt_or_ge j boardTaskPageLimit with hlt | hge
  · left
    rw [items_eq, List.mem_take_iff_getElem]
    exact ⟨j, by omega, hcard⟩
  · right
    have hlast : boardTaskPageLimit - 1 < (listed cursor cards).length := by omega
    refine ⟨(listed cursor cards)[boardTaskPageLimit - 1].id, nextCursor_eq_some.mpr
      ⟨by omega, _, List.getElem?_eq_getElem hlast, rfl⟩, ?_⟩
    rw [← hcard]
    have hpos : 0 < boardTaskPageLimit := by decide
    exact List.pairwise_iff_getElem.mp (listed_lt hnd) _ j hlast hj (by omega)

end Page
end Web
end Kurul
