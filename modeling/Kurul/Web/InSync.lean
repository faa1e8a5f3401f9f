import Kurul.Web.Viewer

/-!
# Kurul.Web.InSync

How far a viewer's task array can be from the board.

* `InSync`      — the array shows a task as it was at some version, with nothing told since that
  undoes it, or the task is still to come.
* `inSync_next` — that lasts, as long as no answer is applied that what was told has overtaken.
-/

namespace Kurul
namespace Web

/-! ## What the array shows -/

/-- The change makes a task other than it was known, or is the creation of one that was not. -/
def Change.Undoes (c : Change) (taskId : Id) (known : Option Card) : Prop :=
  c.taskId = taskId ∧ match c, known with
    | .created _, none => True
    | .moved _ _ _ _, some _ => True
    | .deleted _, some _ => True
    | _, _ => False

/-- Some commit from version `n` on, of which the client has been told, undoes what was known of the
task at version `n`. -/
def Overtaken (told : Nat → Prop) (log : BoardLog) (n : Nat) (taskId : Id) (known : Option Card) :
    Prop :=
  ∃ i c, n ≤ i ∧ told i ∧ log.commits[i]? = some c ∧ c.change.Undoes taskId known

/-- The task is on its way with this drain. -/
def Drain.Covers (log : BoardLog) (d : Drain) (taskId : Id) : Prop :=
  match d.readAt with
  | none => After d.cursor taskId
  | some n => (∃ item ∈ (Viewer.page log d n).items, item.id = taskId) ∨
      ∃ c, (Viewer.page log d n).nextCursor = some c ∧ c < taskId

namespace Viewer

/-- A fetch of the task is still to come, or to be answered with it. -/
def Fetching (v : Viewer) (taskId : Id) : Prop :=
  taskId ∈ v.timers ∨ ∃ get ∈ v.gets, get.taskId = taskId ∧ ∀ n ∈ get.readAt, v.log.card n taskId ≠ none

/-- The array shows the task as it was at some version, and nothing told since undoes it. -/
def Shows (told : Nat → Prop) (v : Viewer) (taskId : Id) : Prop :=
  ∃ n ≤ v.log.now, cardOf v.tasks taskId = v.log.card n taskId ∧
    ¬ Overtaken told v.log n taskId (cardOf v.tasks taskId)

def InSync (told : Nat → Prop) (v : Viewer) (taskId : Id) : Prop :=
  v.Shows told taskId ∨ (cardOf v.tasks taskId = none ∧
    (v.Fetching taskId ∨ ∃ d ∈ v.drains, d.Covers v.log taskId))

/-- No answer is applied that what was told has overtaken. A first page may also lack a task it was
read before the creation of, if the task's own fetch is still to come or it has been deleted since. -/
def Fresh (told : Nat → Prop) (v : Viewer) : ViewAct → Prop
  | .applyTask k => ∀ taskId n card, v.gets[k]? = some ⟨taskId, some n⟩ →
      v.log.card n taskId = some card → ¬ Overtaken told v.log n taskId (some card)
  | .applyPage k => ∀ d n, v.drains[k]? = some d → d.readAt = some n →
      (∀ item ∈ (page v.log d n).items, d.cursor = none ∨ cardOf v.tasks item.id = none →
        ¬ Overtaken told v.log n item.id (some item)) ∧
      (d.cursor = none → ∀ taskId, ¬ d.Covers v.log taskId → Overtaken told v.log n taskId none →
        v.Fetching taskId ∨ ∃ i c, n ≤ i ∧ told i ∧ v.log.commits[i]? = some c ∧ c.change = .deleted taskId)
  | _ => True

end Viewer

/-! ## Facts about the log -/

section Log

variable {l : BoardLog} {c : Commit} {told told' : Nat → Prop} {m n : Nat} {taskId : Id}
  {known : Option Card}

/-- What no commit undoes stays. -/
theorem card_of_not_undone (hl : l.Sound) (hmn : m ≤ n) (hn : n ≤ l.now)
    (h : ∀ i c, m ≤ i → i < n → l.commits[i]? = some c → ¬ c.change.Undoes taskId (l.card m taskId)) :
    l.card n taskId = l.card m taskId := by
  induction n, hmn using Nat.le_induction with
  | base => rfl
  | succ n hmn ih =>
    have hget : l.commits[n]? = some l.commits[n] := List.getElem?_eq_getElem hn
    have hundo := h n _ hmn (by omega) hget
    rw [hl.card_succ hget, ih (by omega) fun i c hmi hin => h i c hmi (by omega)]
    revert hundo
    cases l.commits[n].change with
    | created card => cases l.card m taskId <;> simp [Change.Undoes, Change.onCard, Change.taskId]
    | updated taskId' => intro _; rfl
    | moved taskId' columnId position respread =>
      cases l.card m taskId <;> simp +contextual [Change.Undoes, Change.onCard, Change.taskId]
    | deleted taskId' =>
      cases l.card m taskId <;> simp +contextual [Change.Undoes, Change.onCard, Change.taskId]

theorem Overtaken.mono (h : ∀ i, told i → told' i) :
    Overtaken told l n taskId known → Overtaken told' l n taskId known := by
  rintro ⟨i, c, hni, hi, hc, hundo⟩
  exact ⟨i, c, hni, h i hi, hc, hundo⟩

theorem overtaken_push (htold : ∀ i, told i → i < l.now) :
    Overtaken told (l.push c) n taskId known → Overtaken told l n taskId known := by
  rintro ⟨i, c', hni, hi, hc, hundo⟩
  rw [BoardLog.commits_push (htold i hi)] at hc
  exact ⟨i, c', hni, hi, hc, hundo⟩

/-- What was deleted is not created again: no id is used twice. -/
theorem not_overtaken_deleted {i : Nat} (hl : l.Sound) (hc : l.commits[i]? = some c)
    (hdeleted : c.change = .deleted taskId) : ¬ Overtaken told l (i + 1) taskId none := by
  intro ho
  obtain ⟨j, c', hij, _, hc', hid, hundo⟩ := ho
  have hfits := hl.fits i c hc
  have hfits' := hl.fits j c' hc'
  rw [hdeleted] at hfits
  cases hcreated : c'.change with
  | created card =>
    rw [hcreated] at hfits' hid
    exact hfits (hid ▸ hfits' i (by omega))
  | updated t => rw [hcreated] at hundo; exact hundo
  | moved t columnId position respread => rw [hcreated] at hundo; exact hundo
  | deleted t => rw [hcreated] at hundo; exact hundo

theorem page_push {d : Drain} (h : n ≤ l.now) : Viewer.page (l.push c) d n = Viewer.page l d n := by
  rw [Viewer.page, BoardLog.cards_push h, Viewer.page]

theorem covers_push {d : Drain} (h : ∀ n ∈ d.readAt, n ≤ l.now) :
    d.Covers (l.push c) taskId ↔ d.Covers l taskId := by
  obtain ⟨cursor, readAt, resync⟩ := d
  cases readAt with
  | none => rfl
  | some n => simp only [Drain.Covers, page_push (h n rfl)]

end Log

namespace Viewer

/-! ## Staying in step -/

section InSync

variable {currentUserId : Option Id} {v v' : Viewer} {a : ViewAct} {told told' : Nat → Prop}
  {taskId : Id}

/-- What a step tells the client of: the commit of an event, and all that a first page was read
after. -/
def learns (v : Viewer) : ViewAct → Nat → Prop
  | .deliver, i => i = v.upTo
  | .applyPage k, i => ∃ d n, v.drains[k]? = some d ∧ d.cursor = none ∧ d.readAt = some n ∧ i < n
  | _, _ => False

/-- A task that is still to come: with a fetch of its own, or with a drain. -/
def Coming (v : Viewer) (taskId : Id) : Prop :=
  v.Fetching taskId ∨ ∃ d ∈ v.drains, d.Covers v.log taskId

theorem InSync.mono (hle : ∀ i, told' i → told i) (h : v.InSync told taskId) :
    v.InSync told' taskId := by
  rcases h with ⟨n, hn, hcard, hnot⟩ | h
  · exact .inl ⟨n, hn, hcard, fun ho => hnot (ho.mono hle)⟩
  · exact .inr h

/-- A step that leaves the task alone in the array, and tells nothing that undoes it. -/
theorem InSync.keep (h : v.InSync told taskId) (hlog : v'.log = v.log)
    (htasks : cardOf v'.tasks taskId = cardOf v.tasks taskId)
    (hnew : ∀ i c, told' i → v.log.commits[i]? = some c →
      c.change.Undoes taskId (cardOf v.tasks taskId) → told i)
    (hcoming : cardOf v.tasks taskId = none → v.Coming taskId → v'.InSync told' taskId) :
    v'.InSync told' taskId := by
  rcases h with ⟨n, hn, hcard, hnot⟩ | ⟨hnone, h⟩
  · refine .inl ⟨n, hlog ▸ hn, by rw [htasks, hlog, hcard], ?_⟩
    rintro ⟨i, c, hni, hi, hc, hundo⟩
    rw [hlog] at hc
    rw [htasks] at hundo
    exact hnot ⟨i, c, hni, hnew i c hi hc hundo, hc, hundo⟩
  · exact hcoming hnone h

/-- A task that the server does not have now is rightly not in the array. -/
theorem shows_now (htold : ∀ i, told i → i < v.log.now) (htask : cardOf v.tasks taskId = none)
    (hcard : v.log.card v.log.now taskId = none) : v.Shows told taskId := by
  refine ⟨v.log.now, le_rfl, htask.trans hcard.symm, ?_⟩
  rintro ⟨i, c, hni, hi, _⟩
  exact absurd (htold i hi) (by omega)

theorem cardOf_shown (change : Change) (tasks : List Card) :
    cardOf (shown change tasks) taskId = match change with
      | .created _ => cardOf tasks taskId
      | change => change.onCard taskId (cardOf tasks taskId) := by
  cases change with
  | created card => rfl
  | updated t => rfl
  | moved t columnId position respread => exact cardOf_place
  | deleted t => exact cardOf_remove

/-- An event of another task. -/
theorem cardOf_shown_of_ne {change : Change} {tasks : List Card} (h : change.taskId ≠ taskId) :
    cardOf (shown change tasks) taskId = cardOf tasks taskId := by
  rw [cardOf_shown]
  cases change with
  | created card => rfl
  | updated t => rfl
  | moved t columnId position respread => exact if_neg h
  | deleted t => exact if_neg h

/-- An event of a task that is shown shows it as the commit left it. -/
theorem cardOf_shown_moved {c : Commit} {columnId : Id} {position : Position}
    {respread : List (Id × Position)} (hl : v.log.Sound) (hc : v.log.commits[v.upTo]? = some c)
    (hchange : c.change = .moved taskId columnId position respread)
    (hshown : cardOf v.tasks taskId ≠ none) :
    cardOf (shown c.change v.tasks) taskId = v.log.card (v.upTo + 1) taskId := by
  have hfits := hl.fits _ _ hc
  have hsucc := @BoardLog.Sound.card_succ _ _ _ taskId hl hc
  rw [hchange] at hfits hsucc ⊢
  obtain ⟨task, htask⟩ := Option.ne_none_iff_exists'.mp hshown
  obtain ⟨card, hcard⟩ := Option.ne_none_iff_exists'.mp hfits
  rw [cardOf_shown, hsucc, htask, hcard]
  simp only [Change.onCard, if_true, Option.map_some, Option.some.injEq, Card.mk.injEq, and_true]
  exact (id_of_cardOf htask).trans (id_of_cardOf hcard).symm

section Steps

variable (hv : v.Sound) (h : v.InSync told taskId)

include hv h

theorem inSync_push (c : Commit) (hnow : ∀ i, told i → i < v.log.now) :
    InSync told { v with log := v.log.push c } taskId := by
  rcases h with ⟨n, hn, hcard, hnot⟩ | ⟨hnone, hcoming⟩
  · refine .inl ⟨n, hn.trans (by simp), ?_, fun ho => hnot (overtaken_push hnow ho)⟩
    rw [BoardLog.card_push hn, hcard]
  · refine .inr ⟨hnone, hcoming.imp (Or.imp_right ?_) ?_⟩
    · rintro ⟨get, hget, hid, hread⟩
      refine ⟨get, hget, hid, fun n hn => ?_⟩
      rw [BoardLog.card_push (hv.gets get hget n hn)]
      exact hread n hn
    · rintro ⟨d, hd, hcovers⟩
      exact ⟨d, hd, (covers_push (hv.drains d hd)).mpr hcovers⟩

theorem inSync_deliver (htold : ∀ i, told i → i < v.upTo)
    (hs : next currentUserId .deliver v = some v') :
    v'.InSync (fun i => told i ∨ v.learns .deliver i) taskId := by
  obtain ⟨c, hc, rfl⟩ := next_deliver hs
  obtain ⟨timers, heq, hsub, hcreated⟩ := onEvent_eq currentUserId { v with upTo := v.upTo + 1 } c
  rw [heq]
  have hlt : v.upTo < v.log.now := (List.getElem?_eq_some_iff.mp hc).1
  -- nothing told is later than the event
  have hlast : ∀ known, ¬ Overtaken (fun i => told i ∨ v.learns .deliver i) v.log (v.upTo + 1) taskId
      known := by
    rintro known ⟨i, c', hni, hi | rfl, _⟩
    · exact absurd (htold i hi) (by omega)
    · omega
  have hcoming : ∀ tasks, cardOf tasks taskId = none → v.Coming taskId →
      InSync (fun i => told i ∨ v.learns .deliver i)
        { v with upTo := v.upTo + 1, tasks, timers } taskId := by
    intro tasks hnone hcoming
    exact .inr ⟨hnone, hcoming.imp_left (Or.imp_left (hsub _))⟩
  have hkeep : cardOf (shown c.change v.tasks) taskId = cardOf v.tasks taskId →
      ¬ c.change.Undoes taskId (cardOf v.tasks taskId) →
      InSync (fun i => told i ∨ v.learns .deliver i)
        { v with upTo := v.upTo + 1, tasks := shown c.change v.tasks, timers } taskId := by
    intro htasks hundo
    refine h.keep rfl htasks (fun i c' hi hc' hundo' => hi.resolve_right ?_)
      fun hnone => hcoming _ (htasks.trans hnone)
    rintro rfl
    obtain rfl : c = c' := Option.some.inj (hc.symm.trans hc')
    exact hundo hundo'
  by_cases ht : c.change.taskId = taskId
  · cases hchange : c.change with
    | created card =>
      rw [hchange] at hkeep ht
      cases htask : cardOf v.tasks taskId with
      | none =>
        subst ht
        exact .inr ⟨htask, .inl (.inl (hcreated card hchange htask))⟩
      | some task => exact hkeep rfl (by rw [htask]; exact fun hundo => hundo.2)
    | updated t =>
      rw [hchange] at hkeep
      refine hkeep rfl ?_
      cases cardOf v.tasks taskId <;> exact fun hundo => hundo.2
    | moved t columnId position respread =>
      obtain rfl : t = taskId := by rwa [hchange] at ht
      cases htask : cardOf v.tasks t with
      | none =>
        rw [hchange] at hkeep
        refine hkeep ?_ (by rw [htask]; exact fun hundo => hundo.2)
        rw [cardOf_shown, htask]
        exact ite_self _
      | some task =>
        have hshown := cardOf_shown_moved hv.log hc hchange (by simp [htask])
        rw [hchange] at hshown
        exact .inl ⟨v.upTo + 1, hlt, hshown, hlast _⟩
    | deleted t =>
      have hsucc : v.log.card (v.upTo + 1) taskId = _ := hv.log.card_succ hc
      rw [hchange] at ht hsucc
      refine .inl ⟨v.upTo + 1, hlt, ?_, hlast _⟩
      obtain rfl : t = taskId := ht
      simp only [hsucc, cardOf_shown, Change.onCard, if_true]
  · exact hkeep (cardOf_shown_of_ne ht) fun hundo => ht hundo.1

omit hv in
theorem inSync_fire (t : Id) : InSync told { v with
    timers := v.timers.filter fun id => id ≠ t
    gets := v.gets ++ [⟨t, none⟩] } taskId := by
  refine h.keep rfl rfl (fun _ _ hi _ _ => hi) fun hnone hcoming => .inr ⟨hnone, ?_⟩
  refine hcoming.imp_left ?_
  rintro (htimer | ⟨get, hget, hid⟩)
  · by_cases ht : taskId = t
    · exact .inr ⟨⟨t, none⟩, by simp, ht.symm, nofun⟩
    · exact .inl (List.mem_filter.mpr ⟨htimer, by simpa using ht⟩)
  · exact .inr ⟨get, List.mem_append_left _ hget, hid⟩

omit hv in
theorem inSync_readTask {k : Nat} {t : Id} (hnow : ∀ i, told i → i < v.log.now)
    (hk : v.gets[k]? = some ⟨t, none⟩) :
    InSync told { v with gets := v.gets.set k ⟨t, some v.log.now⟩ } taskId := by
  refine h.keep rfl rfl (fun _ _ hi _ _ => hi) fun hnone hcoming => ?_
  by_cases hcard : v.log.card v.log.now taskId = none
  · exact .inl (shows_now hnow hnone hcard)
  · refine .inr ⟨hnone, hcoming.imp_left (Or.imp_right ?_)⟩
    rintro ⟨get, hget, hid, hread⟩
    rcases Lts.mem_or_mem_set hk hget with rfl | hget
    · refine ⟨_, Lts.mem_set_self hk, hid, fun n hn => ?_⟩
      rwa [← Option.some.inj hn]
    · exact ⟨get, hget, hid, hread⟩

theorem inSync_applyTask {k : Nat} (hfresh : v.Fresh told (.applyTask k))
    (hs : next currentUserId (.applyTask k) v = some v') : v'.InSync told taskId := by
  obtain ⟨t, n, hk, rfl⟩ := next_applyTask hs
  have hn : n ≤ v.log.now := hv.gets _ (List.mem_of_getElem? hk) n rfl
  -- the fetches that are left, where it was not this one that the task was to come with
  have hrest : ∀ tasks, cardOf tasks taskId = cardOf v.tasks taskId →
      (taskId = t → v.log.card n t = none) →
      InSync told { v with gets := v.gets.eraseIdx k, tasks } taskId := by
    intro tasks htasks hother
    refine h.keep rfl htasks (fun _ _ hi _ _ => hi) fun hnone hcoming => .inr ⟨htasks.trans hnone, ?_⟩
    refine hcoming.imp_left (Or.imp_right ?_)
    rintro ⟨get, hget, hid, hread⟩
    rcases Lts.mem_or_mem_eraseIdx hk hget with rfl | hget
    · exact absurd (hid ▸ hother hid.symm) (hread n rfl)
    · exact ⟨get, hget, hid, hread⟩
  cases hcard : v.log.card n t with
  | none => exact hrest v.tasks rfl fun _ => hcard
  | some remote =>
    have hid := id_of_cardOf hcard
    by_cases ht : taskId = t
    · subst ht
      refine .inl ⟨n, hn, ?_, ?_⟩
      · rw [cardOf_upsert, if_pos hid, hcard]
      · rw [cardOf_upsert, if_pos hid]
        exact hfresh taskId n remote hk hcard
    · refine hrest _ ?_ fun heq => absurd heq ht
      rw [cardOf_upsert, if_neg (by rw [hid]; exact Ne.symm ht)]

omit hv in
theorem inSync_startDrain (d : Drain) : InSync told { v with drains := v.drains ++ [d] } taskId := by
  refine h.keep rfl rfl (fun _ _ hi _ _ => hi) fun hnone hcoming => .inr ⟨hnone, ?_⟩
  exact hcoming.imp_right fun ⟨d, hd, hcovers⟩ => ⟨d, List.mem_append_left _ hd, hcovers⟩

theorem inSync_readPage {k : Nat} {cursor : Option Id} {resync : Bool}
    (hnow : ∀ i, told i → i < v.log.now) (hk : v.drains[k]? = some ⟨cursor, none, resync⟩) :
    InSync told { v with drains := v.drains.set k ⟨cursor, some v.log.now, resync⟩ } taskId := by
  refine h.keep rfl rfl (fun _ _ hi _ _ => hi) fun hnone hcoming => ?_
  by_cases hcard : v.log.card v.log.now taskId = none
  · exact .inl (shows_now hnow hnone hcard)
  · refine .inr ⟨hnone, hcoming.imp_right ?_⟩
    rintro ⟨d, hd, hcovers⟩
    rcases Lts.mem_or_mem_set hk hd with rfl | hd
    · refine ⟨_, Lts.mem_set_self hk, ?_⟩
      have hafter : After (Drain.cursor ⟨cursor, some v.log.now, resync⟩) taskId := hcovers
      refine (page_shows (n := v.log.now) hv.log hafter).imp_left fun hshown => ?_
      obtain ⟨item, hitem⟩ := Option.ne_none_iff_exists'.mp (hshown ▸ hcard)
      exact ⟨item, mem_of_cardOf hitem, id_of_cardOf hitem⟩
    · exact ⟨d, hd, hcovers⟩

/-! ### Pages -/

section Page

variable {k n : Nat} {d : Drain} {drains : List Drain} (hk : v.drains[k]? = some d)
  (hn : d.readAt = some n)
  (hdrains : drains = v.drains.eraseIdx k ∧ (page v.log d n).nextCursor = none ∨
    ∃ c, (page v.log d n).nextCursor = some c ∧ drains = v.drains.set k ⟨some c, none, d.resync⟩)

omit hv h

include hk hdrains in
/-- What a page leaves to the next one. -/
theorem covers_later {t : Id} (h : ∃ c, (page v.log d n).nextCursor = some c ∧ c < t) :
    ∃ d' ∈ drains, d'.Covers v.log t := by
  obtain ⟨c, hc, hlt⟩ := h
  rcases hdrains with ⟨_, hnone⟩ | ⟨c', hc', rfl⟩
  · rw [hnone] at hc
    cases hc
  · obtain rfl : c' = c := Option.some.inj (hc'.symm.trans hc)
    exact ⟨_, Lts.mem_set_self hk, fun c hmem => Option.some.inj hmem ▸ hlt⟩

include hv hk hn in
/-- A task that the page brings. -/
theorem inSync_brought {tasks : List Card} {item : Card} (htask : cardOf tasks taskId = some item)
    (hitem : cardOf (page v.log d n).items taskId = some item)
    (hfresh : ¬ Overtaken told v.log n taskId (some item)) :
    InSync told { v with tasks, drains } taskId := by
  have hcard := card_of_mem_page hv.log (mem_of_cardOf hitem)
  rw [id_of_cardOf hitem] at hcard
  exact .inl ⟨n, hv.drains d (List.mem_of_getElem? hk) n hn, htask.trans hcard.symm, htask ▸ hfresh⟩

include hv hk hn hdrains in
/-- The first page, whatever was shown before it. -/
theorem inSync_firstPage (hcursor : d.cursor = none)
    (hitems : ∀ item ∈ (page v.log d n).items, item.id = taskId →
      ¬ Overtaken told v.log n taskId (some item))
    (hlacks : ¬ d.Covers v.log taskId → Overtaken told v.log n taskId none →
      v.Fetching taskId ∨ ∃ i c, n ≤ i ∧ v.log.commits[i]? = some c ∧ c.change = .deleted taskId) :
    InSync told { v with tasks := onPage d.cursor v.tasks (page v.log d n).items, drains } taskId := by
  have hshows : cardOf (onPage d.cursor v.tasks (page v.log d n).items) taskId =
      cardOf (page v.log d n).items taskId := by
    rw [hcursor, onPage]
  have hlater := covers_later (t := taskId) hk hdrains
  cases hitem : cardOf (page v.log d n).items taskId with
  | some item =>
    exact inSync_brought hv hk hn (hshows.trans hitem) hitem
      (hitems item (mem_of_cardOf hitem) (id_of_cardOf hitem))
  | none =>
    have hnone := hshows.trans hitem
    have hafter : After d.cursor taskId := by
      rw [hcursor]
      intro _ h
      cases h
    rcases page_shows (n := n) hv.log hafter with hshown | hnext
    · by_cases hcovers : d.Covers v.log taskId
      · rw [Drain.Covers, hn] at hcovers
        rcases hcovers with ⟨item, hmem, hid⟩ | hnext
        · exact absurd hid (cardOf_eq_none.mp hitem item hmem)
        · exact .inr ⟨hnone, .inr (hlater hnext)⟩
      · by_cases hover : Overtaken told v.log n taskId none
        · rcases hlacks hcovers hover with hfetch | ⟨i, c, hni, hc, hdeleted⟩
          · exact .inr ⟨hnone, .inl hfetch⟩
          · refine .inl ⟨i + 1, (List.getElem?_eq_some_iff.mp hc).1, ?_, ?_⟩
            · rw [hv.log.card_succ hc, hdeleted]
              exact hnone.trans (if_pos rfl).symm
            · rw [hnone]
              exact not_overtaken_deleted hv.log hc hdeleted
        · refine .inl ⟨n, hv.drains d (List.mem_of_getElem? hk) n hn, hshows.trans hshown, ?_⟩
          rwa [hnone]
    · exact .inr ⟨hnone, .inr (hlater hnext)⟩

include hv hk hn hdrains h in
/-- A later page leaves what is shown alone, and adds what is not. -/
theorem inSync_laterPage {c : Id} (hcursor : d.cursor = some c)
    (hitems : ∀ item ∈ (page v.log d n).items, item.id = taskId → cardOf v.tasks taskId = none →
      ¬ Overtaken told v.log n taskId (some item)) :
    InSync told { v with tasks := onPage d.cursor v.tasks (page v.log d n).items, drains } taskId := by
  have hshows : cardOf (onPage d.cursor v.tasks (page v.log d n).items) taskId = _ :=
    hcursor ▸ cardOf_onPage
  have hlater := covers_later (t := taskId) hk hdrains
  have hkeep : cardOf (onPage d.cursor v.tasks (page v.log d n).items) taskId =
      cardOf v.tasks taskId → cardOf (page v.log d n).items taskId = none ∨
        cardOf v.tasks taskId ≠ none →
      InSync told
        { v with tasks := onPage d.cursor v.tasks (page v.log d n).items, drains } taskId := by
    intro htasks hitem
    refine h.keep rfl htasks (fun _ _ hi _ _ => hi) fun hnone hcoming => ?_
    refine .inr ⟨htasks.trans hnone, hcoming.imp_right ?_⟩
    rintro ⟨d', hd', hcovers⟩
    by_cases heq : d' = d
    · rw [heq, Drain.Covers, hn] at hcovers
      rcases hcovers with ⟨item, hmem, hid⟩ | hnext
      · exact absurd hid (cardOf_eq_none.mp (hitem.resolve_right (not_not_intro hnone)) item hmem)
      · exact hlater hnext
    · refine ⟨d', ?_, hcovers⟩
      rcases hdrains with ⟨rfl, _⟩ | ⟨c', _, rfl⟩
      · exact (Lts.mem_or_mem_eraseIdx hk hd').resolve_left heq
      · exact (Lts.mem_or_mem_set hk hd').resolve_left heq
  cases htask : cardOf v.tasks taskId with
  | some task => exact hkeep (by rw [hshows, htask]; rfl) (.inr (by simp [htask]))
  | none =>
    cases hitem : cardOf (page v.log d n).items taskId with
    | some item =>
      exact inSync_brought hv hk hn (by rw [hshows, htask, hitem]; rfl) hitem
        (hitems item (mem_of_cardOf hitem) (id_of_cardOf hitem) htask)
    | none => exact hkeep (by rw [hshows, htask, hitem]; rfl) (.inl hitem)

end Page

theorem inSync_applyPage {k : Nat} (hfresh : v.Fresh told (.applyPage k))
    (hs : next currentUserId (.applyPage k) v = some v') :
    v'.InSync (fun i => told i ∨ v.learns (.applyPage k) i) taskId := by
  obtain ⟨d, n, drains, hk, hn, rfl, hdrains⟩ := next_applyPage hs
  obtain ⟨hitems, hlacks⟩ := hfresh d n hk hn
  have hlearns : ∀ i, v.learns (.applyPage k) i → d.cursor = none ∧ i < n := by
    rintro i ⟨d', n', hk', hcursor, hn', hi⟩
    obtain rfl : d = d' := Option.some.inj (hk.symm.trans hk')
    obtain rfl : n = n' := Option.some.inj (hn.symm.trans hn')
    exact ⟨hcursor, hi⟩
  -- what the page teaches is no later than the page
  have hovertaken : ∀ known,
      Overtaken (fun i => told i ∨ v.learns (.applyPage k) i) v.log n taskId known →
      Overtaken told v.log n taskId known := by
    rintro known ⟨i, c, hmi, hi | hi, hc, hundo⟩
    · exact ⟨i, c, hmi, hi, hc, hundo⟩
    · have hlt := (hlearns i hi).2
      omega
  cases hcursor : d.cursor with
  | none =>
    have hfirst : InSync (fun i => told i ∨ v.learns (.applyPage k) i) { v with
        tasks := onPage d.cursor v.tasks (page v.log d n).items
        drains } taskId := inSync_firstPage hv hk hn hdrains hcursor
      (fun item hmem hid ho => hitems item hmem (.inl hcursor) (hid ▸ hovertaken _ ho))
      fun hcovers ho => (hlacks hcursor taskId hcovers (hovertaken _ ho)).imp_right
        fun ⟨i, c, hni, _, hc, hdeleted⟩ => ⟨i, c, hni, hc, hdeleted⟩
    rwa [hcursor] at hfirst
  | some c =>
    have hlater := inSync_laterPage hv h hk hn hdrains hcursor
      fun item hmem hid hnone => hid ▸ hitems item hmem (.inr (hid ▸ hnone))
    rw [hcursor] at hlater
    refine hlater.mono fun i hi => hi.resolve_right fun hl => ?_
    have hfirst := (hlearns i hl).1
    rw [hcursor] at hfirst
    cases hfirst

omit hv h in
/-- Only a commit is logged, and only an event moves what has been told. -/
theorem next_frame (hs : next currentUserId a v = some v') (ha : ∀ c, a ≠ .commit c) :
    v'.log = v.log ∧ (v'.upTo = v.upTo ∨
      a = .deliver ∧ v'.upTo = v.upTo + 1 ∧ v.upTo < v.log.now) := by
  cases a with
  | commit c => exact absurd rfl (ha c)
  | deliver =>
    obtain ⟨c, hc, rfl⟩ := next_deliver hs
    obtain ⟨timers, heq, _⟩ := onEvent_eq currentUserId { v with upTo := v.upTo + 1 } c
    rw [heq]
    exact ⟨rfl, .inr ⟨rfl, rfl, (List.getElem?_eq_some_iff.mp hc).1⟩⟩
  | fire t => obtain rfl := next_fire hs; exact ⟨rfl, .inl rfl⟩
  | readTask k => obtain ⟨_, _, rfl⟩ := next_readTask hs; exact ⟨rfl, .inl rfl⟩
  | applyTask k => obtain ⟨_, _, _, rfl⟩ := next_applyTask hs; exact ⟨rfl, .inl rfl⟩
  | startDrain => cases hs; exact ⟨rfl, .inl rfl⟩
  | readPage k => obtain ⟨_, _, _, rfl⟩ := next_readPage hs; exact ⟨rfl, .inl rfl⟩
  | applyPage k => obtain ⟨_, _, _, _, _, rfl, _⟩ := next_applyPage hs; exact ⟨rfl, .inl rfl⟩

/-- Every step keeps a task in step, unless it applies what was overtaken. -/
theorem inSync_next (htold : ∀ i, told i → i < v.upTo) (hfresh : v.Fresh told a) (hs : next currentUserId a v = some v') :
    v'.InSync (fun i => told i ∨ v.learns a i) taskId := by
  have hsame : v'.InSync told taskId → (∀ i, ¬ v.learns a i) →
      v'.InSync (fun i => told i ∨ v.learns a i) taskId :=
    fun h hnone => h.mono fun i hi => hi.resolve_right (hnone i)
  have hnow : ∀ i, told i → i < v.log.now := fun i hi => (htold i hi).trans_le hv.upTo
  cases a with
  | commit c =>
    obtain ⟨_, rfl⟩ := next_commit hs
    exact hsame (inSync_push hv h c hnow) fun _ hi => hi
  | deliver => exact inSync_deliver hv h htold hs
  | fire t =>
    obtain rfl := next_fire hs
    exact hsame (inSync_fire h t) fun _ hi => hi
  | readTask k =>
    obtain ⟨t, hk, rfl⟩ := next_readTask hs
    exact hsame (inSync_readTask h hnow hk) fun _ hi => hi
  | applyTask k => exact hsame (inSync_applyTask hv h hfresh hs) fun _ hi => hi
  | startDrain =>
    cases hs
    exact hsame (inSync_startDrain h _) fun _ hi => hi
  | readPage k =>
    obtain ⟨cursor, resync, hk, rfl⟩ := next_readPage hs
    exact hsame (inSync_readPage hv h hnow hk) fun _ hi => hi
  | applyPage k => exact inSync_applyPage hv h hfresh hs

end Steps

end InSync

/-- An answer is applied with nothing told since it was read. -/
def readLast (v : Viewer) : ViewAct → Bool
  | .commit c => c.change.Plain
  | .applyTask k => match v.gets[k]? with
    | some ⟨_, some n⟩ => v.upTo ≤ n
    | _ => true
  | .applyPage k => match v.drains[k]? with
    | some ⟨_, some n, _⟩ => v.upTo ≤ n
    | _ => true
  | _ => true

theorem readLast_plain {v : Viewer} {a : ViewAct} (h : readLast v a = true) : a.Plain := by
  cases a with
  | commit c =>
    have hplain : c.change.Plain := of_decide_eq_true h
    exact hplain
  | _ => trivial

theorem readLast_ok {v : Viewer} {a : ViewAct} {told : Nat → Prop} (htold : ∀ i, told i → i < v.upTo)
    (h : readLast v a = true) : v.Fresh told a := by
  have hnot : ∀ n taskId known, v.upTo ≤ n → ¬ Overtaken told v.log n taskId known := by
    rintro n taskId known hle ⟨i, c, hni, hi, _⟩
    exact absurd ((htold i hi).trans_le hle) (by omega)
  cases a with
  | applyTask k =>
    intro taskId n card hk _
    rw [readLast, hk] at h
    exact hnot n _ _ (of_decide_eq_true h)
  | applyPage k =>
    intro d n hk hn
    obtain ⟨cursor, readAt, resync⟩ := d
    obtain rfl : readAt = some n := hn
    rw [readLast, hk] at h
    have hle := of_decide_eq_true h
    exact ⟨fun item _ _ => hnot n _ _ hle, fun _ taskId _ ho => absurd ho (hnot n _ _ hle)⟩
  | _ => trivial

end Viewer
end Web
end Kurul
