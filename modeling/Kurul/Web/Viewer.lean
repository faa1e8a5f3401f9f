import Kurul.Lts
import Kurul.Web.BoardLog

/-!
# Kurul.Web.Viewer

The task array of a client that looks at a board: what `useBoardRealtime` makes of the events of the
board's room, and what the answers to `upsertRemoteTask` and the pages of `drainTasks` put into it.

A request is answered as the board stands at some moment after it is sent, and the answer is applied
when it arrives, whatever has arrived in between.
-/

namespace Kurul
namespace Web

/-- A `GET` of one task, and the version it was answered at. -/
structure TaskGet where
  taskId : Id
  readAt : Option Nat
  deriving DecidableEq

/-- `drainTasks`: the cursor of the page it waits for, and the version that page was read at. The
first page is the one without a cursor. -/
structure Drain where
  cursor : Option Id
  readAt : Option Nat
  /-- Started by `runResync`. -/
  resync : Bool
  deriving DecidableEq

structure Viewer where
  log : BoardLog
  /-- The events of the commits before this one have reached the client. -/
  upTo : Nat
  tasks : List Card
  /-- `upsertTimersRef`. -/
  timers : List Id
  gets : List TaskGet
  drains : List Drain

inductive ViewAct where
  | commit (c : Commit)
  /-- The next event reaches the client. -/
  | deliver
  /-- The timer of a task goes off. -/
  | fire (taskId : Id)
  | readTask (get : Nat)
  | applyTask (get : Nat)
  | startDrain
  | readPage (drain : Nat)
  | applyPage (drain : Nat)
  deriving DecidableEq

/-- No commit moves a task but the one it names: no column is respread. -/
def ViewAct.Plain : ViewAct → Prop
  | .commit c => c.change.Plain
  | _ => True

namespace Viewer

/-- `upsertRemoteTask`: the timer of the task starts anew. -/
def upsertRemoteTask (v : Viewer) (taskId : Id) : Viewer :=
  { v with timers := v.timers.insert taskId }

def onTaskCreated (v : Viewer) (taskId : Id) : Viewer :=
  if v.tasks.any fun task => task.id = taskId then v else v.upsertRemoteTask taskId

def onTaskUpdated (v : Viewer) (taskId : Id) : Viewer := v.upsertRemoteTask taskId

/-- The place is in the payload. A task that is not there is fetched, unless this user moved it. -/
def onTaskMoved (currentUserId : Option Id) (v : Viewer) (taskId columnId : Id) (position : Position)
    (actorId : Id) : Viewer :=
  let moved := { v with tasks := place taskId columnId position v.tasks }
  if currentUserId ≠ some actorId ∧ ¬ v.tasks.any (fun task => task.id = taskId) then
    moved.upsertRemoteTask taskId
  else moved

def onTaskDeleted (v : Viewer) (taskId : Id) : Viewer :=
  { v with tasks := remove taskId v.tasks }

def onEvent (currentUserId : Option Id) (v : Viewer) (c : Commit) : Viewer :=
  match c.change with
  | .created card => v.onTaskCreated card.id
  | .updated taskId => v.onTaskUpdated taskId
  | .moved taskId columnId position _ => v.onTaskMoved currentUserId taskId columnId position c.actorId
  | .deleted taskId => v.onTaskDeleted taskId

/-- The answer to a `GET`: in place of the task it names, or behind the others. -/
def upsert (tasks : List Card) (remote : Card) : List Card :=
  match tasks.findIdx? fun task => task.id = remote.id with
  | none => tasks ++ [remote]
  | some i => tasks.set i remote

/-- `onPage`: the first page is what there is, a later one adds the tasks that are not there yet. -/
def onPage (cursor : Option Id) (tasks items : List Card) : List Card :=
  match cursor with
  | none => items
  | some _ => tasks ++ items.filter fun item => cardOf tasks item.id = none

/-- The page that a drain waits for, as it stood at a version. -/
def page (log : BoardLog) (d : Drain) (n : Nat) : CardPage := pageAfter d.cursor (log.cards n)

def next (currentUserId : Option Id) : ViewAct → Viewer → Option Viewer
  | .commit c, v => if v.log.Fits v.log.now c.change then some { v with log := v.log.push c } else none
  | .deliver, v =>
    (v.log.commits[v.upTo]?).map fun c => { v with upTo := v.upTo + 1 }.onEvent currentUserId c
  | .fire taskId, v =>
    if taskId ∈ v.timers then
      some { v with
        timers := v.timers.filter fun id => id ≠ taskId
        gets := v.gets ++ [⟨taskId, none⟩] }
    else none
  | .readTask k, v =>
    match v.gets[k]? with
    | some ⟨taskId, none⟩ => some { v with gets := v.gets.set k ⟨taskId, some v.log.now⟩ }
    | _ => none
  | .applyTask k, v =>
    match v.gets[k]? with
    | some ⟨taskId, some n⟩ =>
      some { v with
        gets := v.gets.eraseIdx k
        tasks := match v.log.card n taskId with
          | none => v.tasks
          | some remote => upsert v.tasks remote }
    | _ => none
  | .startDrain, v => some { v with drains := v.drains ++ [⟨none, none, false⟩] }
  | .readPage k, v =>
    match v.drains[k]? with
    | some ⟨cursor, none, resync⟩ =>
      some { v with drains := v.drains.set k ⟨cursor, some v.log.now, resync⟩ }
    | _ => none
  | .applyPage k, v =>
    match v.drains[k]? with
    | some ⟨cursor, some n, resync⟩ =>
      let page := page v.log ⟨cursor, some n, resync⟩ n
      some { v with
        tasks := onPage cursor v.tasks page.items
        -- a cursor that did not advance would end the drain too
        drains := match page.nextCursor with
          | none => v.drains.eraseIdx k
          | some c =>
            if cursor = some c then v.drains.eraseIdx k
            else v.drains.set k ⟨some c, none, resync⟩ }
    | _ => none

/-- Nothing is in flight and no timer is armed. -/
structure Quiet (v : Viewer) : Prop where
  events : v.upTo = v.log.now
  timers : v.timers = []
  gets : v.gets = []
  drains : v.drains = []

end Viewer

/-! ## Facts about pages and answers -/

section Answers

variable {l : BoardLog} {d : Drain} {n : Nat} {taskId : Id} {tasks : List Card} {card remote : Card}

theorem card_of_mem_page (hl : l.Sound) (h : card ∈ (Viewer.page l d n).items) :
    l.card n card.id = some card :=
  cardOf_of_mem (hl.cards_nodup n) (mem_of_mem_items h).1

/-- What a page does not show, it leaves to the next or there is no such task. -/
theorem page_shows (hl : l.Sound) (hafter : After d.cursor taskId) :
    cardOf (Viewer.page l d n).items taskId = l.card n taskId ∨
      ∃ c, (Viewer.page l d n).nextCursor = some c ∧ c < taskId := by
  cases hitem : cardOf (Viewer.page l d n).items taskId with
  | some card =>
    have hcard := card_of_mem_page hl (mem_of_cardOf hitem)
    rw [id_of_cardOf hitem] at hcard
    exact .inl hcard.symm
  | none =>
    cases hcard : l.card n taskId with
    | none => exact .inl rfl
    | some card =>
      have hid := id_of_cardOf hcard
      rcases page_covers (hl.cards_nodup n) (mem_of_cardOf hcard) (by rwa [hid]) with hmem | hnext
      · exact absurd hid (cardOf_eq_none.mp hitem card hmem)
      · right
        rwa [hid] at hnext

@[simp] theorem upsert_nil : Viewer.upsert [] remote = [remote] := rfl

theorem upsert_cons : Viewer.upsert (card :: tasks) remote =
    if card.id = remote.id then remote :: tasks else card :: Viewer.upsert tasks remote := by
  unfold Viewer.upsert
  rw [List.findIdx?_cons]
  by_cases h : card.id = remote.id
  · simp [h]
  · simp only [h, decide_false, Bool.false_eq_true, if_false]
    cases tasks.findIdx? fun task => task.id = remote.id <;> rfl

theorem cardOf_cons : cardOf (card :: tasks) taskId =
    if card.id = taskId then some card else cardOf tasks taskId := by
  rw [cardOf, List.find?_cons]
  by_cases h : card.id = taskId <;> simp [h, cardOf]

theorem cardOf_upsert : cardOf (Viewer.upsert tasks remote) taskId =
    if remote.id = taskId then some remote else cardOf tasks taskId := by
  induction tasks with
  | nil => rw [upsert_nil, cardOf_cons]
  | cons card rest ih =>
    rw [upsert_cons, cardOf_cons]
    split
    · rename_i h
      rw [cardOf_cons, h]
      split <;> rfl
    · rename_i h
      rw [cardOf_cons, ih]
      by_cases hc : card.id = taskId
      · rw [if_pos hc, if_pos hc, if_neg fun hr => h (hc.trans hr.symm)]
      · rw [if_neg hc, if_neg hc]

theorem nodup_upsert (h : (tasks.map Card.id).Nodup) :
    ((Viewer.upsert tasks remote).map Card.id).Nodup := by
  induction tasks with
  | nil => simp
  | cons card rest ih =>
    rw [List.map_cons, List.nodup_cons] at h
    rw [upsert_cons]
    split
    · rename_i hid
      rw [List.map_cons, ← hid]
      exact List.nodup_cons.mpr h
    · rename_i hid
      refine List.nodup_cons.mpr ⟨fun hmem => ?_, ih h.2⟩
      obtain ⟨card', hmem, heq⟩ := List.mem_map.mp hmem
      have hfound : cardOf (Viewer.upsert rest remote) card.id ≠ none :=
        fun hnone => cardOf_eq_none.mp hnone card' hmem heq
      rw [cardOf_upsert, if_neg (Ne.symm hid)] at hfound
      refine hfound (cardOf_eq_none.mpr fun card'' hmem heq => h.1 ?_)
      exact heq ▸ List.mem_map_of_mem hmem

/-- A later page shows what was there, and else what it brings. -/
theorem cardOf_onPage {c : Id} {items : List Card} : cardOf (Viewer.onPage (some c) tasks items) taskId =
    (cardOf tasks taskId).or (cardOf items taskId) := by
  rw [Viewer.onPage, cardOf_append]
  cases htask : cardOf tasks taskId with
  | some card => rfl
  | none =>
    rw [cardOf_filter]
    intro item _ hid
    rw [hid, htask]
    rfl

theorem nodup_onPage {cursor : Option Id} {items : List Card} (h : (tasks.map Card.id).Nodup)
    (hitems : (items.map Card.id).Nodup) : ((Viewer.onPage cursor tasks items).map Card.id).Nodup := by
  cases cursor with
  | none => exact hitems
  | some c =>
    rw [Viewer.onPage, List.map_append, List.nodup_append]
    refine ⟨h, hitems.sublist (List.filter_sublist.map _), ?_⟩
    intro id hid id' hid'
    obtain ⟨task, htask, rfl⟩ := List.mem_map.mp hid
    obtain ⟨item, hitem, rfl⟩ := List.mem_map.mp hid'
    exact cardOf_eq_none.mp (of_decide_eq_true (List.mem_filter.mp hitem).2) task htask

end Answers

/-! ## Steps -/

namespace Viewer

/-- The state is one that a run can be in. -/
structure Sound (v : Viewer) : Prop where
  log : v.log.Sound
  upTo : v.upTo ≤ v.log.now
  nodup : (v.tasks.map Card.id).Nodup
  gets : ∀ get ∈ v.gets, ∀ n ∈ get.readAt, n ≤ v.log.now
  drains : ∀ d ∈ v.drains, ∀ n ∈ d.readAt, n ≤ v.log.now

/-- What an event makes of the tasks: the payload of a creation has no place, that of a move only the
place of the task it names. -/
def shown : Change → List Card → List Card
  | .created _, tasks => tasks
  | .updated _, tasks => tasks
  | .moved taskId columnId position _, tasks => place taskId columnId position tasks
  | .deleted taskId, tasks => remove taskId tasks

section Steps

variable {currentUserId : Option Id} {v v' : Viewer} {a : ViewAct} {c : Commit}
  {told told' : Nat → Prop} {taskId : Id}

/-- An event changes the tasks, or has some of them fetched. -/
theorem onEvent_eq (currentUserId : Option Id) (v : Viewer) (c : Commit) : ∃ timers,
    v.onEvent currentUserId c = { v with tasks := shown c.change v.tasks, timers } ∧
      (∀ t ∈ v.timers, t ∈ timers) ∧
      ∀ card, c.change = .created card → cardOf v.tasks card.id = none → card.id ∈ timers := by
  have hinsert : ∀ t, ∀ t' ∈ v.timers, t' ∈ v.timers.insert t := fun t t' h => List.mem_insert_of_mem h
  unfold onEvent
  cases hc : c.change with
  | created card =>
    simp only [onTaskCreated]
    split
    · rename_i hany
      refine ⟨v.timers, rfl, fun _ h => h, fun card' heq hnone => ?_⟩
      cases heq
      obtain ⟨task, htask, hid⟩ := List.any_eq_true.mp hany
      exact absurd (of_decide_eq_true hid) (cardOf_eq_none.mp hnone task htask)
    · refine ⟨_, rfl, hinsert _, fun card' heq _ => ?_⟩
      cases heq
      exact List.mem_insert_self
  | updated t => exact ⟨_, rfl, hinsert _, nofun⟩
  | moved t columnId position respread =>
    simp only [onTaskMoved]
    split
    · exact ⟨_, rfl, hinsert _, nofun⟩
    · exact ⟨_, rfl, fun _ h => h, nofun⟩
  | deleted t => exact ⟨_, rfl, fun _ h => h, nofun⟩

theorem nodup_shown {tasks : List Card} (change : Change) (h : (tasks.map Card.id).Nodup) :
    ((shown change tasks).map Card.id).Nodup := by
  cases change with
  | created card => exact h
  | updated t => exact h
  | moved t columnId position respread =>
    have hids := ids_place t columnId position tasks
    exact hids ▸ h
  | deleted t => exact h.sublist (List.filter_sublist.map _)

theorem next_commit (hs : next currentUserId (.commit c) v = some v') :
    v.log.Fits v.log.now c.change ∧ { v with log := v.log.push c } = v' := by
  simp only [next] at hs
  split at hs
  · rename_i hfits
    exact ⟨hfits, Option.some.inj hs⟩
  · cases hs

theorem next_deliver (hs : next currentUserId .deliver v = some v') :
    ∃ c, v.log.commits[v.upTo]? = some c ∧
      onEvent currentUserId { v with upTo := v.upTo + 1 } c = v' :=
  Option.map_eq_some_iff.mp hs

theorem next_fire (hs : next currentUserId (.fire taskId) v = some v') :
    { v with
      timers := v.timers.filter fun id => id ≠ taskId
      gets := v.gets ++ [⟨taskId, none⟩] } = v' := by
  simp only [next] at hs
  split at hs
  · exact Option.some.inj hs
  · cases hs

theorem next_readTask {k : Nat} (hs : next currentUserId (.readTask k) v = some v') :
    ∃ t, v.gets[k]? = some ⟨t, none⟩ ∧
      { v with gets := v.gets.set k ⟨t, some v.log.now⟩ } = v' := by
  simp only [next] at hs
  split at hs
  · rename_i t hget
    exact ⟨t, hget, Option.some.inj hs⟩
  · cases hs

theorem next_applyTask {k : Nat} (hs : next currentUserId (.applyTask k) v = some v') :
    ∃ t n, v.gets[k]? = some ⟨t, some n⟩ ∧
      { v with
        gets := v.gets.eraseIdx k
        tasks := match v.log.card n t with
          | none => v.tasks
          | some remote => upsert v.tasks remote } = v' := by
  simp only [next] at hs
  split at hs
  · rename_i t n hget
    exact ⟨t, n, hget, Option.some.inj hs⟩
  · cases hs

theorem next_readPage {k : Nat} (hs : next currentUserId (.readPage k) v = some v') :
    ∃ cursor resync, v.drains[k]? = some ⟨cursor, none, resync⟩ ∧
      { v with drains := v.drains.set k ⟨cursor, some v.log.now, resync⟩ } = v' := by
  simp only [next] at hs
  split at hs
  · rename_i cursor resync hd
    exact ⟨cursor, resync, hd, Option.some.inj hs⟩
  · cases hs

/-- A page is applied, and the drain waits for the next one if there is one. -/
theorem next_applyPage {k : Nat} (hs : next currentUserId (.applyPage k) v = some v') :
    ∃ d n drains, v.drains[k]? = some d ∧ d.readAt = some n ∧
      { v with tasks := onPage d.cursor v.tasks (page v.log d n).items, drains } = v' ∧
      (drains = v.drains.eraseIdx k ∧ (page v.log d n).nextCursor = none ∨
        ∃ c, (page v.log d n).nextCursor = some c ∧
          drains = v.drains.set k ⟨some c, none, d.resync⟩) := by
  simp only [next] at hs
  split at hs
  · rename_i cursor n resync hd
    refine ⟨⟨cursor, some n, resync⟩, n, _, hd, rfl, Option.some.inj hs, ?_⟩
    split
    · rename_i hnone
      exact .inl ⟨rfl, hnone⟩
    · rename_i c hsome
      refine .inr ⟨c, hsome, if_neg ?_⟩
      intro hcursor
      exact lt_irrefl c (after_nextCursor hsome c hcursor)
  · cases hs

theorem Sound.set_tasks {tasks : List Card} (hv : v.Sound) (h : (tasks.map Card.id).Nodup) :
    Sound { v with tasks } :=
  ⟨hv.log, hv.upTo, h, hv.gets, hv.drains⟩

/-- A drain that has just been sent. -/
theorem Sound.add_drain {d : Drain} (hv : v.Sound) (h : d.readAt = none) :
    Sound { v with drains := v.drains ++ [d] } := by
  refine ⟨hv.log, hv.upTo, hv.nodup, hv.gets, fun d' hd n hn => ?_⟩
  rcases List.mem_append.mp hd with hd | hd
  · exact hv.drains d' hd n hn
  · rw [List.mem_singleton.mp hd, h] at hn
    cases hn

theorem Sound.next (hv : v.Sound) (hplain : a.Plain) (hs : next currentUserId a v = some v') :
    v'.Sound := by
  cases a with
  | commit c =>
    obtain ⟨hfits, rfl⟩ := next_commit hs
    refine ⟨hv.log.push hfits hplain, ?_, hv.nodup, fun get hget n hn => ?_, fun d hd n hn => ?_⟩
    · exact hv.upTo.trans (by simp)
    · exact (hv.gets get hget n hn).trans (by simp)
    · exact (hv.drains d hd n hn).trans (by simp)
  | deliver =>
    obtain ⟨c, hc, rfl⟩ := next_deliver hs
    obtain ⟨timers, heq, _, _⟩ := onEvent_eq currentUserId { v with upTo := v.upTo + 1 } c
    rw [heq]
    exact ⟨hv.log, (List.getElem?_eq_some_iff.mp hc).1, nodup_shown c.change hv.nodup, hv.gets,
      hv.drains⟩
  | fire t =>
    obtain rfl := next_fire hs
    refine ⟨hv.log, hv.upTo, hv.nodup, fun get hget n hn => ?_, hv.drains⟩
    rcases List.mem_append.mp hget with hget | hget
    · exact hv.gets get hget n hn
    · rw [List.mem_singleton.mp hget] at hn
      cases hn
  | readTask k =>
    obtain ⟨t, _, rfl⟩ := next_readTask hs
    refine ⟨hv.log, hv.upTo, hv.nodup, fun get hget n hn => ?_, hv.drains⟩
    rcases List.mem_or_eq_of_mem_set hget with hget | rfl
    · exact hv.gets get hget n hn
    · exact (Option.some.inj hn).symm.le
  | applyTask k =>
    obtain ⟨t, n, _, rfl⟩ := next_applyTask hs
    refine ⟨hv.log, hv.upTo, ?_, fun get hget => hv.gets get (List.mem_of_mem_eraseIdx hget), hv.drains⟩
    cases v.log.card n t with
    | none => exact hv.nodup
    | some remote => exact nodup_upsert hv.nodup
  | startDrain =>
    cases hs
    exact hv.add_drain rfl
  | readPage k =>
    obtain ⟨cursor, resync, _, rfl⟩ := next_readPage hs
    refine ⟨hv.log, hv.upTo, hv.nodup, hv.gets, fun d hd n hn => ?_⟩
    rcases List.mem_or_eq_of_mem_set hd with hd | rfl
    · exact hv.drains d hd n hn
    · exact (Option.some.inj hn).symm.le
  | applyPage k =>
    obtain ⟨d, n, drains, hd, hn, rfl, hdrains⟩ := next_applyPage hs
    refine ⟨hv.log, hv.upTo, nodup_onPage hv.nodup (items_nodup (hv.log.cards_nodup n)), hv.gets,
      fun d' hd' m hm => ?_⟩
    rcases hdrains with ⟨rfl, _⟩ | ⟨c, _, rfl⟩
    · exact hv.drains d' (List.mem_of_mem_eraseIdx hd') m hm
    · rcases List.mem_or_eq_of_mem_set hd' with hd' | rfl
      · exact hv.drains d' hd' m hm
      · cases hm

end Steps

end Viewer
end Web
end Kurul
