import Kurul.Web.Convergence
import Kurul.Web.MoverInv

/-!
# Kurul.Web.OptimisticMoves

What is left of a client's moves once all of them are answered.

* `own_next` — on a board nobody else changes, every task is shown as the server last told, or
  something still to come puts it right.
* `moves_leave_no_trace` — such a client ends with the server's board, and no rollback takes back what
  an event wrote, if a move is rolled back only over the array its drag left.
-/

namespace Kurul
namespace Web

open Lts

namespace Mover

/-- Nobody else changes the board. -/
def Alone : MoverAct → Prop
  | .view (.commit _) => False
  | _ => True

instance (a : MoverAct) : Decidable (Alone a) := by
  unfold Alone
  split <;> infer_instance

/-- In this array the task is as the server told, or something still to come puts it right. -/
def Right (live : Bool) (told : Nat → Prop) (v : Viewer) (moves : List PendingMove) (tasks : List Card)
    (taskId : Id) : Prop :=
  Viewer.InSync told { v with tasks } taskId ∨
    (cardOf tasks taskId ≠ none ∧ Mending live v moves taskId)

/-- The other moves in flight. -/
def others (moves : List PendingMove) (m : PendingMove) : List PendingMove :=
  moves.filter fun m' => m'.generation ≠ m.generation

/-- What holds on a board nobody else changes. -/
structure Own (me : Id) (live : Bool) (s : Mover) : Prop where
  base : s.Base
  timers : s.viewer.timers = []
  gets : s.viewer.gets = []
  commits : ∀ c ∈ s.viewer.log.commits, ∃ taskId columnId position,
    c = ⟨.moved taskId columnId position [], me⟩
  confirmed : ∀ i ∈ s.confirmed, i < s.viewer.log.now
  answers : ∀ m ∈ s.moves, ∀ i, m.answer = some (.accepted i) →
    ∃ c, s.viewer.log.commits[i]? = some c ∧ c.change.taskId = m.taskId
  answered : ∀ i < s.viewer.log.now,
    i ∈ s.confirmed ∨ ∃ m ∈ s.moves, m.answer = some (.accepted i)
  rows : ∀ taskId, Right live s.Told s.viewer s.moves s.viewer.tasks taskId
  /-- So would the task be in the array that a rollback restores. -/
  restored : ∀ m ∈ s.moves, m.generation = s.moveGeneration → m.disturbed = false →
    Right live s.Told s.viewer (others s.moves m) m.previousTasks m.taskId

section Right

variable {live : Bool} {told told' : Nat → Prop} {v v' : Viewer} {moves moves' : List PendingMove}
  {tasks tasks' : List Card} {taskId : Id}

theorem Mending.mono (h : Mending live v moves taskId)
    (hmoves : ∀ m ∈ moves, m.taskId = taskId → ∃ m' ∈ moves', m'.taskId = taskId)
    (hdrains : ∀ d ∈ v.drains, d.cursor = none → ∃ d' ∈ v'.drains, d'.cursor = none)
    (hevents : ∀ i c, v.upTo ≤ i → v.log.commits[i]? = some c → c.change.taskId = taskId →
      v'.upTo ≤ i ∧ v'.log.commits[i]? = some c) : Mending live v' moves' taskId := by
  rcases h with ⟨m, hm, htask⟩ | ⟨d, hd, hcursor⟩ | ⟨hlive, i, c, hi, hc, htask⟩
  · exact .inl (hmoves m hm htask)
  · exact .inr (.inl (hdrains d hd hcursor))
  · obtain ⟨hi', hc'⟩ := hevents i c hi hc htask
    exact .inr (.inr ⟨hlive, i, c, hi', hc', htask⟩)

theorem Mending.of_moves (h : Mending live v moves taskId)
    (hmoves : ∀ m ∈ moves, m.taskId = taskId → ∃ m' ∈ moves', m'.taskId = taskId) :
    Mending live v moves' taskId :=
  h.mono hmoves (fun d hd hcursor => ⟨d, hd, hcursor⟩) fun _ _ hi hc _ => ⟨hi, hc⟩

/-- Other moves, as long as the task's own stay. -/
theorem Right.of_moves (h : Right live told v moves tasks taskId)
    (hmoves : ∀ m ∈ moves, m.taskId = taskId → ∃ m' ∈ moves', m'.taskId = taskId) :
    Right live told v moves' tasks taskId :=
  h.imp_right (And.imp_right fun h => h.of_moves hmoves)

/-- Another array that shows the task alike. -/
theorem Right.of_tasks (h : Right live told v moves tasks taskId)
    (htasks : cardOf tasks' taskId = cardOf tasks taskId) : Right live told v moves tasks' taskId := by
  refine h.imp (fun hsync => ?_) (And.imp_left fun hshown => htasks ▸ hshown)
  exact hsync.keep rfl htasks (fun _ _ hi _ _ => hi) fun hnone hcoming =>
    .inr ⟨htasks.trans hnone, hcoming⟩

/-- A task that is not shown, or is not shown for long. -/
theorem Right.of_mending (h : Right live told v moves tasks taskId)
    (hmending : Mending live v moves' taskId)
    (htasks : cardOf tasks' taskId = none ↔ cardOf tasks taskId = none) :
    Right live told v moves' tasks' taskId := by
  by_cases hnone : cardOf tasks taskId = none
  · have hsync := h.resolve_right fun hshown => hshown.1 hnone
    exact Right.of_tasks (.inl hsync) ((htasks.mpr hnone).trans hnone.symm)
  · exact .inr ⟨fun hnone' => hnone (htasks.mp hnone'), hmending⟩

/-- What is told of other tasks. -/
theorem Right.of_told (h : Right live told v moves tasks taskId)
    (htold : ∀ i c, told' i → v.log.commits[i]? = some c → c.change.taskId = taskId → told i) :
    Right live told' v moves tasks taskId :=
  h.imp_left fun hsync => hsync.keep rfl rfl (fun i c hi hc hundo => htold i c hi hc hundo.1)
    fun hnone hcoming => .inr ⟨hnone, hcoming⟩

/-- The event of another task. -/
theorem Right.deliver {c : Commit} (h : Right live told v moves tasks taskId)
    (hc : v.log.commits[v.upTo]? = some c) (hother : c.change.taskId ≠ taskId) :
    Right live told { v with upTo := v.upTo + 1 } moves tasks taskId := by
  refine h.imp (fun hsync => ?_) (And.imp_right fun h => ?_)
  · exact hsync.keep rfl rfl (fun _ _ hi _ _ => hi) fun hnone hcoming => .inr ⟨hnone, hcoming⟩
  · refine h.mono (fun m hm htask => ⟨m, hm, htask⟩) (fun d hd hcursor => ⟨d, hd, hcursor⟩) ?_
    intro i c' hi hc' htask
    refine ⟨Nat.lt_of_le_of_ne hi fun heq => hother ?_, hc'⟩
    rw [← heq, hc] at hc'
    rwa [Option.some.inj hc']

theorem Right.startDrain (h : Right live told v moves tasks taskId) (d : Drain) :
    Right live told { v with drains := v.drains ++ [d] } moves tasks taskId := by
  refine h.imp (fun hsync => Viewer.inSync_startDrain hsync d) (And.imp_right fun h => ?_)
  exact h.mono (fun m hm htask => ⟨m, hm, htask⟩)
    (fun d hd hcursor => ⟨d, List.mem_append_left _ hd, hcursor⟩) fun _ _ hi hc _ => ⟨hi, hc⟩

theorem Right.readPage {k : Nat} {cursor : Option Id} {resync : Bool} (hv : v.Sound)
    (htasks : (tasks.map Card.id).Nodup) (hnow : ∀ i, told i → i < v.log.now)
    (h : Right live told v moves tasks taskId) (hk : v.drains[k]? = some ⟨cursor, none, resync⟩) :
    Right live told { v with drains := v.drains.set k ⟨cursor, some v.log.now, resync⟩ } moves tasks
      taskId := by
  refine h.imp (fun hsync => Viewer.inSync_readPage (hv.set_tasks htasks) hsync hnow hk)
    (And.imp_right fun h => ?_)
  refine h.mono (fun m hm htask => ⟨m, hm, htask⟩) (fun d hd hcursor => ?_)
    fun _ _ hi hc _ => ⟨hi, hc⟩
  rcases mem_or_mem_set hk hd with rfl | hd
  · exact ⟨_, mem_set_self hk, hcursor⟩
  · exact ⟨d, hd, hcursor⟩

theorem Right.push (hv : v.Sound) (htasks : (tasks.map Card.id).Nodup)
    (hnow : ∀ i, told i → i < v.log.now) (h : Right live told v moves tasks taskId) (c : Commit) :
    Right live told { v with log := v.log.push c } moves tasks taskId := by
  refine h.imp (fun hsync => Viewer.inSync_push (hv.set_tasks htasks) hsync c hnow)
    (And.imp_right fun h => ?_)
  refine h.mono (fun m hm htask => ⟨m, hm, htask⟩) (fun d hd hcursor => ⟨d, hd, hcursor⟩) ?_
  intro i c' hi hc' _
  refine ⟨hi, ?_⟩
  rwa [BoardLog.commits_push (List.getElem?_eq_some_iff.mp hc').1]

end Right

section Own

variable {me : Id} {live : Bool} {s s' : Mover} {v : Viewer} {m : PendingMove}

theorem mem_others {moves : List PendingMove} {m' : PendingMove} :
    m' ∈ others moves m ↔ m' ∈ moves ∧ m'.generation ≠ m.generation := by
  simp [others]

theorem Own.told (hs : Own me live s) : ∀ i, s.Told i → i < s.viewer.log.now := by
  intro i hi
  rcases hi with hi | hi
  · exact hs.confirmed i hi
  · exact hi.trans_le hs.base.viewer.upTo

/-- Something has happened at the client, and the moves in flight have seen it. -/
theorem Own.saw {a : ViewAct} (hs : Own me live s)
    (hbase : Base { s with viewer := v, moves := s.moves.map (PendingMove.saw s.viewer v a) })
    (htimers : v.timers = []) (hgets : v.gets = []) (hlog : v.log = s.viewer.log)
    (hrows : ∀ taskId, Right live { s with viewer := v }.Told v s.moves v.tasks taskId)
    (hrestored : ∀ m ∈ s.moves, m.generation = s.moveGeneration →
      (m.saw s.viewer v a).disturbed = false →
      Right live { s with viewer := v }.Told v (others s.moves m) m.previousTasks m.taskId) :
    Own me live { s with viewer := v, moves := s.moves.map (PendingMove.saw s.viewer v a) } where
  base := hbase
  timers := htimers
  gets := hgets
  commits := hlog ▸ hs.commits
  confirmed := hlog ▸ hs.confirmed
  answers := by
    intro m' hm' i hanswer
    obtain ⟨m, hm, rfl⟩ := List.mem_map.mp hm'
    exact hlog ▸ hs.answers m hm i hanswer
  answered := by
    intro i hi
    refine (hs.answered i (hlog ▸ hi)).imp_right fun hm => ?_
    obtain ⟨m, hm, hanswer⟩ := hm
    exact ⟨_, List.mem_map_of_mem hm, hanswer⟩
  rows := fun taskId => (hrows taskId).of_moves fun m hm htask => ⟨_, List.mem_map_of_mem hm, htask⟩
  restored := by
    intro m' hm' hlatest hdisturbed
    obtain ⟨m, hm, rfl⟩ := List.mem_map.mp hm'
    refine (hrestored m hm hlatest hdisturbed).of_moves fun m' hm' htask => ?_
    obtain ⟨hm', hgen⟩ := mem_others.mp hm'
    exact ⟨_, mem_others.mpr ⟨List.mem_map_of_mem hm', hgen⟩, htask⟩

/-- The user's own event asks for no fetch. -/
theorem onEvent_own {taskId columnId : Id} {position : Position} {respread : List (Id × Position)} :
    v.onEvent (some me) ⟨.moved taskId columnId position respread, me⟩ =
      { v with tasks := place taskId columnId position v.tasks } := by
  simp [Viewer.onEvent, Viewer.onTaskMoved]

theorem not_disturbed {v v' : Viewer} {a : ViewAct} (h : (m.saw v v' a).disturbed = false) :
    m.disturbed = false ∧ m.taskId ∉ v.writes a ∧ ∀ k, a ≠ .applyPage k := by
  simp only [PendingMove.saw, PendingMove.wrote, Bool.or_eq_false_iff, decide_eq_false_iff_not] at h
  refine ⟨h.1.1.1, h.1.2, fun k ha => ?_⟩
  subst ha
  cases h.2

theorem Own.moved (hs : Own me live s) {i : Nat} {c : Commit} (hc : s.viewer.log.commits[i]? = some c) :
    ∃ taskId columnId position, c = ⟨.moved taskId columnId position [], me⟩ :=
  hs.commits c (List.mem_of_getElem? hc)

/-- No move undoes that a task is not there. -/
theorem Own.not_undone (hs : Own me live s) {told : Nat → Prop} {n : Nat} {taskId : Id} :
    ¬ Overtaken told s.viewer.log n taskId none := by
  intro ho
  obtain ⟨i, c, _, _, hc, hundo⟩ := ho
  obtain ⟨t, columnId, position, rfl⟩ := hs.moved hc
  exact hundo.2

/-- So a task that is not shown is no worse for what is told. -/
theorem Own.absent (hs : Own me live s) {told told' : Nat → Prop} {moves : List PendingMove} {upTo : Nat}
    {tasks tasks' : List Card} {taskId : Id} (h : Right live told s.viewer moves tasks taskId)
    (hnone : cardOf tasks taskId = none) (hnone' : cardOf tasks' taskId = none) :
    Viewer.InSync told' { s.viewer with upTo, tasks := tasks' } taskId := by
  rcases h.resolve_right fun hshown => hshown.1 hnone with ⟨n, hn, hcard, _⟩ | ⟨_, hcoming⟩
  · refine .inl ⟨n, hn, hnone'.trans (hnone.symm.trans hcard), ?_⟩
    rw [hnone']
    exact hs.not_undone
  · exact .inr ⟨hnone', hcoming⟩

theorem own_deliver (hs : Own me live s) (hlive : live = true)
    (hv : Viewer.next (some me) .deliver s.viewer = some v)
    (hbase : Base { s with viewer := v, moves := s.moves.map (PendingMove.saw s.viewer v .deliver) }) :
    Own me live { s with viewer := v, moves := s.moves.map (PendingMove.saw s.viewer v .deliver) } := by
  have hsound := hs.base.viewer
  obtain ⟨c, hc, rfl⟩ := Viewer.next_deliver hv
  obtain ⟨t, columnId, position, rfl⟩ := hs.commits c (List.mem_of_getElem? hc)
  have hlt : s.viewer.upTo < s.viewer.log.now := (List.getElem?_eq_some_iff.mp hc).1
  rw [onEvent_own] at hbase ⊢
  -- an event of another task tells nothing of this one
  have hother : ∀ taskId moves tasks, t ≠ taskId →
      Right live s.Told s.viewer moves tasks taskId →
      Right live (fun i => i ∈ s.confirmed ∨ i < s.viewer.upTo + 1)
        { s.viewer with upTo := s.viewer.upTo + 1 } moves tasks taskId := by
    intro taskId moves tasks ht h
    refine (h.deliver hc ht).of_told fun i c hi hci htask => hi.imp_right fun hi => ?_
    refine Nat.lt_of_le_of_ne (Nat.lt_succ_iff.mp hi) fun heq => ht ?_
    rw [heq, hc] at hci
    rw [← Option.some.inj hci] at htask
    exact htask
  refine hs.saw hbase hs.timers hs.gets rfl (fun taskId => ?_) fun m hm hlatest hdisturbed => ?_
  · by_cases ht : t = taskId
    · subst ht
      have hshown := Viewer.cardOf_shown_moved hsound.log hc rfl
      cases htask : cardOf s.viewer.tasks t with
      | none =>
        refine .inl (hs.absent (hs.rows t) htask ?_)
        rw [cardOf_place, if_pos rfl, htask, Option.map_none]
      | some task =>
        have hcard := hshown (by simp [htask])
        by_cases hover : Overtaken (fun i => i ∈ s.confirmed ∨ i < s.viewer.upTo + 1) s.viewer.log
            (s.viewer.upTo + 1) t (cardOf (place t columnId position s.viewer.tasks) t)
        · -- an answer came before the event: the event of what was answered is still to come
          obtain ⟨i, c, hi, _, hci, hundo⟩ := hover
          refine .inr ⟨?_, .inr (.inr ⟨hlive, i, c, hi, hci, hundo.1⟩)⟩
          rw [cardOf_place, if_pos rfl, htask]
          nofun
        · exact .inl (.inl ⟨_, hlt, hcard, hover⟩)
    · refine (hother taskId _ _ ht (hs.rows taskId)).of_tasks ?_
      rw [cardOf_place, if_neg ht]
  · obtain ⟨hbefore, hwrites, _⟩ := not_disturbed hdisturbed
    refine hother m.taskId _ _ (fun ht => hwrites ?_) (hs.restored m hm hlatest hbefore)
    rw [Viewer.writes, hc]
    exact List.mem_singleton.mpr ht.symm

theorem own_applyPage {k : Nat} (hs : Own me live s) (hok : s.Ok live (.view (.applyPage k)))
    (hv : Viewer.next (some me) (.applyPage k) s.viewer = some v)
    (hbase : Base { s with
      viewer := v
      moves := s.moves.map (PendingMove.saw s.viewer v (.applyPage k)) }) :
    Own me live { s with
      viewer := v
      moves := s.moves.map (PendingMove.saw s.viewer v (.applyPage k)) } := by
  have hsound := hs.base.viewer
  obtain ⟨d, n, drains, hk, hn, rfl, hdrains⟩ := Viewer.next_applyPage hv
  refine hs.saw hbase hs.timers hs.gets rfl (fun taskId => ?_)
    fun m _ _ hdisturbed => absurd rfl ((not_disturbed hdisturbed).2.2 k)
  have hrest : ∀ d' ∈ s.viewer.drains.eraseIdx k, d' ∈ drains := by
    intro d' hd'
    rcases hdrains with ⟨rfl, _⟩ | ⟨c, _, rfl⟩
    · exact hd'
    · exact mem_set_of_mem_eraseIdx hd'
  -- the page shows the task, and something still to come puts it right
  by_cases hmending : cardOf (Viewer.onPage d.cursor s.viewer.tasks
      (Viewer.page s.viewer.log d n).items) taskId ≠ none ∧
      Mending live { s.viewer with drains := s.viewer.drains.eraseIdx k } s.moves taskId
  · refine .inr ⟨hmending.1, hmending.2.mono (fun m hm htask => ⟨m, hm, htask⟩) ?_
      fun _ _ hi hc _ => ⟨hi, hc⟩⟩
    exact fun d' hd' hcursor => ⟨d', hrest d' hd', hcursor⟩
  · left
    cases hcursor : d.cursor with
    | none =>
      rw [hcursor] at hmending
      have hfirst := @Viewer.inSync_firstPage _ s.Told taskId hsound _ _ _ _ hk hn hdrains hcursor
        (fun item hmem hid => ?_) fun _ ho => absurd ho hs.not_undone
      · rwa [hcursor] at hfirst
      · subst hid
        refine (hok d n hk hn item hmem (.inl hcursor)).resolve_right fun h => hmending ⟨?_, h⟩
        exact fun hnone => cardOf_eq_none.mp hnone item hmem rfl
    | some c =>
      rw [hcursor] at hmending
      have hshows := @cardOf_onPage taskId s.viewer.tasks c (Viewer.page s.viewer.log d n).items
      have hsync := (hs.rows taskId).resolve_right fun h => hmending ⟨?_, ?_⟩
      · have hlater := @Viewer.inSync_laterPage _ s.Told taskId hsound hsync _ _ _ _ hk hn hdrains _
          hcursor fun item hmem hid hnone => ?_
        · rwa [hcursor] at hlater
        · subst hid
          refine (hok d n hk hn item hmem (.inr hnone)).resolve_right fun h => hmending ⟨?_, h⟩
          rw [hshows, hnone, Option.none_or]
          exact fun hnone => cardOf_eq_none.mp hnone item hmem rfl
      · obtain ⟨task, htask⟩ := Option.ne_none_iff_exists'.mp h.1
        rw [hshows, htask]
        nofun
      · -- the reload still to come is not this drain
        refine h.2.mono (fun m hm htask => ⟨m, hm, htask⟩) (fun d' hd' hnone => ?_)
          fun _ _ hi hc _ => ⟨hi, hc⟩
        refine ⟨d', (mem_or_mem_eraseIdx hk hd').resolve_left fun heq => ?_, hnone⟩
        rw [heq, hcursor] at hnone
        cases hnone

theorem own_view {a : ViewAct} (hs : Own me live s) (hok : s.Ok live (.view a)) (halone : Alone (.view a))
    (hn : next me live (.view a) s = some s') : Own me live s' := by
  have hbase := next_base hs.base hok hn
  obtain ⟨hlive, v, hv, rfl⟩ := next_view hn
  cases a with
  | commit c => exact halone.elim
  | deliver => exact own_deliver hs (hlive rfl) hv hbase
  | fire t => simp [Viewer.next, hs.timers] at hv
  | readTask k => simp [Viewer.next, hs.gets] at hv
  | applyTask k => simp [Viewer.next, hs.gets] at hv
  | startDrain =>
    cases hv
    exact hs.saw hbase hs.timers hs.gets rfl (fun taskId => (hs.rows taskId).startDrain _)
      fun m hm hlatest hdisturbed =>
        (hs.restored m hm hlatest (not_disturbed hdisturbed).1).startDrain _
  | readPage k =>
    obtain ⟨cursor, resync, hk, rfl⟩ := Viewer.next_readPage hv
    have hsound := hs.base.viewer
    exact hs.saw hbase hs.timers hs.gets rfl
      (fun taskId => (hs.rows taskId).readPage hsound hsound.nodup hs.told hk)
      fun m hm hlatest hdisturbed => (hs.restored m hm hlatest (not_disturbed hdisturbed).1).readPage
        hsound (hs.base.previous m hm) hs.told hk
  | applyPage k => exact own_applyPage hs hok hv hbase

theorem own_commitTaskMove {taskId columnId : Id} {position : Position} {nextTasks : List Card}
    (hs : Own me live s) (hn : next me live (.commitTaskMove taskId columnId position nextTasks) s = some s') :
    Own me live s' := by
  have hbase := commitTaskMove_base hs.base hn
  obtain ⟨hperm, rfl⟩ := next_commitTaskMove hn
  have hrow : ∀ t, cardOf nextTasks t = cardOf (place taskId columnId position s.viewer.tasks) t := by
    refine cardOf_perm ?_ hperm
    rw [ids_place]
    exact hs.base.viewer.nodup
  refine ⟨hbase, hs.timers, hs.gets, hs.commits, hs.confirmed, fun m hm i hanswer => ?_, fun i hi => ?_,
    fun t => ?_, fun m hm hlatest _ => ?_⟩
  · rcases List.mem_append.mp hm with hm | hm
    · exact hs.answers m hm i hanswer
    · rw [List.mem_singleton.mp hm] at hanswer
      cases hanswer
  · refine (hs.answered i hi).imp_right fun hm => ?_
    obtain ⟨m, hm, hanswer⟩ := hm
    exact ⟨m, List.mem_append_left _ hm, hanswer⟩
  · by_cases ht : taskId = t
    · subst ht
      refine (hs.rows taskId).of_mending (.inl ⟨_, List.mem_append_right _ List.mem_cons_self, rfl⟩) ?_
      rw [hrow, cardOf_place, if_pos rfl, Option.map_eq_none_iff]
    · have hcard : cardOf nextTasks t = cardOf s.viewer.tasks t := by
        rw [hrow, cardOf_place, if_neg ht]
      exact ((hs.rows t).of_tasks hcard).of_moves fun m hm htask => ⟨m, List.mem_append_left _ hm, htask⟩
  · rcases List.mem_append.mp hm with hm | hm
    · -- an older move is not the latest any more
      have hle := hs.base.latest m hm
      dsimp only at hlatest
      omega
    · rw [List.mem_singleton.mp hm]
      refine Right.of_moves (hs.rows taskId) fun m' hm' htask =>
        ⟨m', mem_others.mpr ⟨List.mem_append_left _ hm', ?_⟩, htask⟩
      have hle := hs.base.latest m' hm'
      dsimp only
      omega

/-- The server has answered a move, and may have logged it. -/
theorem Own.answer {k : Nat} {log : BoardLog} (hs : Own me live s) (hk : s.moves[k]? = some m)
    (hnone : m.answer = none) (answer : MoveAnswer)
    (hbase : Base { s with
      viewer := { s.viewer with log }
      moves := s.moves.set k { m with answer := some answer } })
    (hcommits : ∀ c ∈ log.commits, ∃ taskId columnId position, c = ⟨.moved taskId columnId position [], me⟩)
    (hkept : ∀ (i : Nat) c, s.viewer.log.commits[i]? = some c → log.commits[i]? = some c)
    (hanswer : ∀ i : Nat, answer = .accepted i → ∃ c, log.commits[i]? = some c ∧ c.change.taskId = m.taskId)
    (hanswered : ∀ i < log.now, i < s.viewer.log.now ∨ answer = .accepted i)
    (hright : ∀ moves tasks taskId, (tasks.map Card.id).Nodup →
      Right live s.Told s.viewer moves tasks taskId →
      Right live s.Told { s.viewer with log } moves tasks taskId) :
    Own me live { s with
      viewer := { s.viewer with log }
      moves := s.moves.set k { m with answer := some answer } } := by
  have hmoves : ∀ m₀ ∈ s.moves, ∃ m' ∈ s.moves.set k { m with answer := some answer },
      m'.taskId = m₀.taskId ∧ m'.generation = m₀.generation := by
    intro m₀ hm₀
    rcases mem_or_mem_set hk hm₀ with rfl | hm₀
    · exact ⟨_, mem_set_self hk, rfl, rfl⟩
    · exact ⟨m₀, hm₀, rfl, rfl⟩
  have hothers : ∀ m₁ m₂ : PendingMove, m₂.generation = m₁.generation → ∀ m₀ ∈ others s.moves m₁,
      ∃ m' ∈ others (s.moves.set k { m with answer := some answer }) m₂, m'.taskId = m₀.taskId := by
    intro m₁ m₂ hgen m₀ hm₀
    obtain ⟨hm₀, hne⟩ := mem_others.mp hm₀
    obtain ⟨m', hm', htask, hgen'⟩ := hmoves m₀ hm₀
    exact ⟨m', mem_others.mpr ⟨hm', hgen'.trans_ne (hgen ▸ hne)⟩, htask⟩
  refine ⟨hbase, hs.timers, hs.gets, hcommits, fun i hi => ?_, fun m' hm' i hi => ?_, fun i hi => ?_,
    fun taskId => ?_, fun m' hm' hlatest hdisturbed => ?_⟩
  · have hc := List.getElem?_eq_getElem (hs.confirmed i hi)
    exact (List.getElem?_eq_some_iff.mp (hkept i _ hc)).1
  · rcases List.mem_or_eq_of_mem_set hm' with hm' | rfl
    · obtain ⟨c, hc, htask⟩ := hs.answers m' hm' i hi
      exact ⟨c, hkept i c hc, htask⟩
    · exact hanswer i (Option.some.inj hi)
  · rcases hanswered i hi with hi | hi
    · refine (hs.answered i hi).imp_right fun hm => ?_
      obtain ⟨m₀, hm₀, hm₀i⟩ := hm
      refine ⟨m₀, (mem_or_mem_set hk hm₀).resolve_left ?_, hm₀i⟩
      rintro rfl
      rw [hnone] at hm₀i
      cases hm₀i
    · exact .inr ⟨_, mem_set_self hk, congrArg some hi⟩
  · refine (hright _ _ _ hs.base.viewer.nodup (hs.rows taskId)).of_moves fun m₀ hm₀ htask => ?_
    obtain ⟨m', hm', htask', _⟩ := hmoves m₀ hm₀
    exact ⟨m', hm', htask'.trans htask⟩
  · rcases List.mem_or_eq_of_mem_set hm' with hm' | rfl
    · refine (hright _ _ _ (hs.base.previous m' hm') (hs.restored m' hm' hlatest hdisturbed)).of_moves
        fun m₀ hm₀ htask => ?_
      obtain ⟨m'', hm'', htask'⟩ := hothers m' m' rfl m₀ hm₀
      exact ⟨m'', hm'', htask'.trans htask⟩
    · have hm := List.mem_of_getElem? hk
      refine (hright _ _ _ (hs.base.previous m hm) (hs.restored m hm hlatest hdisturbed)).of_moves
        fun m₀ hm₀ htask => ?_
      obtain ⟨m'', hm'', htask'⟩ := hothers m { m with answer := some answer } rfl m₀ hm₀
      exact ⟨m'', hm'', htask'.trans htask⟩

theorem own_accept {k : Nat} {position : Position} {respread : List (Id × Position)}
    (hs : Own me live s) (hok : s.Ok live (.accept k position respread))
    (hn : next me live (.accept k position respread) s = some s') : Own me live s' := by
  have hbase := next_base hs.base hok hn
  obtain ⟨m, v, hk, hnone, hv, rfl⟩ := next_accept hn
  obtain rfl : respread = [] := hok
  obtain ⟨_, rfl⟩ := Viewer.next_commit hv
  refine hs.answer hk hnone _ hbase (fun c hc => ?_) (fun i c hc => ?_) (fun i hi => ?_) (fun i hi => ?_)
    fun moves tasks taskId hnd h => h.push hs.base.viewer hnd hs.told _
  · rcases List.mem_append.mp hc with hc | hc
    · exact hs.commits c hc
    · exact ⟨_, _, _, List.mem_singleton.mp hc⟩
  · rwa [BoardLog.commits_push (List.getElem?_eq_some_iff.mp hc).1]
  · cases hi
    exact ⟨_, BoardLog.commits_push_now, rfl⟩
  · rw [BoardLog.now_push] at hi
    rcases Nat.lt_succ_iff_lt_or_eq.mp hi with hi | rfl
    · exact .inl hi
    · exact .inr rfl

theorem own_refuse {k : Nat} (hs : Own me live s) (hn : next me live (.refuse k) s = some s') :
    Own me live s' := by
  obtain ⟨m, hk, hnone, rfl⟩ := next_refuse hn
  exact hs.answer hk hnone .refused (answer_base hs.base hk hs.base.viewer rfl _) hs.commits
    (fun _ _ hc => hc) nofun (fun _ hi => .inl hi) fun _ _ _ _ h => h

/-! ### Answers -/

section Settle

variable {k i : Nat}

theorem cardOf_setUpdated {tasks : List Card} {updated : Card} {taskId : Id} :
    cardOf (setUpdated tasks (some updated)) taskId =
      if updated.id = taskId then (cardOf tasks taskId).map fun _ => updated
      else cardOf tasks taskId := by
  rw [setUpdated, cardOf_map]
  · cases htask : cardOf tasks taskId with
    | none => simp
    | some task =>
      rw [Option.map_some, Option.map_some, id_of_cardOf htask]
      by_cases hid : updated.id = taskId
      · rw [if_pos hid, if_pos hid.symm]
      · rw [if_neg hid, if_neg (Ne.symm hid)]
  · intro task
    split
    · rename_i hid
      exact hid.symm
    · rfl

/-- The moves that are left once one of another task is answered. -/
theorem mem_eraseIdx_of_ne {m₀ : PendingMove} (hk : s.moves[k]? = some m) (hm₀ : m₀ ∈ s.moves)
    (hne : m₀.taskId ≠ m.taskId) : m₀ ∈ s.moves.eraseIdx k :=
  (mem_or_mem_eraseIdx hk hm₀).resolve_left fun heq => hne (by rw [heq])

theorem own_settle_accepted {tasks : List Card} (hs : Own me live s) (hok : s.Ok live (.settle k))
    (hk : s.moves[k]? = some m) (hanswer : m.answer = some (.accepted i))
    (htasks : tasks = setUpdated s.viewer.tasks (s.viewer.log.card (i + 1) m.taskId))
    (hbase : Base { s with
      viewer := { s.viewer with tasks }
      moves := (s.moves.eraseIdx k).map (PendingMove.wrote s.viewer.tasks tasks [m.taskId])
      confirmed := s.confirmed ++ [i] }) :
    Own me live { s with
      viewer := { s.viewer with tasks }
      moves := (s.moves.eraseIdx k).map (PendingMove.wrote s.viewer.tasks tasks [m.taskId])
      confirmed := s.confirmed ++ [i] } := by
  have hm := List.mem_of_getElem? hk
  obtain ⟨c, hc, htask⟩ := hs.answers m hm i hanswer
  have hlt : i < s.viewer.log.now := (List.getElem?_eq_some_iff.mp hc).1
  -- the task was there to be moved
  obtain ⟨updated, hupdated⟩ : ∃ updated, s.viewer.log.card (i + 1) m.taskId = some updated := by
    obtain ⟨t, columnId, position, rfl⟩ := hs.moved hc
    obtain rfl : t = m.taskId := htask
    have hfits := hs.base.viewer.log.fits i _ hc
    obtain ⟨card, hcard⟩ := Option.ne_none_iff_exists'.mp hfits
    rw [hs.base.viewer.log.card_succ hc, hcard]
    exact ⟨_, if_pos rfl⟩
  have hid := id_of_cardOf hupdated
  rw [hupdated] at htasks
  -- of the other tasks nothing is told, and their moves are still in flight
  have hother : ∀ taskId moves moves' tasks, taskId ≠ m.taskId →
      Right live s.Told s.viewer moves tasks taskId →
      (∀ m₀ ∈ moves, m₀.taskId = taskId → ∃ m' ∈ moves', m'.taskId = taskId) →
      Right live (fun j => j ∈ s.confirmed ++ [i] ∨ j < s.viewer.upTo) s.viewer moves' tasks taskId := by
    intro taskId moves moves' tasks ht h hmoves
    refine (h.of_told fun j c' hj hcj htask' => hj.imp_left fun hj => ?_).of_moves hmoves
    refine (List.mem_append.mp hj).resolve_right fun hj => ht ?_
    rw [List.mem_singleton.mp hj, hc] at hcj
    rw [← htask', ← htask, Option.some.inj hcj]
  have hwrote : ∀ taskId, taskId ≠ m.taskId → ∀ m₀ ∈ s.moves, m₀.taskId = taskId →
      ∃ m' ∈ (s.moves.eraseIdx k).map (PendingMove.wrote s.viewer.tasks tasks [m.taskId]),
        m'.taskId = taskId ∧ m'.generation = m₀.generation := by
    intro taskId ht m₀ hm₀ htask₀
    refine ⟨_, List.mem_map_of_mem (mem_eraseIdx_of_ne hk hm₀ (htask₀.trans_ne ht)), htask₀, rfl⟩
  refine ⟨hbase, hs.timers, hs.gets, hs.commits, fun j hj => ?_, fun m' hm' j hj => ?_, fun j hj => ?_,
    fun taskId => ?_, fun m' hm' hlatest hdisturbed => ?_⟩
  · rcases List.mem_append.mp hj with hj | hj
    · exact hs.confirmed j hj
    · rwa [List.mem_singleton.mp hj]
  · obtain ⟨m₀, hm₀, rfl⟩ := List.mem_map.mp hm'
    exact hs.answers m₀ (List.mem_of_mem_eraseIdx hm₀) j hj
  · rcases hs.answered j hj with hj | ⟨m₀, hm₀, hanswer₀⟩
    · exact .inl (List.mem_append_left _ hj)
    · rcases mem_or_mem_eraseIdx hk hm₀ with rfl | hm₀
      · rw [hanswer] at hanswer₀
        cases hanswer₀
        exact .inl (List.mem_append_right _ List.mem_cons_self)
      · exact .inr ⟨_, List.mem_map_of_mem hm₀, hanswer₀⟩
  · by_cases ht : taskId = m.taskId
    · have hrow : cardOf tasks taskId = (cardOf s.viewer.tasks taskId).map fun _ => updated := by
        rw [htasks, cardOf_setUpdated, if_pos (hid.trans ht.symm)]
      cases hshown : cardOf s.viewer.tasks taskId with
      | none =>
        refine .inl (hs.absent (hs.rows taskId) hshown ?_)
        rw [hrow, hshown, Option.map_none]
      | some task =>
        rw [hshown, Option.map_some] at hrow
        have hanswered := hok m hk
        rw [hanswer] at hanswered
        rcases hanswered updated hupdated with hover | hmending
        · refine .inl (.inl ⟨i + 1, hlt, hrow.trans (ht ▸ hupdated.symm), fun ho => hover ?_⟩)
          obtain ⟨j, c', hij, hj, hcj, hundo⟩ := ho
          rw [hrow, ht] at hundo
          refine ⟨j, c', hij, hj.imp_left fun hj => ?_, hcj, hundo⟩
          refine (List.mem_append.mp hj).resolve_right fun hj => ?_
          rw [List.mem_singleton.mp hj] at hij
          omega
        · refine .inr ⟨by simp [hrow], (ht ▸ hmending).of_moves fun m₀ hm₀ htask₀ => ?_⟩
          exact ⟨_, List.mem_map_of_mem hm₀, htask₀⟩
    · refine Right.of_tasks (hother taskId _ _ _ ht (hs.rows taskId) fun m₀ hm₀ htask₀ => ?_) ?_
      · obtain ⟨m', hm', htask', _⟩ := hwrote taskId ht m₀ hm₀ htask₀
        exact ⟨m', hm', htask'⟩
      · rw [htasks, cardOf_setUpdated, if_neg fun h => ht (h.symm.trans hid)]
  · obtain ⟨m₁, hm₁, rfl⟩ := List.mem_map.mp hm'
    simp only [PendingMove.wrote, Bool.or_eq_false_iff, decide_eq_false_iff_not] at hdisturbed
    have ht : m₁.taskId ≠ m.taskId := fun h => hdisturbed.2 (List.mem_singleton.mpr h)
    refine hother m₁.taskId _ _ _ ht
      (hs.restored m₁ (List.mem_of_mem_eraseIdx hm₁) hlatest hdisturbed.1.1) fun m₀ hm₀ htask₀ => ?_
    obtain ⟨hm₀, hgen⟩ := mem_others.mp hm₀
    obtain ⟨m', hm', htask', hgen'⟩ := hwrote m₁.taskId ht m₀ hm₀ htask₀
    exact ⟨m', mem_others.mpr ⟨hm', hgen'.trans_ne hgen⟩, htask'⟩

/-- A refused move logs nothing. -/
theorem Own.answered_erase (hs : Own me live s) (hk : s.moves[k]? = some m)
    (hanswer : m.answer = some .refused) {j : Nat} (hj : j < s.viewer.log.now) :
    j ∈ s.confirmed ∨ ∃ m' ∈ s.moves.eraseIdx k, m'.answer = some (.accepted j) := by
  refine (hs.answered j hj).imp_right fun h => ?_
  obtain ⟨m₀, hm₀, hanswer₀⟩ := h
  refine ⟨m₀, (mem_or_mem_eraseIdx hk hm₀).resolve_left fun heq => ?_, hanswer₀⟩
  rw [heq, hanswer] at hanswer₀
  cases hanswer₀

theorem own_rollback (hs : Own me live s) (hok : s.Ok live (.settle k)) (hk : s.moves[k]? = some m)
    (hanswer : m.answer = some .refused) (hlatest : m.generation = s.moveGeneration)
    (hbase : Base { s with
      viewer := { s.viewer with tasks := m.previousTasks }
      moves := s.moves.eraseIdx k }) :
    Own me live { s with
      viewer := { s.viewer with tasks := m.previousTasks }
      moves := s.moves.eraseIdx k } := by
  have hm := List.mem_of_getElem? hk
  have hundisturbed := hok m hk
  rw [hanswer] at hundisturbed
  have hdisturbed := hundisturbed hlatest
  obtain ⟨hrows, _⟩ := hs.base.undisturbed m hm hlatest hdisturbed
  refine ⟨hbase, hs.timers, hs.gets, hs.commits, hs.confirmed,
    fun m' hm' => hs.answers m' (List.mem_of_mem_eraseIdx hm'),
    fun j hj => hs.answered_erase hk hanswer hj, fun taskId => ?_, fun m' hm' hlatest' _ => ?_⟩
  · by_cases ht : taskId = m.taskId
    · subst ht
      refine (hs.restored m hm hlatest hdisturbed).of_moves fun m₀ hm₀ htask₀ => ⟨m₀, ?_, htask₀⟩
      obtain ⟨hm₀, hgen⟩ := mem_others.mp hm₀
      exact (mem_or_mem_eraseIdx hk hm₀).resolve_left fun heq => hgen (by rw [heq])
    · refine Right.of_tasks ((hs.rows taskId).of_moves fun m₀ hm₀ htask₀ => ⟨m₀, ?_, htask₀⟩)
        (hrows taskId ht).symm
      exact mem_eraseIdx_of_ne hk hm₀ (htask₀.trans_ne ht)
  · exact absurd (hlatest'.trans hlatest.symm) (key_ne_of_mem_eraseIdx hs.base.generations hk hm')

theorem own_reload (hs : Own me live s) (hk : s.moves[k]? = some m)
    (hanswer : m.answer = some .refused)
    (hbase : Base { s with
      viewer := { s.viewer with drains := s.viewer.drains ++ [⟨none, none, false⟩] }
      moves := s.moves.eraseIdx k }) :
    Own me live { s with
      viewer := { s.viewer with drains := s.viewer.drains ++ [⟨none, none, false⟩] }
      moves := s.moves.eraseIdx k } := by
  -- the reload puts every task right
  have hright : ∀ moves moves' tasks taskId, Right live s.Told s.viewer moves tasks taskId →
      Right live s.Told { s.viewer with drains := s.viewer.drains ++ [⟨none, none, false⟩] } moves' tasks
        taskId := by
    intro moves moves' tasks taskId h
    refine (h.startDrain ⟨none, none, false⟩).of_mending (.inr (.inl ⟨⟨none, none, false⟩, ?_, rfl⟩))
      Iff.rfl
    exact List.mem_append_right _ List.mem_cons_self
  exact ⟨hbase, hs.timers, hs.gets, hs.commits, hs.confirmed,
    fun m' hm' => hs.answers m' (List.mem_of_mem_eraseIdx hm'),
    fun j hj => hs.answered_erase hk hanswer hj, fun taskId => hright _ _ _ _ (hs.rows taskId),
    fun m' hm' hlatest hdisturbed =>
      hright _ _ _ _ (hs.restored m' (List.mem_of_mem_eraseIdx hm') hlatest hdisturbed)⟩

end Settle

/-- Every step keeps every task right. -/
theorem own_next {a : MoverAct} (hs : Own me live s) (hok : s.Ok live a) (halone : Alone a)
    (hn : next me live a s = some s') : Own me live s' := by
  cases a with
  | view a => exact own_view hs hok halone hn
  | commitTaskMove taskId columnId position nextTasks => exact own_commitTaskMove hs hn
  | accept k position respread => exact own_accept hs hok hn
  | refuse k => exact own_refuse hs hn
  | settle k =>
    have hbase := next_base hs.base hok hn
    obtain ⟨m, hk, ⟨i, tasks, hanswer, htasks, rfl⟩ | ⟨hanswer, hlatest, rfl⟩ | ⟨hanswer, _, rfl⟩⟩ :=
      next_settle hn
    · exact own_settle_accepted hs hok hk hanswer htasks hbase
    · exact own_rollback hs hok hk hanswer hlatest hbase
    · exact own_reload hs hk hanswer hbase

/-! ### Runs -/

theorem start_own {board : List Card} {v₀ : Viewer} (hnd : (board.map Card.id).Nodup)
    (hstart : Viewer.Start board v₀) : Own me live (start v₀) := by
  have hrows : ∀ taskId, Right live (start v₀).Told v₀ [] v₀.tasks taskId := fun taskId =>
    .inl ((hstart.inSync hnd taskId).mono fun i hi => hi.resolve_left List.not_mem_nil)
  have hbase := start_base (hstart.sound hnd)
  cases hstart with
  | loaded h => exact ⟨hbase, rfl, rfl, by simp [start], by simp [start], by simp [start],
      by simp [start, BoardLog.now], hrows, by simp [start]⟩
  | loading => exact ⟨hbase, rfl, rfl, by simp [start], by simp [start], by simp [start],
      by simp [start, BoardLog.now], hrows, by simp [start]⟩

/-- Once all is settled nothing is still to come. -/
theorem Own.card_of_settled (hs : Own me live s) (h : s.Settled live) (taskId : Id) :
    cardOf s.viewer.tasks taskId = s.viewer.log.card s.viewer.log.now taskId := by
  rcases hs.rows taskId with hsync | ⟨_, hmending⟩
  · rcases hsync with ⟨n, hn, hcard, hnot⟩ | ⟨_, (htimer | ⟨get, hget, _⟩) | ⟨d, hd, _⟩⟩
    · refine hcard.trans (card_of_not_undone hs.base.viewer.log hn le_rfl ?_).symm
      intro i c hni hi hc hundo
      refine hnot ⟨i, c, hni, .inl ?_, hc, hcard ▸ hundo⟩
      refine (hs.answered i hi).resolve_right fun hm => ?_
      obtain ⟨m, hm, _⟩ := hm
      rw [h.moves] at hm
      cases hm
    · rw [hs.timers] at htimer
      cases htimer
    · rw [hs.gets] at hget
      cases hget
    · rw [h.drains] at hd
      cases hd
  · rcases hmending with ⟨m, hm, _⟩ | ⟨d, hd, _⟩ | ⟨hlive, i, c, hi, hc, _⟩
    · rw [h.moves] at hm
      cases hm
    · rw [h.drains] at hd
      cases hd
    · have hlt : i < s.viewer.log.now := (List.getElem?_eq_some_iff.mp hc).1
      have hupTo := h.events hlive
      omega

/-- Where moves are rolled back only over the array their drag left, and no answer is applied that what
was told has overtaken, nothing is left of a refused move and nothing of an accepted one is lost. -/
theorem moves_leave_no_trace {board : List Card} {v₀ : Viewer} (hnd : (board.map Card.id).Nodup)
    (hstart : Viewer.Start board v₀) :
    (∀ s, Reach (next me live) (fun s a => s.Ok live a ∧ Alone a) (start v₀) s → s.Settled live →
      s.viewer.tasks.Perm (s.viewer.log.cards s.viewer.log.now)) ∧
    ∀ s, Reach (next me live) (Ok live) (start v₀) s →
      ∀ k m, s.Ok live (.settle k) → s.moves[k]? = some m → m.answer = some .refused →
        m.generation = s.moveGeneration → ∃ s', next me live (.settle k) s = some s' ∧
          ∀ taskId ∈ m.heard, cardOf s'.viewer.tasks taskId = cardOf s.viewer.tasks taskId := by
  refine ⟨fun s h hsettled => ?_, fun s h k m hok hk hrefused hlatest => ?_⟩
  · have hs := h.inv (I := Own me live) (start_own hnd hstart) fun s a s' hs ha hn =>
      own_next hs ha.1 ha.2 hn
    exact perm_of_cardOf hs.base.viewer.nodup (hs.base.viewer.log.cards_nodup _)
      (hs.card_of_settled hsettled)
  · have hs := h.inv (I := Base) (start_base (hstart.sound hnd)) fun s a s' hs ha hn =>
      next_base hs ha hn
    have hn : next me live (.settle k) s = some { s with
        viewer := { s.viewer with tasks := m.previousTasks }
        moves := s.moves.eraseIdx k } := by
      simp only [next, hk, hrefused, if_pos hlatest]
    exact ⟨_, hn, rollback_keeps hs hok hk hrefused hlatest⟩

section Tests

abbrev twoTasks : List Card := [⟨js "t", js "c", 1000⟩, ⟨js "u", js "c", 2000⟩]

abbrev shownBoard : Viewer := ⟨⟨twoTasks, []⟩, 0, twoTasks, [], [], []⟩

/-- An answer is applied with nothing told since, and a rollback over the array of its drag. -/
def inOrder (s : Mover) : MoverAct → Bool
  | .view (.commit _) => false
  | .view (.applyPage k) => match s.viewer.drains[k]? with
    | some ⟨_, some n, _⟩ => s.viewer.upTo ≤ n ∧ ∀ i ∈ s.confirmed, i < n
    | _ => true
  | .accept _ _ respread => respread = []
  | .settle k => match s.moves[k]? with
    | some ⟨_, _, _, _, some (.accepted i), _, _⟩ => s.viewer.upTo ≤ i + 1 ∧ ∀ j ∈ s.confirmed, j ≤ i
    | some ⟨generation, _, _, _, some .refused, disturbed, _⟩ =>
      generation = s.moveGeneration → disturbed = false
    | _ => true
  | _ => true

theorem inOrder_ok {s : Mover} {a : MoverAct} (h : inOrder s a = true) : s.Ok live a ∧ Alone a := by
  have hnot : ∀ n taskId known, (∀ i, s.Told i → i < n) →
      ¬ Overtaken s.Told s.viewer.log n taskId known := by
    intro n taskId known hlt ho
    obtain ⟨i, c, hni, hi, _⟩ := ho
    exact absurd (hlt i hi) (by omega)
  cases a with
  | view a =>
    cases a with
    | commit c => cases h
    | applyPage k =>
      refine ⟨fun d n hk hn item _ _ => .inl (hnot n _ _ fun i hi => ?_), trivial⟩
      obtain ⟨cursor, readAt, resync⟩ := d
      obtain rfl : readAt = some n := hn
      rw [inOrder, hk] at h
      obtain ⟨hupTo, hconfirmed⟩ := of_decide_eq_true h
      exact hi.elim (hconfirmed i) fun hi => hi.trans_le hupTo
    | _ => exact ⟨trivial, trivial⟩
  | accept k position respread =>
    have hrespread : respread = [] := of_decide_eq_true h
    exact ⟨hrespread, trivial⟩
  | settle k =>
    refine ⟨fun m hk => ?_, trivial⟩
    obtain ⟨generation, taskId, columnId, previousTasks, answer, disturbed, heard⟩ := m
    rw [inOrder, hk] at h
    cases answer with
    | none => trivial
    | some answer =>
      cases answer with
      | refused => exact of_decide_eq_true h
      | accepted i =>
        obtain ⟨hupTo, hconfirmed⟩ := of_decide_eq_true h
        refine fun updated _ => .inl (hnot _ _ _ fun j hj => ?_)
        exact hj.elim (fun hj => Nat.lt_succ_iff.mpr (hconfirmed j hj)) fun hj => hj.trans_le hupTo
  | _ => exact ⟨trivial, trivial⟩

/-- Two tasks are dragged, one after the other. The event of the first move comes in before the second is
refused. -/
def overlapping : List MoverAct :=
  [.commitTaskMove (js "t") (js "d") 1000 (place (js "t") (js "d") 1000 twoTasks),
    .commitTaskMove (js "u") (js "d") 2000
      (place (js "u") (js "d") 2000 (place (js "t") (js "d") 1000 twoTasks)),
    .accept 0 1000 [], .view .deliver, .settle 0, .refuse 0]

/-- Both are refused. The first has the board reloaded, and the second restores what it found. -/
def bothRefused : List MoverAct :=
  [.commitTaskMove (js "t") (js "d") 1000 (place (js "t") (js "d") 1000 twoTasks),
    .commitTaskMove (js "u") (js "d") 2000
      (place (js "u") (js "d") 2000 (place (js "t") (js "d") 1000 twoTasks)),
    .refuse 0, .settle 0, .view (.readPage 0), .view (.applyPage 0), .refuse 0, .settle 0]

end Tests

theorem moves_leave_no_trace_overlapping :
    let s := after (next (js "me") true) inOrder overlapping (start shownBoard)
    let s' := after (next (js "me") true) inOrder (overlapping ++ [.settle 0]) (start shownBoard)
    s'.viewer.tasks = [⟨js "t", js "d", 1000⟩, ⟨js "u", js "c", 2000⟩] ∧
      s'.viewer.tasks.Perm (s'.viewer.log.cards s'.viewer.log.now) ∧
      ∃ m, s.moves[0]? = some m ∧ m.heard = [js "t"] ∧
        ∃ s'', next (js "me") true (.settle 0) s = some s'' ∧
          ∀ taskId ∈ m.heard, cardOf s''.viewer.tasks taskId = cardOf s.viewer.tasks taskId := by
  have hnd : (twoTasks.map Card.id).Nodup := by decide
  have hstart : Viewer.Start twoTasks shownBoard := .loaded (List.Perm.refl _)
  have htrace := @moves_leave_no_trace (js "me") true _ _ hnd hstart
  refine ⟨by decide +kernel, htrace.1 _ (reach_after (fun _ _ h => inOrder_ok h) (by decide +kernel))
    ⟨by decide +kernel, by decide +kernel, fun _ => by decide +kernel⟩, ?_⟩
  refine ⟨⟨2, js "u", js "d", place (js "t") (js "d") 1000 twoTasks, some .refused, false, [js "t"]⟩,
    by decide +kernel, rfl, ?_⟩
  exact htrace.2 _ (reach_after (fun _ _ h => (inOrder_ok h).1) (by decide +kernel)) 0 _
    (inOrder_ok (by decide +kernel)).1 (by decide +kernel) rfl (by decide +kernel)

/-- The first move was refused, and is on show when all is settled. -/
theorem refused_move_shown :
    let s := after (next (js "me") true) (fun _ a => Alone a) bothRefused (start shownBoard)
    Reach (next (js "me") true) (fun _ a => Alone a) (start shownBoard) s ∧ s.Settled true ∧
      s.viewer.tasks = [⟨js "t", js "d", 1000⟩, ⟨js "u", js "c", 2000⟩] ∧
      s.viewer.log.cards s.viewer.log.now = twoTasks := by
  refine ⟨reach_after (fun _ _ h => of_decide_eq_true h) (by decide +kernel), ?_, by decide +kernel,
    by decide +kernel⟩
  exact ⟨by decide +kernel, by decide +kernel, fun _ => by decide +kernel⟩

end Own

end Mover
end Web
end Kurul
