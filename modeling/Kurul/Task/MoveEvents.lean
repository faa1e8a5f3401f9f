import Kurul.Sql.Announce
import Kurul.Sql.Schedule
import Kurul.Web.BoardSync

/-!
# Kurul.Task.MoveEvents

Any number of moves of one task, each of which commits under its column's lock and emits after the
lock is gone.

* `moveBody_tells`  — what a move emits is where its transaction left the task.
* `last_move_wins`  — while no move emits what is outdated with nothing newer to come, the last event
  and everyone who applied the events in order have what is stored.
-/

namespace Kurul

open Sql

/-- Where a task is. -/
structure Spot where
  boardId : Id
  columnId : Id
  position : Position
  deriving DecidableEq

def TaskRow.spot (t : TaskRow) : Spot := ⟨t.boardId, t.columnId, t.position⟩

def storedSpot (taskId : Id) (db : Db) : Option Spot :=
  match db.get? ⟨.task, taskId⟩ with
  | some (.task t) => some t.spot
  | _ => none

/-- Where an event says the task is. -/
def toldSpot (taskId : Id) : Event → Option Spot
  | .toBoard boardId _ _ (.taskMoved movedId columnId position) =>
    if movedId = taskId then some ⟨boardId, columnId, position⟩ else none
  | _ => none

/-- It is on this board. -/
def OnBoard (boardId : Id) (spot : Option Spot) : Prop := ∃ s, spot = some s ∧ s.boardId = boardId

theorem storedSpot_of_mem {db : Db} {t : TaskRow} (ht : t ∈ rows TaskRow db) :
    storedSpot t.id db = some t.spot := by
  have hget : db.get? ⟨.task, t.id⟩ = some (.task t) := get?_row ht
  rw [storedSpot, hget]

theorem OnBoard.of_mem {taskId boardId : Id} {db : Db} {t : TaskRow}
    (h : OnBoard boardId (storedSpot taskId db)) (ht : t ∈ rows TaskRow db) (hid : t.id = taskId) :
    t.boardId = boardId := by
  obtain ⟨s, hs, hboard⟩ := h
  rw [← hid, storedSpot_of_mem ht] at hs
  rw [← hboard, ← Option.some.inj hs]
  rfl

namespace TaskService

/-- Whatever the others commit, the transaction sees the task as it has written it. -/
def Written (x : TaskRow) (own : Local kurul) : Prop :=
  ∀ db, (own.view db).get? ⟨.task, x.id⟩ = some (.task x)

section Bodies

variable {taskId boardId : Id} {own : Local kurul} {x : TaskRow} {db : Db}

theorem Written.add {β : Type} {e : Effect kurul β} (h : Written x own)
    (hkeys : (⟨.task, x.id⟩ : Key) ∉ e.writes.map Write.key) : Written x (own.add e) := by
  intro db
  rw [Local.view_add, Store.get?_applyAll_of_not_mem hkeys]
  exact h db

theorem written_put {β : Type} {b : β} {locks : List (Lock Key)} :
    Written x (own.add ⟨b, [.put (Model.row x)], locks⟩) := by
  intro db
  rw [Local.view_add]
  exact (Store.get?_put ..).trans (if_pos rfl)

theorem Written.storedSpot (h : Written x own) (db : Db) :
    storedSpot x.id (own.view db) = some x.spot := by
  rw [Kurul.storedSpot, h db]

/-- The move's own row is not among those it respreads. -/
theorem Written.respread {l : List Sibling} {positions : List Position} {e : Effect kurul Nat}
    (h : Written x own)
    (he : ∀ w ∈ e.writes, ∃ u ∈ moveUpdates l x.id positions, w.key = ⟨.task, u.id⟩) :
    Written x (own.add e) := by
  refine h.add fun hmem => ?_
  obtain ⟨w, hw, hkey⟩ := List.mem_map.mp hmem
  obtain ⟨u, hu, hukey⟩ := he w hw
  obtain ⟨p, hp, rfl⟩ := List.mem_map.mp hu
  rw [hkey] at hukey
  exact of_decide_eq_true (List.mem_filter.mp hp).2 (Key.mk.inj hukey).2.symm

/-- The answer is the row as written. -/
def Answers (taskId boardId : Id) (result : TaskDto) (own : Local kurul) (_ : Db) : Prop :=
  ∃ x, Written x own ∧ x.id = taskId ∧ x.boardId = boardId ∧ result.id = taskId ∧
    (⟨result.boardId, result.columnId, result.position⟩ : Spot) = x.spot

abbrev moving (taskId boardId : Id) : Protocol kurul Unit :=
  Sql.keeping (Kurul.storedSpot taskId) (OnBoard boardId)

theorem writeMove_answers {workspaceId columnId : Id} {position : Position}
    {Q : TaskRow → Local kurul → Db → Prop} (hdelta : own.delta = [])
    (hQ : ∀ x own db, Written x own → x.id = taskId → x.boardId = boardId →
      x.columnId = columnId → x.position = position → Q x own db) :
    (writeMove workspaceId taskId columnId position).Safe (moving taskId boardId) () Q own db := by
  intro now
  refine Safe_update fun db' hl r hr _ => ?_
  rw [Local.view_of_nil hdelta] at hr
  have hid : r.id = taskId := (byId_eq_some.mp (of_taskScope hr)).2
  have hboard : r.boardId = boardId := hl.2.of_mem (List.mem_of_find?_eq_some hr) hid
  exact hQ _ _ _ written_put hid hboard rfl rfl

theorem place_answers {workspaceId columnId : Id} {task : TaskDetailRow}
    (hid : task.task.id = taskId) (hboard : task.task.boardId = boardId) (hdelta : own.delta = [])
    {remaining : List Sibling} {slot : InsertionSlot Sibling} {n : Nat} :
    (place workspaceId taskId task columnId remaining slot n).Safe (moving taskId boardId) ()
      (Answers taskId boardId) own db := by
  simp only [place]
  split
  · simp only [Tx.Safe_bind]
    refine writeMove_answers hdelta fun x own db hx hxid hxboard hcolumn hposition => ?_
    refine batchUpdatePositions_safe (J := fun own _ => Written x own) (fun _ _ _ _ h => h)
      (fun own db e he h => ?_) (fun own db h => ?_) hx
    · rw [← hxid] at he
      exact h.respread he
    · intro now
      refine ⟨x, h, hxid, hxboard, hid, ?_⟩
      rw [TaskRow.spot, hxboard, hcolumn, hposition, ← hboard]
      rfl
  · simp only [Tx.Safe_bind]
    refine writeMove_answers hdelta fun x own db hx hxid hxboard _ _ => ?_
    refine Safe_query fun db' _ => ?_
    exact ⟨x, hx, hxid, hxboard, hxid, rfl⟩

/-- What a move answers, and so what it emits, is where its transaction leaves the task. -/
theorem moveBody_answers {workspaceId userId : Id} {dto : MoveTaskDto} :
    (moveBody workspaceId taskId userId dto).Safe (moving taskId boardId) ()
      (Answers taskId boardId) .empty db := by
  simp only [moveBody, Tx.Safe_bind]
  refine Safe_query fun db₁ hl₁ => Safe_orThrow fun task htask => Safe_throwIf fun _ => ?_
  obtain ⟨t, ht, rfl⟩ := Option.map_eq_some_iff.mp htask
  have hid : t.id = taskId := (byId_eq_some.mp (of_taskScope ht)).2
  have hboard : t.boardId = boardId := hl₁.2.of_mem (List.mem_of_find?_eq_some ht) hid
  refine Safe_query fun db₂ _ => Safe_orThrow fun column _ => Safe_throwIf fun _ => ?_
  have hfrom : ∀ {Q : Option ColumnRow → Local kurul → Db → Prop}, (∀ x db₃, Q x .empty db₃) →
      (fromColumn (taskDetailInclude db₁ t).task column).Safe (moving taskId boardId) () Q .empty
        db₂ := by
    intro Q hQ
    simp only [fromColumn]
    split
    · exact hQ _ _
    · exact Safe_query fun db₃ _ => hQ _ _
  refine hfrom fun x db₃ => Safe_lockRow fun db₄ _ own₄ hdelta _ _ => ?_
  refine Safe_query fun db₅ _ => Safe_ofExcept fun slot _ => Safe_query fun db₆ _ => ?_
  refine Tx.Safe.mono (fun result own db h => ?_) (place_answers hid hboard hdelta)
  obtain ⟨x, hx, hxid, hrest⟩ := h
  refine record_safe fun v db₇ _ _ => ⟨x, hx.add ?_, hxid, hrest⟩
  simp [Row.key]

end Bodies

/-- A call of `move` for a task. -/
structure MoveCall where
  workspaceId : Id
  userId : Id
  dto : MoveTaskDto

def MoveCall.call (taskId : Id) (c : MoveCall) : Call kurul Unit := do
  let _ ← move c.workspaceId taskId c.userId c.dto

theorem honest_move {taskId boardId : Id} (c : MoveCall) :
    (Session.call (c.call taskId)).Honest (toldSpot taskId) (storedSpot taskId)
      (OnBoard boardId) := by
  refine ⟨fun db => ?_, fun x => trivial⟩
  refine Tx.Safe.mono (fun result own db h => ?_) moveBody_answers
  obtain ⟨x, hx, rfl, hboard, hid, hspot⟩ := h
  have htold : toldSpot x.id (.toBoard result.boardId c.workspaceId c.userId
      (.taskMoved result.id result.columnId result.position)) = some x.spot := by
    rw [toldSpot, if_pos hid, hspot]
  refine ⟨_, _, rfl, trivial, ?_, fun db => ?_⟩
  · rw [htold]
    exact ⟨_, rfl, hboard⟩
  · rw [htold]
    exact hx.storedSpot db

/-! ## Who hears of it -/

open Web

/-- The client shows the task, if it holds it, in this place. -/
def Shows (taskId : Id) (spot : Option Spot) (tasks : List TaskDto) : Prop :=
  ∀ v ∈ tasks, v.id = taskId → ∃ s, spot = some s ∧ v.columnId = s.columnId ∧
    v.position = s.position

theorem shows_onBoardEvent {taskId boardId : Id} {e : Event} (he : OnBoard boardId (toldSpot taskId e))
    (tasks : List TaskDto) : Shows taskId (toldSpot taskId e) (onBoardEvent boardId tasks e) := by
  obtain ⟨s, hs, hboard⟩ := he
  intro v hv hid
  refine ⟨s, hs, ?_⟩
  cases e with
  | toBoard room workspaceId userId event =>
    cases event with
    | taskMoved movedId columnId position =>
      simp only [toldSpot] at hs
      split at hs
      · rename_i hmoved
        cases hs
        simp only [onBoardEvent, onTaskMoved] at hv
        rw [if_pos hboard] at hv
        obtain ⟨u, _, rfl⟩ := List.mem_map.mp hv
        split at hid
        · rename_i hu
          rw [if_pos hu]
          exact ⟨rfl, rfl⟩
        · rename_i hu
          exact absurd (hid.trans hmoved.symm) hu
      · cases hs
    | _ => cases hs
  | _ => cases hs

/-- Whoever applies the events in order shows what the last of them said. -/
theorem shows_heard {taskId boardId : Id} {atFirst : Option Spot} {tasks : List TaskDto}
    (hfirst : Shows taskId atFirst tasks) (log : List Event)
    (hlog : ∀ e ∈ log, OnBoard boardId (toldSpot taskId e)) :
    Shows taskId (heard (S := kurul) (toldSpot taskId) atFirst log)
      (log.foldl (onBoardEvent boardId) tasks) := by
  induction log using List.reverseRecOn with
  | nil => exact hfirst
  | append_singleton log e _ =>
    rw [heard_append, List.foldl_append]
    exact shows_onBoardEvent (hlog e (by simp)) _

/-- The last event wins while events are in order: once no move is between its commit and its event,
the last event has what is stored, and so has every client that applied the events one after the
other. The first event out of order breaks it. -/
theorem last_move_wins {ι : Type} [DecidableEq ι] {taskId boardId : Id} {db : Db}
    (hstored : OnBoard boardId (storedSpot taskId db)) (calls : ι → MoveCall)
    {σ : Config kurul ι} {log : List Event}
    (h : Trace (InOrder (toldSpot taskId) (storedSpot taskId))
      (Config.start db fun i => (calls i).call taskId) σ log) :
    ((∀ i, (σ.pool i).announces = none) →
      (∀ e, log.getLast? = some e → toldSpot taskId e = storedSpot taskId σ.db) ∧
      ∀ tasks, Shows taskId (storedSpot taskId db) tasks →
        Shows taskId (storedSpot taskId σ.db) (log.foldl (onBoardEvent boardId) tasks)) ∧
    ∀ i a σ', σ.Step i a σ' →
      (Settled (toldSpot taskId) (storedSpot taskId) (storedSpot taskId db) σ' (log ++ a.published) ↔
        InOrder (toldSpot taskId) (storedSpot taskId) σ i a) := by
  have hstart : (Config.start db fun i => (calls i).call taskId).Honest (toldSpot taskId)
      (storedSpot taskId) (OnBoard boardId) [] :=
    ⟨hstored, fun i => honest_move (calls i), fun e he => by cases he⟩
  obtain ⟨hhonest, hsettled⟩ := h.settled hstart
  refine ⟨fun hdone => ?_, fun i a σ' hs => (hhonest.step hsettled hs).2⟩
  have hheard : heard (S := kurul) (toldSpot taskId) (storedSpot taskId db) log =
      storedSpot taskId σ.db := by
    refine hsettled.resolve_left fun hcoming => ?_
    obtain ⟨j, e, hj, _⟩ := hcoming
    rw [hdone j] at hj
    cases hj
  refine ⟨fun e he => ?_, fun tasks hfirst => ?_⟩
  · rw [← hheard, heard, he]
    rfl
  · rw [← hheard]
    exact shows_heard hfirst log hhonest.heard

/-- A task and three columns for it. -/
def threeColumns : Db where
  rows := [
    .user ⟨js "u", js "u@x", js "U", true, none, none, none⟩,
    .workspace ⟨js "w", js "W", js "w"⟩,
    .board ⟨js "b", js "w", js "B", none, 0⟩,
    .column ⟨js "c", js "b", js "C", 1000, none, .unstarted⟩,
    .column ⟨js "d", js "b", js "D", 2000, none, .started⟩,
    .column ⟨js "e", js "b", js "E", 3000, none, .started⟩,
    .task ⟨js "t", js "b", js "c", js "T", none, .medium, 5, none, none, js "u", 0, 0⟩]
  nodup := by decide +kernel

/-- Two people move it, each into another column. -/
def twoMoves : Fin 2 → MoveCall
  | 0 => ⟨js "w", js "u", ⟨js "d", none, none⟩⟩
  | 1 => ⟨js "w", js "u", ⟨js "e", none, none⟩⟩

/-- What is emitted is what is stored, or another session still has that to emit. -/
def emitsInOrder (σ : Config kurul (Fin 2)) (i : Fin 2) : Act kurul → Bool
  | .publish e => decide (toldSpot (js "t") e = storedSpot (js "t") σ.db ∨
      ∃ j, j ≠ i ∧ ((σ.pool j).announces.any fun e' =>
        toldSpot (js "t") e' = storedSpot (js "t") σ.db) = true)
  | _ => true

theorem inOrder_of_emitsInOrder (σ : Config kurul (Fin 2)) (i : Fin 2) (a : Act kurul)
    (h : emitsInOrder σ i a = true) : InOrder (toldSpot (js "t")) (storedSpot (js "t")) σ i a := by
  cases a with
  | publish e =>
    refine (of_decide_eq_true h).imp id fun hother => ?_
    obtain ⟨j, hj, hany⟩ := hother
    obtain ⟨e', he', htold⟩ := (Option.any_eq_true _ _).mp hany
    exact ⟨j, e', hj, he', of_decide_eq_true htold⟩
  | _ => trivial

/-- Both commit before either emits; they emit in the order of their commits. -/
theorem last_move_wins_overlapping : ∃ (σ : Config kurul (Fin 2)) (log : List Event),
    Trace (InOrder (toldSpot (js "t")) (storedSpot (js "t")))
      (Config.start threeColumns fun i => (twoMoves i).call (js "t")) σ log ∧ log.length = 2 ∧
      ∀ e, log.getLast? = some e → toldSpot (js "t") e = storedSpot (js "t") σ.db := by
  have hgoes : ((Config.start (S := kurul) threeColumns fun i => (twoMoves i).call (js "t")).traced
      (0 : Instant) emitsInOrder (List.replicate 14 (0, js "a") ++ List.replicate 14 (1, js "n") ++
        [(0, js "a"), (1, js "n")]) []).any (fun r => r.2.length = 2 ∧
          ∀ i, (r.1.pool i).announces = none) = true := by
    decide +kernel
  obtain ⟨⟨σ, log⟩, hσ, hend⟩ := (Option.any_eq_true _ _).mp hgoes
  obtain ⟨hlength, hdone⟩ := of_decide_eq_true hend
  have hrun := trace_traced inOrder_of_emitsInOrder .refl hσ
  have hstored : OnBoard (js "b") (storedSpot (js "t") threeColumns) :=
    ⟨⟨js "b", js "c", 5⟩, by decide +kernel, rfl⟩
  exact ⟨σ, log, hrun, hlength, ((last_move_wins hstored twoMoves hrun).1 hdone).1⟩

/-- Both commit before either emits, and the first to commit emits last. -/
theorem first_move_heard_last :
    ¬ ∀ (calls : Fin 2 → MoveCall) (db : Db) (σ : Config kurul (Fin 2)) (log : List Event),
      Trace (fun _ _ _ => True) (Config.start db fun i => (calls i).call (js "t")) σ log →
      (∀ i, σ.returned i = true) → ∀ e, log.getLast? = some e →
        toldSpot (js "t") e = storedSpot (js "t") σ.db := by
  intro h
  have hgoes : ((Config.start (S := kurul) threeColumns fun i => (twoMoves i).call (js "t")).traced
      (0 : Instant) (fun _ _ _ => true) (List.replicate 14 (0, js "a") ++
        List.replicate 15 (1, js "n") ++ [(0, js "a")]) []).any (fun r =>
          (∀ i, r.1.returned i = true) ∧ (r.2.getLast?.map (toldSpot (js "t"))).isSome ∧
          r.2.getLast?.map (toldSpot (js "t")) ≠ some (storedSpot (js "t") r.1.db)) = true := by
    decide +kernel
  obtain ⟨⟨σ, log⟩, hσ, hend⟩ := (Option.any_eq_true _ _).mp hgoes
  obtain ⟨hdone, hsome, hne⟩ := of_decide_eq_true hend
  have hrun : Trace (fun _ _ _ => True) _ σ log :=
    trace_traced (fun _ _ _ _ => trivial) .refl hσ
  obtain ⟨_, he⟩ := Option.isSome_iff_exists.mp hsome
  obtain ⟨e, he, _⟩ := Option.map_eq_some_iff.mp he
  refine hne ?_
  rw [he, Option.map_some, h twoMoves threeColumns σ log hrun hdone e he]

end TaskService
end Kurul
