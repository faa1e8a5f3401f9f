import Kurul.Web.BoardSync
import Kurul.Web.InSync

/-!
# Kurul.Web.Mover

A viewer who drags tasks: `commitTaskMove` shows a move before the server has answered, and takes it
back when the server refuses. The last move of all restores the array it was dragged over; an older one
has the board drained.

* `applyMove_places` — a drag offers the array it found, with the one task elsewhere.
-/

namespace Kurul
namespace Web

/-- How the server answered a `PATCH`: by the commit it made of it, or not. -/
inductive MoveAnswer where
  | accepted (commit : Nat)
  | refused
  deriving DecidableEq

/-- A `commitTaskMove` whose answer has not been applied yet. -/
structure PendingMove where
  generation : Nat
  taskId : Id
  columnId : Id
  previousTasks : List Card
  answer : Option MoveAnswer
  /-- Since the drag a row has changed, its own task was written, or a page has been applied. -/
  disturbed : Bool
  /-- The tasks that events, and the fetches they asked for, have written since the drag. -/
  heard : List Id
  deriving DecidableEq

structure Mover where
  viewer : Viewer
  /-- `moveGenerationRef`. -/
  moveGeneration : Nat
  moves : List PendingMove
  /-- The commits whose answers have been applied. -/
  confirmed : List Nat

inductive MoverAct where
  | view (a : ViewAct)
  /-- A drag, or a retry of one. -/
  | commitTaskMove (taskId columnId : Id) (position : Position) (nextTasks : List Card)
  | accept (move : Nat) (position : Position) (respread : List (Id × Position))
  | refuse (move : Nat)
  /-- The answer arrives. -/
  | settle (move : Nat)
  deriving DecidableEq

/-- Some row is not what it was. -/
def differ (before after : List Card) : Bool :=
  (before ++ after).any fun card => cardOf before card.id ≠ cardOf after card.id

theorem cardOf_of_not_differ {before after : List Card} (h : differ before after = false)
    (taskId : Id) : cardOf after taskId = cardOf before taskId := by
  simp only [differ, List.any_eq_false, decide_eq_true_eq, not_not] at h
  cases hb : cardOf before taskId with
  | some card =>
    have hmem := h card (List.mem_append_left _ (mem_of_cardOf hb))
    rwa [id_of_cardOf hb, hb, eq_comm] at hmem
  | none =>
    cases ha : cardOf after taskId with
    | none => rfl
    | some card =>
      have hmem := h card (List.mem_append_right _ (mem_of_cardOf ha))
      rw [id_of_cardOf ha, hb, ha] at hmem
      cases hmem

/-- The task that an event or a fetch puts in place. -/
def Viewer.writes (v : Viewer) : ViewAct → List Id
  | .deliver => match v.log.commits[v.upTo]? with
    | some ⟨.moved taskId _ _ _, _⟩ => [taskId]
    | some ⟨.deleted taskId, _⟩ => [taskId]
    | _ => []
  | .applyTask k => match v.gets[k]? with
    | some ⟨taskId, some _⟩ => [taskId]
    | _ => []
  | _ => []

namespace PendingMove

/-- The array has been written: these tasks, and nothing but what is the same as before. -/
def wrote (before after : List Card) (written : List Id) (m : PendingMove) : PendingMove :=
  { m with disturbed := m.disturbed || differ before after || decide (m.taskId ∈ written) }

/-- The viewer has moved on. -/
def saw (v v' : Viewer) (a : ViewAct) (m : PendingMove) : PendingMove :=
  let m := m.wrote v.tasks v'.tasks (v.writes a)
  { m with
    disturbed := m.disturbed || a matches .applyPage _
    heard := m.heard ++ v.writes a }

end PendingMove

namespace Mover

def start (v : Viewer) : Mover := ⟨v, 0, [], []⟩

/-- The answer to an accepted move, in place of the task it names. -/
def setUpdated (tasks : List Card) : Option Card → List Card
  | none => tasks
  | some updated => tasks.map fun task => if task.id = updated.id then updated else task

section Next

-- the client's user, and whether its socket is in the room of the board
variable (me : Id) (live : Bool)

def next : MoverAct → Mover → Option Mover
  | .view a, s =>
    if a = .deliver ∧ ¬ live then none
    else (s.viewer.next (some me) a).map fun v =>
      { s with viewer := v, moves := s.moves.map (PendingMove.saw s.viewer v a) }
  | .commitTaskMove taskId columnId position nextTasks, s =>
    if nextTasks.Perm (place taskId columnId position s.viewer.tasks) then
      let generation := s.moveGeneration + 1
      some { s with
        viewer := { s.viewer with tasks := nextTasks }
        moveGeneration := generation
        moves := s.moves ++ [⟨generation, taskId, columnId, s.viewer.tasks, none, false, []⟩] }
    else none
  | .accept k position respread, s =>
    match s.moves[k]? with
    | none => none
    | some m =>
      if m.answer ≠ none then none
      else (s.viewer.next (some me)
          (.commit ⟨.moved m.taskId m.columnId position respread, me⟩)).map fun v =>
        { s with
          viewer := v
          moves := s.moves.set k { m with answer := some (.accepted s.viewer.log.now) } }
  | .refuse k, s =>
    match s.moves[k]? with
    | none => none
    | some m =>
      if m.answer ≠ none then none
      else some { s with moves := s.moves.set k { m with answer := some .refused } }
  | .settle k, s =>
    match s.moves[k]? with
    | none => none
    | some m =>
      match m.answer with
      | none => none
      | some (.accepted i) =>
        let tasks := setUpdated s.viewer.tasks (s.viewer.log.card (i + 1) m.taskId)
        some { s with
          viewer := { s.viewer with tasks }
          moves := (s.moves.eraseIdx k).map (PendingMove.wrote s.viewer.tasks tasks [m.taskId])
          confirmed := s.confirmed ++ [i] }
      | some .refused =>
        if m.generation = s.moveGeneration then
          some { s with
            viewer := { s.viewer with tasks := m.previousTasks }
            moves := s.moves.eraseIdx k }
        else
          -- `reload`
          some { s with
            viewer := { s.viewer with drains := s.viewer.drains ++ [⟨none, none, false⟩] }
            moves := s.moves.eraseIdx k }

/-- Every move is answered, every reload through, and, where the socket is in the room, every event
delivered. -/
structure Settled (s : Mover) : Prop where
  moves : s.moves = []
  drains : s.viewer.drains = []
  events : live = true → s.viewer.upTo = s.viewer.log.now

end Next
end Mover

/-! ## What a drag offers -/

def TaskDto.toCard (task : TaskDto) : Card := ⟨task.id, task.columnId, task.position⟩

/-- A drag offers the array it found, with the one task elsewhere. -/
theorem applyMove_places {tasks : List TaskDto} {taskId columnId : Id} {overTaskId : Option Id}
    {applied : AppliedMove} (hnd : (tasks.map TaskDto.id).Nodup)
    (h : applyMove tasks taskId columnId overTaskId = some applied) :
    ∃ position, (applied.nextTasks.map TaskDto.toCard).Perm
      (place taskId columnId position (tasks.map TaskDto.toCard)) := by
  obtain ⟨moving, hmem, position, rfl, hperm⟩ := nextTasks_perm h
  refine ⟨position, (hperm.map TaskDto.toCard).trans ?_⟩
  have hsplit : tasks.Perm (moving :: tasks.filter fun task => task.id ≠ moving.id) := by
    have hone : tasks.filter (fun task => task.id = moving.id) = [moving] := by
      refine List.perm_singleton.mp ((List.perm_ext_iff_of_nodup
        ((List.Nodup.of_map _ hnd).filter _) (List.nodup_singleton _)).mpr fun task => ?_)
      rw [List.mem_filter, List.mem_singleton, decide_eq_true_eq]
      exact ⟨fun ht => List.inj_on_of_nodup_map hnd ht.1 hmem ht.2, by rintro rfl; exact ⟨hmem, rfl⟩⟩
    have hall := List.filter_append_perm (fun task : TaskDto => decide (task.id = moving.id)) tasks
    rw [hone] at hall
    simpa using hall.symm
  refine List.Perm.trans ?_ ((hsplit.map TaskDto.toCard).map _).symm
  rw [List.map_cons, List.map_cons, List.map_cons]
  refine List.Perm.of_eq ?_
  congr 1
  · simp [TaskDto.toCard]
  · rw [List.map_map]
    refine List.map_congr_left fun task htask => ?_
    have hne := of_decide_eq_true (List.mem_filter.mp htask).2
    rw [Function.comp_apply, if_neg]
    exact hne

end Web
end Kurul
