import Kurul.Web.Mover

/-!
# Kurul.Web.MoverInv

What every step keeps of a client's moves in flight.

* `next_base`      — the rows that the last drag left alone stay as it found them, until the array is
  disturbed.
* `rollback_keeps` — a rollback leaves what events have written since the drag.
-/

namespace Kurul
namespace Web

open Lts

namespace Mover

/-- The commits that the client has been told of: by an answer, or by an event. -/
def Told (s : Mover) (i : Nat) : Prop := i ∈ s.confirmed ∨ i < s.viewer.upTo

/-- Something still to come puts the task right: the answer to a move of it, a reload, or an event. -/
def Mending (live : Bool) (v : Viewer) (moves : List PendingMove) (taskId : Id) : Prop :=
  (∃ m ∈ moves, m.taskId = taskId) ∨ (∃ d ∈ v.drains, d.cursor = none) ∨
    (live = true ∧ ∃ i c, v.upTo ≤ i ∧ v.log.commits[i]? = some c ∧ c.change.taskId = taskId)

/-- No answer is applied that what was told has overtaken, unless something still to come puts the task
right; no accepted move respreads its column; and a move is rolled back only over the array that its drag
left. -/
def Ok (live : Bool) (s : Mover) : MoverAct → Prop
  | .view (.applyPage k) => ∀ d n, s.viewer.drains[k]? = some d → d.readAt = some n →
      ∀ item ∈ (Viewer.page s.viewer.log d n).items,
        d.cursor = none ∨ cardOf s.viewer.tasks item.id = none →
          ¬ Overtaken s.Told s.viewer.log n item.id (some item) ∨
            Mending live { s.viewer with drains := s.viewer.drains.eraseIdx k } s.moves item.id
  | .view a => a.Plain
  | .accept _ _ respread => respread = []
  | .settle k => ∀ m, s.moves[k]? = some m → match m.answer with
      | some (.accepted i) => ∀ updated, s.viewer.log.card (i + 1) m.taskId = some updated →
          ¬ Overtaken s.Told s.viewer.log (i + 1) m.taskId (some updated) ∨
            Mending live s.viewer (s.moves.eraseIdx k) m.taskId
      | some .refused => m.generation = s.moveGeneration → m.disturbed = false
      | none => True
  | _ => True

/-- What holds of the moves in flight whatever else happens. -/
structure Base (s : Mover) : Prop where
  viewer : s.viewer.Sound
  generations : (s.moves.map PendingMove.generation).Nodup
  latest : ∀ m ∈ s.moves, m.generation ≤ s.moveGeneration
  previous : ∀ m ∈ s.moves, (m.previousTasks.map Card.id).Nodup
  /-- The array is as the last drag left it, but for the task that was dragged. -/
  undisturbed : ∀ m ∈ s.moves, m.generation = s.moveGeneration → m.disturbed = false →
    (∀ taskId, taskId ≠ m.taskId →
      cardOf s.viewer.tasks taskId = cardOf m.previousTasks taskId) ∧ m.taskId ∉ m.heard

section Lists

variable {α β : Type} {l : List α} {k : Nat} {x y : α}

theorem map_set_of_eq {f : α → β} (hk : l[k]? = some x) (hf : f y = f x) :
    (l.set k y).map f = l.map f := by
  refine List.ext_getElem? fun i => ?_
  rw [List.getElem?_map, List.getElem?_map, List.getElem?_set]
  split
  · rename_i hki
    subst hki
    obtain ⟨hlt, hx⟩ := List.getElem?_eq_some_iff.mp hk
    simp [hlt, hx, hf]
  · rfl

/-- Where keys differ, what is taken out is gone. -/
theorem key_ne_of_mem_eraseIdx {f : α → β} (hnd : (l.map f).Nodup) (hk : l[k]? = some x)
    (hy : y ∈ l.eraseIdx k) : f y ≠ f x := by
  obtain ⟨j, hjk, hj⟩ := List.mem_eraseIdx_iff_getElem?.mp hy
  intro heq
  have hkey : (l.map f)[j]? = (l.map f)[k]? := by
    rw [List.getElem?_map, List.getElem?_map, hj, hk, Option.map_some, Option.map_some, heq]
  have hlt : j < (l.map f).length := by
    rw [List.length_map]
    exact (List.getElem?_eq_some_iff.mp hj).1
  exact hjk ((List.getElem?_inj hlt hnd).mp hkey)

end Lists

section Base

variable {me : Id} {live : Bool} {s s' : Mover} {v v₀ : Viewer}

theorem start_base (hv : v₀.Sound) : (start v₀).Base :=
  ⟨hv, by simp [start], by simp [start], by simp [start], by simp [start]⟩

/-- A step that leaves the moves in flight, but for what was written since their drags. -/
theorem Base.step {moves : List PendingMove} (hs : s.Base) (hv : v.Sound) (confirmed : List Nat)
    (hgenerations : (moves.map PendingMove.generation).Nodup)
    (hmoves : ∀ m' ∈ moves, ∃ m ∈ s.moves, m'.generation = m.generation ∧ m'.taskId = m.taskId ∧
      m'.previousTasks = m.previousTasks ∧
      (m'.generation = s.moveGeneration → m'.disturbed = false → m.disturbed = false ∧
        (∀ taskId, cardOf v.tasks taskId = cardOf s.viewer.tasks taskId) ∧
        (m.taskId ∉ m.heard → m.taskId ∉ m'.heard))) :
    Base { s with viewer := v, moves, confirmed } where
  viewer := hv
  generations := hgenerations
  latest := by
    intro m' hm'
    obtain ⟨m, hm, hgen, _⟩ := hmoves m' hm'
    exact hgen ▸ hs.latest m hm
  previous := by
    intro m' hm'
    obtain ⟨m, hm, _, _, hprevious, _⟩ := hmoves m' hm'
    exact hprevious ▸ hs.previous m hm
  undisturbed := by
    intro m' hm' hlatest hdisturbed
    obtain ⟨m, hm, hgen, htask, hprevious, hrest⟩ := hmoves m' hm'
    obtain ⟨hbefore, htasks, hheard⟩ := hrest hlatest hdisturbed
    obtain ⟨hrows, hold⟩ := hs.undisturbed m hm (hgen ▸ hlatest) hbefore
    rw [htask, hprevious]
    exact ⟨fun t ht => (htasks t).trans (hrows t ht), hheard hold⟩

theorem view_base {a : ViewAct} (hs : s.Base) (hplain : a.Plain)
    (hv : Viewer.next (some me) a s.viewer = some v) :
    Base { s with viewer := v, moves := s.moves.map (PendingMove.saw s.viewer v a) } := by
  refine hs.step (hs.viewer.next hplain hv) s.confirmed (by rw [List.map_map]; exact hs.generations) ?_
  intro m' hm'
  obtain ⟨m, hm, rfl⟩ := List.mem_map.mp hm'
  refine ⟨m, hm, rfl, rfl, rfl, fun _ hdisturbed => ?_⟩
  simp only [PendingMove.saw, PendingMove.wrote, Bool.or_eq_false_iff, decide_eq_false_iff_not]
    at hdisturbed
  obtain ⟨⟨⟨hbefore, hdiffer⟩, hwritten⟩, _⟩ := hdisturbed
  exact ⟨hbefore, cardOf_of_not_differ hdiffer, fun hheard hmem =>
    (List.mem_append.mp hmem).elim hheard hwritten⟩

theorem next_commitTaskMove {taskId columnId : Id} {position : Position} {nextTasks : List Card}
    (hn : next me live (.commitTaskMove taskId columnId position nextTasks) s = some s') :
    nextTasks.Perm (place taskId columnId position s.viewer.tasks) ∧
      { s with
        viewer := { s.viewer with tasks := nextTasks }
        moveGeneration := s.moveGeneration + 1
        moves := s.moves ++
          [⟨s.moveGeneration + 1, taskId, columnId, s.viewer.tasks, none, false, []⟩] } = s' := by
  simp only [next] at hn
  split at hn
  · rename_i hperm
    exact ⟨hperm, Option.some.inj hn⟩
  · cases hn

/-- An answer is applied: an accepted move takes the place the server gave it, the last refused one is
rolled back, and an older one reloads the board. -/
theorem next_settle {k : Nat} (hn : next me live (.settle k) s = some s') :
    ∃ m, s.moves[k]? = some m ∧
      ((∃ i tasks, m.answer = some (.accepted i) ∧
          tasks = setUpdated s.viewer.tasks (s.viewer.log.card (i + 1) m.taskId) ∧
          { s with
            viewer := { s.viewer with tasks }
            moves := (s.moves.eraseIdx k).map (PendingMove.wrote s.viewer.tasks tasks [m.taskId])
            confirmed := s.confirmed ++ [i] } = s') ∨
        (m.answer = some .refused ∧ m.generation = s.moveGeneration ∧
          { s with
            viewer := { s.viewer with tasks := m.previousTasks }
            moves := s.moves.eraseIdx k } = s') ∨
        (m.answer = some .refused ∧ m.generation ≠ s.moveGeneration ∧
          { s with
            viewer := { s.viewer with drains := s.viewer.drains ++ [⟨none, none, false⟩] }
            moves := s.moves.eraseIdx k } = s')) := by
  simp only [next] at hn
  split at hn
  · cases hn
  · rename_i m hk
    refine ⟨m, hk, ?_⟩
    split at hn
    · cases hn
    · rename_i i hanswer
      exact .inl ⟨i, _, hanswer, rfl, Option.some.inj hn⟩
    · rename_i hanswer
      split at hn
      · rename_i hlatest
        exact .inr (.inl ⟨hanswer, hlatest, Option.some.inj hn⟩)
      · rename_i hlatest
        exact .inr (.inr ⟨hanswer, hlatest, Option.some.inj hn⟩)

theorem commitTaskMove_base {taskId columnId : Id} {position : Position} {nextTasks : List Card}
    (hs : s.Base) (hn : next me live (.commitTaskMove taskId columnId position nextTasks) s = some s') :
    s'.Base := by
  obtain ⟨hperm, rfl⟩ := next_commitTaskMove hn
  have hnd := hs.viewer.nodup
  have hplaced : ((place taskId columnId position s.viewer.tasks).map Card.id).Nodup := by
    rwa [ids_place]
  refine ⟨⟨hs.viewer.log, hs.viewer.upTo, ?_, hs.viewer.gets, hs.viewer.drains⟩, ?_, fun m hm => ?_,
    fun m hm => ?_, fun m hm hlatest hdisturbed => ?_⟩
  · exact (hperm.map Card.id).nodup_iff.mpr hplaced
  · rw [List.map_append, List.nodup_append]
    refine ⟨hs.generations, by simp, fun g hg g' hg' => ?_⟩
    obtain ⟨m, hm, rfl⟩ := List.mem_map.mp hg
    have := hs.latest m hm
    rw [List.mem_singleton.mp hg']
    dsimp only
    omega
  all_goals rcases List.mem_append.mp hm with hm | hm
  · exact (hs.latest m hm).trans (Nat.le_succ _)
  · rw [List.mem_singleton.mp hm]
  · exact hs.previous m hm
  · rw [List.mem_singleton.mp hm]
    exact hnd
  · -- an older move is not the latest any more
    have hle := hs.latest m hm
    dsimp only at hlatest
    omega
  · rw [List.mem_singleton.mp hm]
    refine ⟨fun t ht => ?_, List.not_mem_nil⟩
    rw [cardOf_perm hplaced hperm, cardOf_place, if_neg (Ne.symm ht)]

/-- An answer that has not arrived changes nothing at the client. -/
theorem answer_base {k : Nat} {m : PendingMove} (hs : s.Base) (hk : s.moves[k]? = some m)
    (hv : v.Sound) (htasks : v.tasks = s.viewer.tasks) (answer : Option MoveAnswer) :
    Base { s with viewer := v, moves := s.moves.set k { m with answer } } := by
  refine hs.step hv s.confirmed ?_ fun m' hm' => ?_
  · rw [map_set_of_eq hk]
    · exact hs.generations
    · rfl
  · rcases List.mem_or_eq_of_mem_set hm' with hm' | rfl
    · exact ⟨m', hm', rfl, rfl, rfl, fun _ h => ⟨h, fun _ => by rw [htasks], id⟩⟩
    · exact ⟨m, List.mem_of_getElem? hk, rfl, rfl, rfl, fun _ h => ⟨h, fun _ => by rw [htasks], id⟩⟩

theorem ids_setUpdated (tasks : List Card) (updated : Option Card) :
    (setUpdated tasks updated).map Card.id = tasks.map Card.id := by
  cases updated with
  | none => rfl
  | some updated =>
    rw [setUpdated, List.map_map]
    refine List.map_congr_left fun task _ => ?_
    simp only [Function.comp_apply]
    split
    · rename_i h
      exact h.symm
    · rfl

theorem settle_base {k : Nat} (hs : s.Base) (hn : next me live (.settle k) s = some s') : s'.Base := by
  have hgenerations : ((s.moves.eraseIdx k).map PendingMove.generation).Nodup :=
    hs.generations.sublist ((List.eraseIdx_sublist _ _).map _)
  obtain ⟨m, hk, ⟨i, tasks, _, rfl, rfl⟩ | ⟨_, hlatest, rfl⟩ | ⟨_, _, rfl⟩⟩ := next_settle hn
  · refine hs.step (hs.viewer.set_tasks ?_) _ ?_ fun m' hm' => ?_
    · rw [ids_setUpdated]
      exact hs.viewer.nodup
    · rw [List.map_map]
      exact hgenerations
    · obtain ⟨m₀, hm₀, rfl⟩ := List.mem_map.mp hm'
      refine ⟨m₀, List.mem_of_mem_eraseIdx hm₀, rfl, rfl, rfl, fun _ hdisturbed => ?_⟩
      simp only [PendingMove.wrote, Bool.or_eq_false_iff] at hdisturbed
      exact ⟨hdisturbed.1.1, cardOf_of_not_differ hdisturbed.1.2, id⟩
  · refine hs.step (hs.viewer.set_tasks (hs.previous m (List.mem_of_getElem? hk))) s.confirmed
      hgenerations fun m' hm' => ?_
    refine ⟨m', List.mem_of_mem_eraseIdx hm', rfl, rfl, rfl, fun hl => ?_⟩
    exact absurd (hl.trans hlatest.symm) (key_ne_of_mem_eraseIdx hs.generations hk hm')
  · exact hs.step (hs.viewer.add_drain rfl) s.confirmed hgenerations fun m' hm' =>
      ⟨m', List.mem_of_mem_eraseIdx hm', rfl, rfl, rfl, fun _ h => ⟨h, fun _ => rfl, id⟩⟩

theorem next_view {a : ViewAct} (hn : next me live (.view a) s = some s') :
    (a = .deliver → live = true) ∧ ∃ v, Viewer.next (some me) a s.viewer = some v ∧
      { s with viewer := v, moves := s.moves.map (PendingMove.saw s.viewer v a) } = s' := by
  simp only [next] at hn
  split at hn
  · cases hn
  · rename_i hlive
    refine ⟨fun ha => ?_, Option.map_eq_some_iff.mp hn⟩
    simpa [ha] using hlive

theorem next_accept {k : Nat} {position : Position} {respread : List (Id × Position)}
    (hn : next me live (.accept k position respread) s = some s') :
    ∃ m v, s.moves[k]? = some m ∧ m.answer = none ∧
      Viewer.next (some me) (.commit ⟨.moved m.taskId m.columnId position respread, me⟩) s.viewer =
        some v ∧
      { s with
        viewer := v
        moves := s.moves.set k { m with answer := some (.accepted s.viewer.log.now) } } = s' := by
  simp only [next] at hn
  split at hn
  · cases hn
  · rename_i m hk
    split at hn
    · cases hn
    · rename_i hanswer
      obtain ⟨v, hv, rfl⟩ := Option.map_eq_some_iff.mp hn
      exact ⟨m, v, hk, not_not.mp hanswer, hv, rfl⟩

theorem next_refuse {k : Nat} (hn : next me live (.refuse k) s = some s') :
    ∃ m, s.moves[k]? = some m ∧ m.answer = none ∧
      { s with moves := s.moves.set k { m with answer := some .refused } } = s' := by
  simp only [next] at hn
  split at hn
  · cases hn
  · rename_i m hk
    split at hn
    · cases hn
    · rename_i hanswer
      exact ⟨m, hk, not_not.mp hanswer, Option.some.inj hn⟩

theorem next_base {a : MoverAct} (hs : s.Base) (hok : s.Ok live a)
    (hn : next me live a s = some s') : s'.Base := by
  cases a with
  | view a =>
    obtain ⟨_, v, hv, rfl⟩ := next_view hn
    refine view_base hs ?_ hv
    cases a with
    | applyPage k => trivial
    | _ => exact hok
  | commitTaskMove taskId columnId position nextTasks => exact commitTaskMove_base hs hn
  | accept k position respread =>
    obtain ⟨m, v, hk, _, hv, rfl⟩ := next_accept hn
    have hplain : ViewAct.Plain (.commit ⟨.moved m.taskId m.columnId position respread, me⟩) := hok
    refine answer_base hs hk (hs.viewer.next hplain hv) ?_ _
    obtain ⟨_, rfl⟩ := Viewer.next_commit hv
    rfl
  | refuse k =>
    obtain ⟨m, hk, _, rfl⟩ := next_refuse hn
    exact answer_base hs hk hs.viewer rfl _
  | settle k => exact settle_base hs hn

/-- What a rollback finds: the rows that events have written since the drag are as they were before
it. -/
theorem rollback_keeps {k : Nat} {m : PendingMove} (hs : s.Base) (hok : s.Ok live (.settle k))
    (hk : s.moves[k]? = some m) (hrefused : m.answer = some .refused)
    (hlatest : m.generation = s.moveGeneration) :
    ∀ taskId ∈ m.heard, cardOf m.previousTasks taskId = cardOf s.viewer.tasks taskId := by
  intro taskId hheard
  have hdisturbed := hok m hk
  rw [hrefused] at hdisturbed
  obtain ⟨hrows, hown⟩ := hs.undisturbed m (List.mem_of_getElem? hk) hlatest (hdisturbed hlatest)
  exact (hrows taskId (ne_of_mem_of_not_mem hheard hown)).symm

end Base
end Mover
end Web
end Kurul
