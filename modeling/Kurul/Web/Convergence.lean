import Kurul.Web.InSync

/-!
# Kurul.Web.Convergence

A viewer in the room of its board hears of every commit, in order.

* `viewer_converges` — once nothing is in flight it has the server's tasks where the server has them,
  if no answer was applied that an event before it had overtaken.
-/

namespace Kurul
namespace Web

open Lts

/-- A board that is on show, or one whose first drain has just been sent. -/
inductive Viewer.Start (board : List Card) : Viewer → Prop where
  | loaded {tasks : List Card} (h : tasks.Perm board) : Start board ⟨⟨board, []⟩, 0, tasks, [], [], []⟩
  | loading : Start board ⟨⟨board, []⟩, 0, [], [], [], [⟨none, none, false⟩]⟩

/-- The commits whose events have reached the client. -/
def Viewer.Heard (v : Viewer) (i : Nat) : Prop := i < v.upTo

section Runs

variable {board : List Card} {v₀ v : Viewer} {currentUserId : Option Id}

theorem Viewer.Start.sound (hnd : (board.map Card.id).Nodup) (h : Viewer.Start board v₀) :
    v₀.Sound := by
  have hlog : BoardLog.Sound ⟨board, []⟩ := ⟨hnd, by simp, by simp⟩
  cases h with
  | loaded h => exact ⟨hlog, le_rfl, (h.map Card.id).nodup_iff.mpr hnd, by simp, by simp⟩
  | loading => exact ⟨hlog, le_rfl, by simp, by simp, by simp⟩

theorem Viewer.Start.inSync (hnd : (board.map Card.id).Nodup) (h : Viewer.Start board v₀)
    (taskId : Id) : v₀.InSync v₀.Heard taskId := by
  cases h with
  | loaded h =>
    refine .inl ⟨0, le_rfl, ?_, fun ⟨i, _, _, hi, _⟩ => absurd hi (Nat.not_lt_zero i)⟩
    exact cardOf_perm hnd h taskId
  | loading => exact .inr ⟨rfl, .inr ⟨_, List.mem_cons_self, nofun⟩⟩

theorem heard_next {v v' : Viewer} {a : ViewAct} (hs : Viewer.next currentUserId a v = some v') {i : Nat}
    (hi : v'.Heard i) : v.Heard i ∨ v.learns a i := by
  by_cases ha : ∀ c, a ≠ .commit c
  · rcases (Viewer.next_frame hs ha).2 with hupTo | ⟨rfl, hupTo, _⟩
    · exact .inl (hi.trans_eq hupTo)
    · exact Nat.lt_succ_iff_lt_or_eq.mp (hi.trans_eq hupTo)
  · simp only [ne_eq, not_forall, not_not] at ha
    obtain ⟨c, rfl⟩ := ha
    obtain ⟨_, rfl⟩ := Viewer.next_commit hs
    exact .inl hi

/-- A task that is shown as no event undoes it, with no event to come, is shown as it is. -/
theorem card_of_shows (hv : v.Sound) (hq : v.Quiet) {taskId : Id} (h : v.InSync v.Heard taskId) :
    cardOf v.tasks taskId = v.log.card v.log.now taskId := by
  rcases h with ⟨n, hn, hcard, hnot⟩ | ⟨_, (htimer | ⟨get, hget, _⟩) | ⟨d, hd, _⟩⟩
  · rw [hcard]
    refine (card_of_not_undone hv.log hn le_rfl fun i c hni hi hc hundo => hnot ?_).symm
    exact ⟨i, c, hni, hi.trans_eq hq.events.symm, hc, hcard ▸ hundo⟩
  · rw [hq.timers] at htimer; cases htimer
  · rw [hq.gets] at hget; cases hget
  · rw [hq.drains] at hd; cases hd

/-- Where no column is respread, a viewer converges, if no answer is applied after an event that undoes
what it says. -/
theorem viewer_converges (hnd : (board.map Card.id).Nodup) (hstart : Viewer.Start board v₀)
    (h : Reach (Viewer.next currentUserId) (fun v a => a.Plain ∧ v.Fresh v.Heard a) v₀ v)
    (hq : v.Quiet) : v.tasks.Perm (v.log.cards v.log.now) := by
  have hinv := h.inv (I := fun v => v.Sound ∧ ∀ taskId, v.InSync v.Heard taskId)
    ⟨hstart.sound hnd, hstart.inSync hnd⟩ fun v a v' ⟨hv, hsync⟩ ⟨hplain, hfresh⟩ hs =>
      ⟨hv.next hplain hs, fun taskId =>
        (Viewer.inSync_next hv (hsync taskId) (fun _ hi => hi) hfresh hs).mono fun _ => heard_next hs⟩
  exact perm_of_cardOf hinv.1.nodup (hinv.1.log.cards_nodup _)
    fun taskId => card_of_shows hinv.1 hq (hinv.2 taskId)

section Tests

abbrev oneTask : List Card := [⟨js "t", js "c", 1000⟩]

/-- A task is created and fetched, moved and deleted, and the board is drained meanwhile. -/
def createMoveDelete : List ViewAct :=
  [.readPage 0, .applyPage 0, .commit ⟨.created ⟨js "u", js "c", 2000⟩, js "v"⟩, .deliver,
    .fire (js "u"), .readTask 0, .applyTask 0, .startDrain,
    .commit ⟨.moved (js "u") (js "d") 1000 [], js "v"⟩, .deliver, .readPage 0,
    .commit ⟨.deleted (js "t"), js "v"⟩, .applyPage 0, .deliver]

/-- A task is deleted while a fetch of it, already answered, is on its way. -/
def deleteOvertakesFetch : List ViewAct :=
  [.readPage 0, .applyPage 0, .commit ⟨.updated (js "t"), js "v"⟩, .deliver, .fire (js "t"),
    .readTask 0, .commit ⟨.deleted (js "t"), js "v"⟩, .deliver, .applyTask 0]

abbrev loadingBoard : Viewer := ⟨⟨oneTask, []⟩, 0, [], [], [], [⟨none, none, false⟩]⟩

end Tests

theorem viewer_converges_moved :
    let v := after (Viewer.next none) Viewer.readLast createMoveDelete loadingBoard
    v.tasks = [⟨js "u", js "d", 1000⟩] ∧ v.tasks.Perm (v.log.cards v.log.now) := by
  refine ⟨by decide +kernel, viewer_converges (by decide) (.loading : Viewer.Start oneTask _)
    (reach_after (fun _ _ h => ⟨Viewer.readLast_plain h, Viewer.readLast_ok (fun _ hi => hi) h⟩) (by decide +kernel)) ?_⟩
  constructor <;> decide +kernel

/-- The deleted task comes back with the answer, and nothing takes it away again. -/
theorem viewer_revives :
    let v := after (Viewer.next none) (fun _ _ => true) deleteOvertakesFetch loadingBoard
    Reach (Viewer.next none) (fun _ _ => True) loadingBoard v ∧ v.Quiet ∧
      v.tasks = [⟨js "t", js "c", 1000⟩] ∧ v.log.cards v.log.now = [] := by
  refine ⟨reach_after (fun _ _ _ => trivial) (by decide +kernel), ?_, by decide +kernel, by decide +kernel⟩
  constructor <;> decide +kernel

end Runs
end Web
end Kurul
