import Kurul.Web.BoardView

/-!
# Kurul.Web.DistinctRows

No id twice in an array of the board.

Every writer of the arrays looks for the id first, rewrites what is there or puts in a list that has no
id twice; only the answers to the two create dialogs are appended without a look.

* `Fresh`         — the steps that append nothing that is there already.
* `distinct_rows` — along every run of such steps, and no longer.
-/

namespace Kurul
namespace Web

/-! ## Lists without an id twice -/

section Lists

variable {tasks : List Card} {columns : List ColumnDto}

theorem ids_map {α : Type} {id : α → Id} {f : α → α} (h : ∀ a, id (f a) = id a) (l : List α) :
    (l.map f).map id = l.map id := by
  rw [List.map_map]
  exact List.map_congr_left fun a _ => h a

theorem nodup_append_one {α : Type} {id : α → Id} {l : List α} {a : α} (h : (l.map id).Nodup) :
    ((l ++ [a]).map id).Nodup ↔ ∀ b ∈ l, id b ≠ id a := by
  rw [List.map_append, List.map_singleton, List.nodup_append]
  constructor
  · intro hnd b hb
    exact hnd.2.2 (id b) (List.mem_map_of_mem hb) (id a) (List.mem_singleton_self _)
  · intro hne
    refine ⟨h, List.nodup_singleton _, fun x hx y hy => ?_⟩
    obtain ⟨b, hb, rfl⟩ := List.mem_map.mp hx
    rw [List.mem_singleton.mp hy]
    exact hne b hb

theorem nodup_insertIdx {α : Type} {id : α → Id} {l : List α} {a : α} (h : (l.map id).Nodup)
    (hne : ∀ b ∈ l, id b ≠ id a) (k : Nat) : ((l.insertIdx k a).map id).Nodup := by
  by_cases hk : k ≤ l.length
  · rw [((List.perm_insertIdx a l hk).map id).nodup_iff, List.map_cons, List.nodup_cons]
    refine ⟨fun hmem => ?_, h⟩
    obtain ⟨b, hb, heq⟩ := List.mem_map.mp hmem
    exact hne b hb heq
  · rwa [List.insertIdx_of_length_lt (Nat.lt_of_not_le hk)]

theorem nodup_applyTo (patch : TaskPatch) (h : (tasks.map Card.id).Nodup) :
    ((patch.applyTo tasks).map Card.id).Nodup := by
  unfold TaskPatch.applyTo
  split
  · exact h
  · have hids : ∀ index, (tasks.modify index patch.merge).map Card.id = tasks.map Card.id := by
      intro index
      refine List.ext_getElem (by simp) fun j _ _ => ?_
      simp only [List.getElem_map, List.getElem_modify]
      split <;> rfl
    rwa [hids]

end Lists

namespace BoardRequest

/-- The lists that a request carries for its answer. -/
def Sound : BoardRequest → Prop
  | .moveTask _ _ previousTasks => (previousTasks.map Card.id).Nodup
  | .moveColumn columnId without _ =>
    (without.map ColumnDto.id).Nodup ∧ ∀ c ∈ without, c.id ≠ columnId
  | _ => True

/-- What an answer brings. -/
def SoundAnswer : BoardRequest → BoardAnswer → Prop
  | .getPage _, .page items _ => (items.map Card.id).Nodup
  | .getColumns, .columns columns => (columns.map ColumnDto.id).Nodup
  | .seedDefaults, .columns columns => (columns.map ColumnDto.id).Nodup
  | .moveColumn columnId _ _, .column column => column.id = columnId
  | _, _ => True

/-- A task that is appended is not there yet. -/
def FreshTask (tasks : List Card) : BoardRequest → BoardAnswer → Prop
  | .createTask, .task task => ∀ item ∈ tasks, item.id ≠ task.id
  | _, _ => True

def FreshColumn (columns : List ColumnDto) : BoardRequest → BoardAnswer → Prop
  | .createColumn, .column column => ∀ item ∈ columns, item.id ≠ column.id
  | _, _ => True

instance (tasks : List Card) (request : BoardRequest) (answer : BoardAnswer) :
    Decidable (request.FreshTask tasks answer) := by
  unfold FreshTask
  split <;> infer_instance

instance (columns : List ColumnDto) (request : BoardRequest) (answer : BoardAnswer) :
    Decidable (request.FreshColumn columns answer) := by
  unfold FreshColumn
  split <;> infer_instance

section

variable {rows rows' : BoardRows} {request : BoardRequest} {answer : BoardAnswer}

theorem soundAnswer_read (h : request.read rows = some answer) : request.SoundAnswer answer := by
  cases request with
  | getPage cursor =>
    cases h
    exact items_nodup rows.cards_nodup
  | getColumns =>
    cases h
    exact rows.columns_nodup
  | getTask taskId => trivial
  | getSelectedTask taskId => trivial
  | _ => cases h

theorem soundAnswer_accepts (h : request.accepts rows rows' answer = true) :
    request.SoundAnswer answer := by
  cases request with
  | seedDefaults =>
    cases answer with
    | columns created =>
      obtain rfl : created = rows'.columns := of_decide_eq_true h
      exact rows'.columns_nodup
    | _ => trivial
  | moveColumn columnId without targetIndex =>
    cases answer with
    | column column =>
      have hid : column.id = columnId := of_decide_eq_true (Bool.and_eq_true_iff.mp h).2
      exact hid
    | _ => trivial
  | getPage cursor => cases answer <;> cases h
  | getColumns => cases answer <;> cases h
  | _ => trivial

theorem soundAnswer_refused (conflict : Bool) : request.SoundAnswer (.refused conflict) := by
  cases request <;> trivial

end

end BoardRequest

namespace BoardView

section Answers

variable {request : BoardRequest} {answer : BoardAnswer} {tasks : List Card} {columns : List ColumnDto}

/-- The tasks after an answer: only a created one can be there already. -/
theorem nodup_tasksAfter (moveGeneration : Nat) (hsound : request.Sound)
    (hanswer : request.SoundAnswer answer) (h : (tasks.map Card.id).Nodup) :
    ((tasksAfter moveGeneration request answer tasks).map Card.id).Nodup ↔
      request.FreshTask tasks answer := by
  cases request with
  | createTask =>
    cases answer with
    | task task => exact nodup_append_one h
    | _ => exact iff_of_true h trivial
  | getTask taskId =>
    refine iff_of_true ?_ trivial
    cases answer with
    | task remote => exact nodup_upsert h
    | _ => exact h
  | getSelectedTask taskId =>
    refine iff_of_true ?_ trivial
    cases answer with
    | task task =>
      simp only [tasksAfter]
      split
      · exact h
      · rename_i hnone
        refine (nodup_append_one h).mpr fun item hitem hid => hnone ?_
        exact List.any_eq_true.mpr ⟨item, hitem, decide_eq_true hid⟩
    | _ => exact h
  | getPage cursor =>
    refine iff_of_true ?_ trivial
    cases answer with
    | page items nextCursor => exact nodup_onPage h hanswer
    | _ => exact h
  | deleteColumn columnId =>
    refine iff_of_true ?_ trivial
    cases answer with
    | done => exact h.sublist (List.filter_sublist.map _)
    | _ => exact h
  | deleteTask taskId =>
    refine iff_of_true ?_ trivial
    cases answer with
    | done => exact h.sublist (List.filter_sublist.map _)
    | _ => exact h
  | moveTask taskId generation previousTasks =>
    refine iff_of_true ?_ trivial
    cases answer with
    | task updated =>
      have hid : ∀ task : Card, (if task.id = updated.id then updated else task).id = task.id := by
        intro task
        split
        · rename_i heq
          exact heq.symm
        · rfl
      simp only [tasksAfter, ids_map hid]
      exact h
    | refused conflict =>
      simp only [tasksAfter]
      split
      · exact hsound
      · exact h
    | _ => exact h
  | _ => exact iff_of_true h trivial

theorem nodup_columnsAfter (hsound : request.Sound) (hanswer : request.SoundAnswer answer)
    (h : (columns.map ColumnDto.id).Nodup) :
    ((columnsAfter request answer columns).map ColumnDto.id).Nodup ↔
      request.FreshColumn columns answer := by
  cases request with
  | createColumn =>
    cases answer with
    | column column => exact nodup_append_one h
    | _ => exact iff_of_true h trivial
  | getColumns =>
    refine iff_of_true ?_ trivial
    cases answer with
    | columns next => exact hanswer
    | _ => exact h
  | seedDefaults =>
    refine iff_of_true ?_ trivial
    cases answer with
    | columns created => exact hanswer
    | _ => exact h
  | saveColumn columnId =>
    refine iff_of_true ?_ trivial
    cases answer with
    | column column =>
      have hid : ∀ item : ColumnDto, (if item.id = column.id then column else item).id = item.id := by
        intro item
        split
        · rename_i heq
          exact heq.symm
        · rfl
      simp only [columnsAfter, ids_map hid]
      exact h
    | _ => exact h
  | deleteColumn columnId =>
    refine iff_of_true ?_ trivial
    cases answer with
    | done => exact h.sublist (List.filter_sublist.map _)
    | _ => exact h
  | moveColumn columnId without targetIndex =>
    refine iff_of_true ?_ trivial
    cases answer with
    | column updated =>
      have hid : updated.id = columnId := hanswer
      exact nodup_insertIdx hsound.1 (fun c hc => hid ▸ hsound.2 c hc) targetIndex
    | _ => exact h
  | _ => exact iff_of_true h trivial

end Answers

/-! ## Steps -/

/-- No row is there twice. -/
structure Distinct (s : BoardView) : Prop where
  tasks : (s.tasks.map Card.id).Nodup
  columns : (s.columns.map ColumnDto.id).Nodup

/-- Neither the refs nor anything a request holds has a row twice. -/
structure Held (s : BoardView) : Prop where
  tasksRef : (s.tasksRef.map Card.id).Nodup
  columnsRef : (s.columnsRef.map ColumnDto.id).Nodup
  requests : ∀ p ∈ s.requests, p.request.Sound ∧ ∀ a, p.answer = some a → p.request.SoundAnswer a

/-- The answer to a create request comes before anything else has brought its row. -/
def Fresh (s : BoardView) : BoardAct → Prop
  | .settle k => ∀ request answer, s.requests[k]? = some ⟨request, some answer⟩ →
      request.FreshTask s.tasks answer ∧ request.FreshColumn s.columns answer
  | _ => True

section Steps

variable {s s' : BoardView} {a : BoardAct} {request : BoardRequest}

theorem Held.send (h : s.Held) (hsound : request.Sound) : (s.sendRequest request).Held := by
  refine ⟨h.tasksRef, h.columnsRef, fun p hp => ?_⟩
  rcases List.mem_append.mp hp with hp | hp
  · exact h.requests p hp
  · rw [List.mem_singleton.mp hp]
    exact ⟨hsound, nofun⟩

theorem Held.startReload (h : s.Held) : s.startReload.Held :=
  (show (s.sendRequest .getColumns).Held from h.send trivial).send trivial

theorem Held.answer (h : s.Held) {k : Nat} (hk : s.requests[k]? = some ⟨request, none⟩)
    {answer : BoardAnswer} (ha : request.SoundAnswer answer) :
    { s with requests := s.requests.set k ⟨request, some answer⟩ }.Held := by
  refine ⟨h.tasksRef, h.columnsRef, fun p hp => ?_⟩
  rcases List.mem_or_eq_of_mem_set hp with hp | rfl
  · exact h.requests p hp
  · refine ⟨(h.requests _ (List.mem_of_getElem? hk)).1, fun a heq => ?_⟩
    rw [← Option.some.inj heq]
    exact ha

/-- What follows an answer carries nothing. -/
theorem sound_followUps {generation : Nat} {answer : BoardAnswer} {follow : BoardRequest}
    (h : follow ∈ followUps generation request answer) : follow.Sound := by
  unfold followUps at h
  split at h
  · split at h
    · cases h
    · rw [List.mem_singleton.mp h]
      trivial
  · simp only [List.mem_cons, List.not_mem_nil, or_false] at h
    rcases h with rfl | rfl <;> trivial
  · split at h
    · cases h
    · simp only [List.mem_cons, List.not_mem_nil, or_false] at h
      rcases h with rfl | rfl <;> trivial
  · cases h

theorem sound_moveColumn (h : s.Held) {columnId : Id} {right : Bool}
    (hs : s.moveColumn columnId right = some request) : request.Sound := by
  have hwithout : ((s.columnsRef.filter fun item => item.id ≠ columnId).map ColumnDto.id).Nodup ∧
      ∀ c ∈ s.columnsRef.filter fun item => item.id ≠ columnId, c.id ≠ columnId :=
    ⟨h.columnsRef.sublist (List.filter_sublist.map _), fun c hc => by
      simpa using (List.mem_filter.mp hc).2⟩
  simp only [moveColumn] at hs
  split at hs
  · cases hs
  · split at hs
    · split at hs
      · cases hs
        exact hwithout
      · cases hs
    · split at hs
      · cases hs
        exact hwithout
      · cases hs

theorem distinct_addTask (h : s.Distinct) (task : Card) : (s.addTask task).Distinct := by
  unfold addTask
  split
  · exact h
  · rename_i hnone
    refine ⟨(nodup_append_one h.tasks).mpr fun item hitem hid => hnone ?_, h.columns⟩
    exact List.any_eq_true.mpr ⟨item, hitem, decide_eq_true hid⟩

/-- An event and a patch put nothing twice into the arrays. -/
theorem distinct_onEvent (h : s.Distinct) (event : RoomEvent) : (s.onEvent event).Distinct := by
  cases event with
  | taskCreated taskId =>
    simp only [onEvent]
    split <;> exact ⟨h.tasks, h.columns⟩
  | taskUpdated taskId => exact ⟨h.tasks, h.columns⟩
  | taskMoved taskId columnId position own =>
    have hplaced : ((place taskId columnId position s.tasks).map Card.id).Nodup := by
      rw [ids_place]
      exact h.tasks
    simp only [onEvent]
    split <;> exact ⟨hplaced, h.columns⟩
  | taskDeleted taskId => exact ⟨h.tasks.sublist (List.filter_sublist.map _), h.columns⟩
  | columnChanged => exact ⟨h.tasks, h.columns⟩

theorem held_onEvent (h : s.Held) (event : RoomEvent) : (s.onEvent event).Held := by
  cases event with
  | taskCreated taskId =>
    simp only [onEvent]
    split <;> exact ⟨h.tasksRef, h.columnsRef, h.requests⟩
  | taskUpdated taskId => exact ⟨h.tasksRef, h.columnsRef, h.requests⟩
  | taskMoved taskId columnId position own =>
    simp only [onEvent]
    split <;> exact ⟨h.tasksRef, h.columnsRef, h.requests⟩
  | taskDeleted taskId => exact ⟨h.tasksRef, h.columnsRef, h.requests⟩
  | columnChanged => exact h.send trivial

theorem applyTaskPatch_keeps (hd : s.Distinct) (hh : s.Held) (patch : TaskPatch) :
    (s.applyTaskPatch patch).Held ∧ (s.applyTaskPatch patch).Distinct := by
  unfold applyTaskPatch
  split
  · exact ⟨⟨hh.tasksRef, hh.columnsRef, hh.requests⟩, nodup_applyTo patch hd.tasks, hd.columns⟩
  · split
    · exact ⟨hh.startReload, hd.tasks, hd.columns⟩
    · refine ⟨?_, distinct_addTask hd _⟩
      unfold addTask
      split
      · exact hh
      · exact ⟨hh.tasksRef, hh.columnsRef, hh.requests⟩

/-- One step: whatever is held stays without a row twice, and so do the arrays exactly if the step
appends nothing that is there. -/
theorem distinct_step (hd : s.Distinct) (hh : s.Held) (hs : next a s = some s') :
    s'.Held ∧ (s'.Distinct ↔ s.Fresh a) := by
  cases a with
  | commit rows event =>
    simp only [next] at hs
    split at hs
    · cases hs
      exact ⟨⟨hh.tasksRef, hh.columnsRef, hh.requests⟩, iff_of_true ⟨hd.tasks, hd.columns⟩ trivial⟩
    · cases hs
  | deliver =>
    simp only [next] at hs
    split at hs
    · cases hs
    · rename_i event events _
      cases hs
      have hd' : Distinct { s with events := events } := ⟨hd.tasks, hd.columns⟩
      have hh' : Held { s with events := events } := ⟨hh.tasksRef, hh.columnsRef, hh.requests⟩
      exact ⟨held_onEvent hh' event, iff_of_true (distinct_onEvent hd' event) trivial⟩
  | render =>
    cases hs
    exact ⟨⟨hd.tasks, hd.columns, hh.requests⟩, iff_of_true ⟨hd.tasks, hd.columns⟩ trivial⟩
  | fire taskId =>
    simp only [next] at hs
    split at hs
    · cases hs
      refine ⟨?_, iff_of_true ⟨hd.tasks, hd.columns⟩ trivial⟩
      exact Held.send ⟨hh.tasksRef, hh.columnsRef, hh.requests⟩ trivial
    · cases hs
  | send request =>
    simp only [next] at hs
    split at hs
    · rename_i hdialog
      cases hs
      refine ⟨hh.send ?_, iff_of_true ⟨hd.tasks, hd.columns⟩ trivial⟩
      cases request <;> trivial
    · cases hs
  | reload =>
    cases hs
    exact ⟨hh.startReload, iff_of_true ⟨hd.tasks, hd.columns⟩ trivial⟩
  | dragTask taskId columnId position nextTasks =>
    simp only [next] at hs
    split at hs
    · rename_i hperm
      cases hs
      refine ⟨?_, iff_of_true ⟨?_, hd.columns⟩ trivial⟩
      · exact Held.send ⟨hh.tasksRef, hh.columnsRef, hh.requests⟩ hh.tasksRef
      · show (nextTasks.map Card.id).Nodup
        rw [(hperm.map Card.id).nodup_iff, ids_place]
        exact hh.tasksRef
    · cases hs
  | dragColumn columnId right =>
    obtain ⟨request, hrequest, rfl⟩ := Option.map_eq_some_iff.mp hs
    refine ⟨hh.send (sound_moveColumn hh hrequest), iff_of_true ⟨hd.tasks, hd.columns⟩ trivial⟩
  | applyTaskPatch patch =>
    cases hs
    obtain ⟨hheld, hdistinct⟩ := applyTaskPatch_keeps hd hh patch
    exact ⟨hheld, iff_of_true hdistinct trivial⟩
  | read k =>
    simp only [next] at hs
    split at hs
    · rename_i request hk
      obtain ⟨answer, hanswer, rfl⟩ := Option.map_eq_some_iff.mp hs
      refine ⟨hh.answer hk ?_, iff_of_true ⟨hd.tasks, hd.columns⟩ trivial⟩
      exact BoardRequest.soundAnswer_read hanswer
    · cases hs
  | write k rows answer =>
    simp only [next] at hs
    split at hs
    · rename_i request hk
      split at hs
      · rename_i haccepts
        cases hs
        have hheld := hh.answer hk (BoardRequest.soundAnswer_accepts haccepts)
        exact ⟨⟨hheld.tasksRef, hheld.columnsRef, hheld.requests⟩,
          iff_of_true ⟨hd.tasks, hd.columns⟩ trivial⟩
      · cases hs
    · cases hs
  | refuse k conflict =>
    simp only [next] at hs
    split at hs
    · rename_i request hk
      split at hs
      · cases hs
        refine ⟨hh.answer hk ?_, iff_of_true ⟨hd.tasks, hd.columns⟩ trivial⟩
        exact BoardRequest.soundAnswer_refused conflict
      · cases hs
    · cases hs
  | abort k =>
    simp only [next] at hs
    split at hs
    · cases hs
      refine ⟨⟨hh.tasksRef, hh.columnsRef, fun p hp => ?_⟩,
        iff_of_true ⟨hd.tasks, hd.columns⟩ trivial⟩
      exact hh.requests p (List.mem_of_mem_eraseIdx hp)
    · cases hs
  | settle k =>
    simp only [next] at hs
    split at hs
    · rename_i request answer hk
      cases hs
      obtain ⟨hsound, hanswer⟩ := hh.requests _ (List.mem_of_getElem? hk)
      have htasks := nodup_tasksAfter s.moveGeneration hsound (hanswer _ rfl) hd.tasks
      have hcolumns := nodup_columnsAfter hsound (hanswer _ rfl) hd.columns
      refine ⟨⟨hh.tasksRef, hh.columnsRef, fun p hp => ?_⟩, ?_⟩
      · rcases List.mem_append.mp hp with hp | hp
        · exact hh.requests p (List.mem_of_mem_eraseIdx hp)
        · obtain ⟨follow, hfollow, rfl⟩ := List.mem_map.mp hp
          exact ⟨sound_followUps hfollow, nofun⟩
      · constructor
        · intro h request' answer' hk'
          rw [hk] at hk'
          cases hk'
          exact ⟨htasks.mp h.tasks, hcolumns.mp h.columns⟩
        · intro h
          obtain ⟨hfresh, hfreshColumn⟩ := h request answer hk
          exact ⟨htasks.mpr hfresh, hcolumns.mpr hfreshColumn⟩
    · cases hs

end Steps

open Lts

/-- While every create answer comes before anything else has brought its row, no row is twice on the
board; the first that does not puts one there twice. -/
theorem distinct_rows {rows : BoardRows} {s : BoardView} (h : Reach next Fresh (start rows) s) :
    s.Distinct ∧ ∀ a s', next a s = some s' → (s'.Distinct ↔ s.Fresh a) := by
  have hinv : s.Distinct ∧ s.Held := by
    refine Reach.inv (I := fun s => s.Distinct ∧ s.Held) ?_ ?_ h
    · refine ⟨⟨List.nodup_nil, List.nodup_nil⟩, List.nodup_nil, List.nodup_nil, fun p hp => ?_⟩
      simp only [start, List.mem_cons, List.not_mem_nil, or_false] at hp
      rcases hp with rfl | rfl <;> exact ⟨trivial, fun _ h => by cases h⟩
    · intro s a s' hi hok hs
      obtain ⟨hheld, hiff⟩ := distinct_step hi.1 hi.2 hs
      exact ⟨hiff.mpr hok, hheld⟩
  exact ⟨hinv.1, fun a s' hs => (distinct_step hinv.1 hinv.2 hs).2⟩

/-! ## Create answers, early and late -/

/-- One column with a task in it. -/
def oneTask : BoardRows := ⟨[⟨js "t", js "c", 1000⟩], oneColumn.columns, by decide, by decide⟩

/-- The board is loaded, and a task is created on it. -/
def createsTask : List BoardAct :=
  [.read 0, .settle 0, .read 0, .settle 0, .send .createTask,
    .write 0 oneTask (.task ⟨js "t", js "c", 1000⟩)]

/-- The answer that is settled brings rows that are new to the board. -/
def settlesFresh (s : BoardView) : BoardAct → Bool
  | .settle k =>
    match s.requests[k]? with
    | some ⟨request, some answer⟩ =>
      decide (request.FreshTask s.tasks answer ∧ request.FreshColumn s.columns answer)
    | _ => true
  | _ => true

theorem fresh_of_settlesFresh (s : BoardView) (a : BoardAct) (h : settlesFresh s a = true) :
    s.Fresh a := by
  cases a with
  | settle k =>
    intro request answer hk
    simp only [settlesFresh, hk, decide_eq_true_eq] at h
    exact h
  | _ => trivial

/-- The answer first, and then the event, which has nothing left to fetch. -/
theorem distinct_rows_early : ∃ s, Reach next Fresh (start oneColumn) s ∧ s.tasks.length = 1 ∧
    s.requests = [] ∧ s.Distinct := by
  have hrun : Reach next Fresh (start oneColumn)
      (after next settlesFresh (createsTask ++ [.settle 0, .render, .deliver]) (start oneColumn)) :=
    reach_after fresh_of_settlesFresh (by decide +kernel)
  exact ⟨_, hrun, by decide +kernel, by decide +kernel, (distinct_rows hrun).1⟩

/-- The event, and what it has fetched, before the answer: the task is there twice. So is a column
when the columns are fetched before the answer to its request. -/
theorem rows_twice :
    (¬ ∀ rows s, Reach next (fun _ _ => True) (start rows) s → (s.tasks.map Card.id).Nodup) ∧
      ¬ ∀ rows s, Reach next (fun _ _ => True) (start rows) s →
        (s.columns.map ColumnDto.id).Nodup := by
  constructor
  · intro h
    have htwice := h oneColumn
      (after next (fun _ _ => true)
        (createsTask ++ [.deliver, .fire (js "t"), .read 1, .settle 1, .settle 0]) (start oneColumn))
      (reach_after (fun _ _ _ => trivial) (by decide +kernel))
    exact absurd htwice (by decide +kernel)
  · intro h
    have htwice := h oneColumn
      (after next (fun _ _ => true)
        [.read 0, .settle 0, .read 0, .settle 0, .send .createColumn,
          .write 0 twoColumns (.column ⟨js "d", js "b", js "D", 2000, none, .unstarted, 0⟩),
          .deliver, .read 1, .settle 1, .settle 0] (start oneColumn))
      (reach_after (fun _ _ _ => trivial) (by decide +kernel))
    exact absurd htwice (by decide +kernel)

end BoardView
end Web
end Kurul
