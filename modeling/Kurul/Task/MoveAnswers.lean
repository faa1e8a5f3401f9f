import Kurul.Task.MoveEvents
import Kurul.Task.Spacing

/-!
# Kurul.Task.MoveAnswers

What a move answers, against the row it stores. Where there is room the answer is read back with the
write; where the column is respread it is put together from the row as the transaction first read it,
and that row is not locked.

* `Agrees`       — an answer and a stored row, but for the time of the update.
* `Unedited`     — a row that is respread has not been written since it was read.
* `move_answers` — in a run whose moves write unedited rows, the answer is the row.
-/

namespace Kurul

open Sql TaskService

/-- Every field of the answer that is a field of the row, but for `updatedAt`. -/
def Agrees (answer : TaskDto) (row : TaskRow) : Prop :=
  answer.id = row.id ∧ answer.boardId = row.boardId ∧ answer.columnId = row.columnId ∧
  answer.title = row.title ∧ answer.description = row.description ∧ answer.priority = row.priority ∧
  answer.position = row.position ∧ answer.dueDate = row.dueDate.map toISOString ∧
  answer.estimatedMinutes = row.estimatedMinutes ∧ answer.createdById = row.createdById ∧
  answer.createdAt = toISOString row.createdAt

/-- Two versions of a row that differ in what a move writes at most. -/
def SameButPlace (r s : TaskRow) : Prop :=
  { r with columnId := s.columnId, position := s.position, updatedAt := s.updatedAt } = s

theorem agrees_toTaskDetailDto (detail : TaskDetailRow) (n : Nat) :
    Agrees (toTaskDetailDto detail n) detail.task :=
  ⟨rfl, rfl, rfl, rfl, rfl, rfl, rfl, rfl, rfl, rfl, rfl⟩

/-- A row in its new place is answered by any version of it, put there. -/
theorem SameButPlace.agrees {detail : TaskDetailRow} {row : TaskRow} (h : SameButPlace detail.task row)
    {columnId : Id} {position : Position} {now now' : Instant} (n : Nat) :
    Agrees (toTaskDetailDto { detail with task := { detail.task with columnId, position, updatedAt := now } } n)
      { row with columnId, position, updatedAt := now' } := by
  rw [SameButPlace] at h
  rw [← h]
  exact ⟨rfl, rfl, rfl, rfl, rfl, rfl, rfl, rfl, rfl, rfl, rfl⟩

/-! ## What a move has read -/

/-- The rows each statement was evaluated on, and the rows as the call's transaction left them. -/
structure Recalled where
  seen : List Db
  left : Option Db

def Recalled.note (g : Recalled) (a : Act kurul) (saw _before after : Db) : Recalled :=
  match a with
  | .exec _ => { g with seen := g.seen ++ [saw] }
  | .commit _ => { g with left := some after }
  | _ => g

/-- By the siblings it has read, the move respreads the column: it counts attachments after them. -/
def Respreads (taskId : Id) (dto : MoveTaskDto) (seen : List Db) : Prop :=
  ∃ before siblingsRead countRead slot, seen = before ++ [siblingsRead, countRead] ∧
    resolveMoveNeighbors ((siblings TaskRow siblingsRead dto.columnId).filter fun item => item.id ≠ taskId)
      dto.beforeTaskId dto.afterTaskId = .ok slot ∧
    needsRebalance (slot.prev.map Sibling.position) (slot.next.map Sibling.position) = true

/-- A move that respreads finds the task, when it writes it, as it first read it. -/
def Unedited (taskId : Id) (dto : MoveTaskDto) (g : Recalled) (a : Act kurul) (db : Db) : Prop :=
  a = .exec (.update .task) → Respreads taskId dto g.seen →
    ∀ first r s, g.seen.head? = some first → byId TaskRow first taskId = some r →
      byId TaskRow db taskId = some s → SameButPlace r s

section Kept

variable {ι : Type} {i : ι} {workspaceId taskId userId : Id} {dto : MoveTaskDto} {answer : TaskDto}

/-- The client of session `i` is answered with the row its move has stored. Of the other sessions
nothing is asked. -/
def answering (ι : Type) (i : ι) (taskId : Id) (dto : MoveTaskDto) (answer : TaskDto) :
    Sql.Ledger kurul ι Recalled where
  note := Recalled.note
  Within _ _ := True
  Inv _ := True
  Cond j g a db := j = i → Unedited taskId dto g a db
  Guar _ _ _ _ _ := True
  Ends j r g := j = i → r = none →
    ∃ db, g.left = some db ∧ ∃ row ∈ rows TaskRow db, row.id = taskId ∧ Agrees answer row
  note_quiet _ _ _ := rfl
  within_refl _ := trivial
  within_trans _ _ := trivial
  within_exec _ _ _ _ := trivial

/-- The transaction has written a row that agrees with its answer. -/
def Answered (taskId : Id) (result : TaskDto) (own : Local kurul) : Prop :=
  ∃ x, Written x own ∧ x.id = taskId ∧ Agrees result x

theorem writeMove_kept {columnId : Id} {position : Position} {g : Recalled} {own : Local kurul} {db : Db}
    (hdelta : own.delta = []) {Q : TaskRow → Recalled → Local kurul → Db → Prop}
    (hQ : ∀ s now g' own' db', s.id = taskId →
      (Respreads taskId dto g.seen → ∀ first r, g.seen.head? = some first →
        byId TaskRow first taskId = some r → SameButPlace r s) →
      Written { s with columnId, position, updatedAt := now } own' →
      Q { s with columnId, position, updatedAt := now } g' own' db') :
    (writeMove workspaceId taskId columnId position).Kept (answering ι i taskId dto answer) i Q g own
      db := by
  intro now
  refine Kept_update fun db' hnow s hfound => ?_
  rw [Local.view_of_nil hdelta] at hfound
  have hstored : byId TaskRow db' taskId = some s := of_taskScope hfound
  refine hQ s now _ _ _ (byId_eq_some.mp hstored).2 (fun hrespreads first r hfirst hr => ?_) written_put
  exact hnow.2.2 rfl rfl hrespreads first r s hfirst hr hstored

/-- Either branch answers with the row it writes. -/
theorem place_kept {first : Db} {r : TaskRow} {remaining : List Sibling}
    {slot : InsertionSlot Sibling} {n : Nat} {g : Recalled} {own : Local kurul} {db : Db}
    (hdelta : own.delta = []) (hfirst : g.seen.head? = some first)
    (hr : byId TaskRow first taskId = some r)
    (hrespreads : needsRebalance (slot.prev.map Sibling.position) (slot.next.map Sibling.position) = true →
      Respreads taskId dto g.seen) {columnId : Id} :
    (place workspaceId taskId (taskDetailInclude first r) columnId remaining slot n).Kept
      (answering ι i taskId dto answer) i (fun result _ own _ => Answered taskId result own) g own db := by
  simp only [place]
  split
  · case isTrue hneeds =>
    simp only [Tx.Kept_bind, batchUpdateTaskPositions]
    refine writeMove_kept hdelta fun s now g₁ own₁ db₁ hid hsame hwritten => ?_
    refine batchUpdatePositions_kept (J := fun _ own _ =>
      Written { s with columnId, position := _, updatedAt := now } own)
      (fun e g own db db' l _ h he => h.add fun hmem => ?_) (fun g own db h now' => ?_) hwritten
    · -- the task itself is not among the others that are respread
      obtain ⟨w, hw, hkey⟩ := List.mem_map.mp hmem
      obtain ⟨u, hu, t, _, _, htid, rfl⟩ := he w hw
      rw [moveUpdates_eq] at hu
      have hne : u.id ≠ taskId := of_decide_eq_true (List.mem_filter.mp hu).2
      have huid : u.id = s.id := htid.symm.trans (Key.mk.inj hkey).2
      exact hne (huid.trans hid)
    · exact ⟨_, h, hid, (hsame (hrespreads hneeds) first r hfirst hr).agrees n⟩
  · simp only [Tx.Kept_bind]
    refine writeMove_kept hdelta fun s now g₁ own₁ db₁ hid _ hwritten => ?_
    refine Kept_query fun db₂ _ => ?_
    exact ⟨_, hwritten, hid, agrees_toTaskDetailDto _ n⟩

theorem Answered.mem {result : TaskDto} {own : Local kurul} (h : Answered taskId result own) (db : Db) :
    ∃ row ∈ rows TaskRow (own.view db), row.id = taskId ∧ Agrees result row := by
  obtain ⟨x, hwritten, hid, hagrees⟩ := h
  exact ⟨x, mem_rows.mpr (Store.mem_of_get? (hwritten db)), hid, hagrees⟩

theorem moveBody_kept {db : Db} {Q : TaskDto → Recalled → Prop}
    (hQ : ∀ result g db, g.left = some db →
      (∃ row ∈ rows TaskRow db, row.id = taskId ∧ Agrees result row) → Q result g) :
    (moveBody workspaceId taskId userId dto).Kept (answering ι i taskId dto answer) i
      (CommitKept (answering ι i taskId dto answer) i .transaction Q) ⟨[], none⟩ .empty db := by
  simp only [moveBody, countAttachments, findSiblings, Tx.Kept_bind]
  refine Kept_query fun first _ => Kept_orThrow fun task htask => Kept_throwIf fun _ => ?_
  obtain ⟨r, hr, rfl⟩ := Option.map_eq_some_iff.mp htask
  have hstored : byId TaskRow first taskId = some r := of_taskScope hr
  refine Kept_query fun db₂ _ => Kept_orThrow fun column hcolumn => Kept_throwIf fun _ => ?_
  have hcid : column.id = dto.columnId := (byId_eq_some.mp (of_columnScope hcolumn)).2
  have hfrom : ∀ {g : Recalled} {Q : Option ColumnRow → Recalled → Local kurul → Db → Prop},
      g.seen.head? = some first → (∀ x g db, g.seen.head? = some first → Q x g .empty db) →
      (fromColumn r column).Kept (answering ι i taskId dto answer) i Q g .empty db₂ := by
    intro g Q hg hQ
    simp only [fromColumn]
    split
    · exact hQ _ _ _ hg
    · exact Kept_query fun db₃ _ => hQ _ _ _ (by simp [answering, Recalled.note, hg])
  refine hfrom rfl fun x g₃ db₃ hg₃ => Kept_lockRow fun db₄ _ own₄ hdelta => ?_
  have hview : ∀ db, own₄.view db = db := Local.view_of_nil hdelta
  refine Kept_query fun db₅ _ => Kept_ofExcept fun slot hslot => Kept_query fun db₆ _ => ?_
  rw [hview, hcid] at hslot
  refine (place_kept hdelta (by simp [answering, Recalled.note, hg₃]) hstored fun hneeds => ?_).mono
    fun result g own db hanswered => ?_
  · refine ⟨g₃.seen ++ [db₄], db₅, db₆, slot, ?_, hslot, hneeds⟩
    simp [answering, Recalled.note, hview]
  · refine Kept_record fun v db₇ _ _ _ _ _ _ => fun db₈ _ => ⟨⟨trivial, .inr trivial⟩, ?_⟩
    obtain ⟨x, hwritten, hid, hagrees⟩ := hanswered
    refine hQ _ _ _ rfl (Answered.mem ⟨x, hwritten.add ?_, hid, hagrees⟩ db₈)
    simp [Row.key]

/-- The call, for a client that goes on if it is answered like this. -/
def answeredWith (call : Call kurul TaskDto) (answer : TaskDto) : Call kurul Unit := do
  let result ← call
  Call.auto (throwIf (result ≠ answer) (.badRequest []))

theorem move_kept :
    (answeredWith (TaskService.move workspaceId taskId userId dto) answer).Kept
      (answering ι i taskId dto answer) i (fun _ => (answering ι i taskId dto answer).Ends i none)
      (fun e => (answering ι i taskId dto answer).Ends i (some e)) ⟨[], none⟩ := by
  have herr : ∀ e g, (answering ι i taskId dto answer).Ends i (some e) g := fun e g _ h => by cases h
  simp only [answeredWith, TaskService.move, Call.Kept_bind]
  refine Call.Kept_transaction (fun e g _ => herr e g) fun db _ => moveBody_kept ?_
  intro result g db hleft hstored db' _
  refine Kept_auto_throwIf (herr _ _) fun hsame => ?_
  obtain rfl : result = answer := by simpa using hsame
  exact fun _ _ => ⟨db, hleft, hstored⟩

end Kept

/-! ## Runs -/

section Runs

variable {ι : Type} [DecidableEq ι] {i : ι} {σ₀ σ : Config kurul ι} {g : ι → Recalled}
  {past : List (Past kurul ι Recalled)} {db₀ : Db}

/-- What a call's notes say it has left was committed by a step it took. -/
theorem left_of_booked {Ok : ι → Recalled → Act kurul → Db → Prop} {g₀ : Recalled} (hg₀ : g₀.left = none)
    (h : Booked Recalled.note g₀ Ok σ₀ σ g past) {db : Db} (hleft : (g i).left = some db) :
    ∃ p ∈ past, p.who = i ∧ (∃ l, p.act = .commit l) ∧ p.after = db := by
  obtain ⟨p, hp, hwho, hbefore, saw, hnoted⟩ := h.noted (f := Recalled.left) hg₀ hleft
  refine ⟨p, hp, hwho, ?_⟩
  cases hact : p.act with
  | commit l =>
    rw [hact] at hnoted
    exact ⟨⟨l, rfl⟩, Option.some.inj hnoted⟩
  | _ =>
    rw [hact] at hnoted
    exact absurd hnoted hbefore

/-- Whatever other calls a move is interleaved with: if it finds the task unedited when it respreads, a
client it answers is answered with the row its transaction has stored, but for `updatedAt`. -/
theorem move_answers {workspaceId taskId userId : Id} {dto : MoveTaskDto} {answer : TaskDto}
    {calls : ι → Call kurul Unit}
    (hcall : calls i = answeredWith (TaskService.move workspaceId taskId userId dto) answer)
    (hrun : Booked Recalled.note ⟨[], none⟩ (fun j g a db => j = i → Unedited taskId dto g a db)
      (Config.start db₀ calls) σ g past)
    (hreturned : σ.returned i = true) :
    ∃ p ∈ past, p.who = i ∧ (∃ l, p.act = .commit l) ∧
      ∃ row ∈ rows TaskRow p.after, row.id = taskId ∧ Agrees answer row := by
  have hstart : (Config.start db₀ calls).Kept (answering ι i taskId dto answer) fun _ => ⟨[], none⟩ := by
    refine .start trivial fun j => ?_
    by_cases hj : j = i
    · subst hj
      rw [hcall]
      exact move_kept
    · exact Call.Kept_any (fun _ => trivial) (fun _ _ _ _ => trivial)
        (fun _ _ h => absurd h hj) (fun _ _ h => absurd h hj) _
  obtain ⟨hkept, _⟩ := Booked.good hstart (fun _ _ _ _ h => h) hrun
  obtain ⟨db, hleft, hstored⟩ := hkept.returned hreturned rfl rfl
  obtain ⟨p, hp, hwho, hact, rfl⟩ := left_of_booked rfl hrun hleft
  exact ⟨p, hp, hwho, hact, hstored⟩

end Runs

/-! ## Two runs -/

deriving instance DecidableEq for TaskRow

instance (r s : TaskRow) : Decidable (SameButPlace r s) :=
  inferInstanceAs (Decidable ({ r with
    columnId := s.columnId, position := s.position, updatedAt := s.updatedAt } = s))

/-- A test of `Unedited` that does not ask whether the move respreads. -/
def unedited (taskId : Id) (g : Recalled) (a : Act kurul) (db : Db) : Bool :=
  match a with
  | .exec (.update .task) =>
    match g.seen.head?.bind fun first => byId TaskRow first taskId, byId TaskRow db taskId with
    | some r, some s => SameButPlace r s
    | _, _ => true
  | _ => true

theorem unedited_ok {taskId : Id} {dto : MoveTaskDto} {g : Recalled} {a : Act kurul} {db : Db}
    (h : unedited taskId g a db = true) : Unedited taskId dto g a db := by
  rintro rfl _ first r s hfirst hr hs
  simpa [unedited, hfirst, hr, hs] using h

/-- Between two tasks that have no room between them. -/
def tightMove : MoveTaskDto := ⟨js "c", some (js "s"), some (js "t")⟩

/-- What the move answers if it has read the task under its old title. -/
def tightAnswer : TaskDto :=
  toTaskDetailDto (emptyTaskRelations
    ⟨js "v", js "b", js "c", js "V", none, .medium, 2000, none, none, js "u", 0, 0⟩) 0

/-- The move, and a request that gives the task a new title. -/
def moveAndRename (i : Fin 2) : Call kurul Unit :=
  match i with
  | 0 => answeredWith (TaskService.move (js "w") (js "v") (js "u") tightMove) tightAnswer
  | 1 => do
    let _ ← TaskService.update .bare (js "w") (js "v") (js "u")
      ⟨some (js "W"), .absent, none, .absent, .absent⟩

/-- The task is renamed as soon as the move is over. -/
theorem move_answers_tight : ∃ (σ : Config kurul (Fin 2)) (past : List (Past kurul (Fin 2) Recalled)),
    (∀ j, σ.returned j = true) ∧ ∃ p ∈ past, p.who = 0 ∧ (∃ l, p.act = .commit l) ∧
      ∃ row ∈ rows TaskRow p.after, row.id = js "v" ∧ Agrees tightAnswer row := by
  have hgoes : ((Config.start (S := kurul) tightBoard moveAndRename).booked Recalled.note (0 : Instant)
      (fun j g a db => j ≠ 0 || unedited (js "v") g a db)
      (List.replicate 2 (1, js "x") ++ List.replicate 18 (0, js "a") ++ List.replicate 11 (1, js "x"))
      (fun _ => ⟨[], none⟩) []).any
      (fun (r : Config kurul (Fin 2) × (Fin 2 → Recalled) × List (Past kurul (Fin 2) Recalled)) =>
        decide (∀ j, r.1.returned j = true)) = true := by
    decide +kernel
  obtain ⟨⟨σ, g, past⟩, hσ, hend⟩ := (Option.any_eq_true _ _).mp hgoes
  have hdone : ∀ j, σ.returned j = true := of_decide_eq_true hend
  have hrun : Booked Recalled.note ⟨[], none⟩ (fun j g a db => j = 0 → Unedited (js "v") tightMove g a db)
      (Config.start tightBoard moveAndRename) σ g past :=
    booked_of_schedule (fun j g a db h hj => unedited_ok (by simpa [hj] using h)) .refl hσ
  exact ⟨σ, past, hdone, move_answers (i := 0) rfl hrun (hdone 0)⟩

/-- Every commit leaves the task under its new title. -/
def commitsRenamed (a : Act kurul) (after : Db) : Bool :=
  match a with
  | .commit _ => (rows TaskRow after).all fun row => row.id ≠ js "v" || row.title = js "W"
  | _ => true

/-- Renamed after the move has read it, and before the move writes it. -/
theorem renamed_and_answered :
    ¬ ∀ (calls : Fin 2 → Call kurul Unit) (answer : TaskDto) (db₀ : Db) (σ : Config kurul (Fin 2))
      (g : Fin 2 → Recalled) (past : List (Past kurul (Fin 2) Recalled)),
      calls 0 = answeredWith (TaskService.move (js "w") (js "v") (js "u") tightMove) answer →
      (∃ patch, calls 1 = do
        let _ ← TaskService.update .bare (js "w") (js "v") (js "u") patch) →
      Booked Recalled.note ⟨[], none⟩ (fun _ _ _ _ => True) (Config.start db₀ calls) σ g past →
      σ.returned 0 = true →
      ∃ p ∈ past, p.who = 0 ∧ (∃ l, p.act = .commit l) ∧
        ∃ row ∈ rows TaskRow p.after, row.id = js "v" ∧ Agrees answer row := by
  intro h
  have hgoes : ((Config.start (S := kurul) tightBoard moveAndRename).booked Recalled.note (0 : Instant)
      (fun _ _ _ _ => true)
      (List.replicate 4 (0, js "x") ++ List.replicate 13 (1, js "a") ++ List.replicate 14 (0, js "x"))
      (fun _ => ⟨[], none⟩) []).any
      (fun (r : Config kurul (Fin 2) × (Fin 2 → Recalled) × List (Past kurul (Fin 2) Recalled)) =>
        r.1.returned 0 && r.2.2.all fun p => commitsRenamed p.act p.after) = true := by
    decide +kernel
  obtain ⟨⟨σ, g, past⟩, hσ, hend⟩ := (Option.any_eq_true _ _).mp hgoes
  rw [Bool.and_eq_true] at hend
  obtain ⟨hdone, htitle⟩ := hend
  obtain ⟨p, hp, _, ⟨l, hact⟩, row, hrow, hid, hagrees⟩ := h moveAndRename tightAnswer tightBoard σ g past
    rfl ⟨_, rfl⟩ (booked_of_schedule (fun _ _ _ _ _ => trivial) .refl hσ) hdone
  have hstep := List.all_eq_true.mp htitle p hp
  rw [hact] at hstep
  have hnew : row.title = js "W" := by simpa [hid] using List.all_eq_true.mp hstep row hrow
  obtain ⟨_, _, _, hanswered, _⟩ := hagrees
  rw [hnew] at hanswered
  exact absurd hanswered (by decide)

end Kurul
