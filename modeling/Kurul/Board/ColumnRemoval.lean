import Kurul.Board.ColumnService
import Kurul.Task.Spacing

/-!
# Kurul.Board.ColumnRemoval

Which tasks a column takes with it when it is removed among creates, moves and removals of tasks.

`ColumnService.remove` counts, records and deletes in three statements, and only the last one
locks the column. A task committed after the count is cascaded to.

* `column_remove_loses_task` — the run in which that happens.
* `task_survives` — in every run in which no `DELETE` of a column finds a task in it, only
  `TaskService.remove` takes a task away.
-/

namespace Kurul

open Sql

/-- A call that writes tasks, or removes a column. -/
inductive BoardOp where
  | task (op : TaskOp)
  | removeColumn (workspaceId columnId actorId : Id)

def BoardOp.call : BoardOp → Call kurul Unit
  | .task op => op.call
  | .removeColumn workspaceId columnId actorId => ColumnService.remove workspaceId columnId actorId

section Keeping

variable {ι : Type}

/-- The step is the `COMMIT` of a `TaskService.remove` of this task. -/
def Removes (ops : ι → BoardOp) (taskId : Id) (i : ι) (a : Act kurul) : Prop :=
  (∃ workspaceId userId, ops i = .task (.remove workspaceId taskId userId)) ∧
    a = .commit .transaction

/-- If the step is the `DELETE` of a column, no committed task is in that column. -/
def DeletesEmpty (ops : ι → BoardOp) (i : ι) (a : Act kurul) (db : Db) : Prop :=
  ∀ workspaceId columnId actorId, ops i = .removeColumn workspaceId columnId actorId →
    a = .exec (.delete .column) → ∀ t ∈ rows TaskRow db, t.columnId ≠ columnId

/-- A task that goes was removed. -/
def keeping (ops : ι → BoardOp) : Protocol kurul ι where
  Inv _ := True
  Rely _ _ _ := True
  Guar i a db db' := ∀ t ∈ rows TaskRow db, (∃ t' ∈ rows TaskRow db', t'.id = t.id) ∨
    Removes ops t.id i a
  Cond := DeletesEmpty ops
  guar_refl _ _ _ t ht := .inl ⟨t, ht, rfl⟩
  rely_refl _ _ := trivial
  rely_trans _ _ := trivial

variable {ops : ι → BoardOp} {i : ι} {db : Db}

/-- A commit whose writes delete no task but those it may. -/
theorem keeping_commits {a : Act kurul} {own : Local kurul} {ks : List (Lock Key)}
    (h : ∀ k, .del ⟨.task, k⟩ ∈ own.delta → Removes ops k i a) :
    (keeping ops).Commits i a ks db (own.view db) := by
  refine ⟨trivial, fun t ht => ?_, fun _ _ => trivial⟩
  by_cases hdel : .del ⟨.task, t.id⟩ ∈ own.delta
  · exact .inr (h _ hdel)
  · have hsome := Store.isSome_get?_applyAll hdel db
      (Option.isSome_iff_exists.mpr ⟨_, get?_row ht⟩)
    obtain ⟨v, hv⟩ := Option.isSome_iff_exists.mp hsome
    obtain ⟨t', rfl, ht', hid⟩ := (get?_eq_some (R := TaskRow)).mp hv
    exact .inl ⟨t', ht', hid⟩

/-- The write deletes no task. -/
def SparesTasks (w : Write Key Row) : Prop := ∀ k, w ≠ .del ⟨.task, k⟩

theorem sparesTasks_put {R : Type} [Model R] (r : R) : SparesTasks (.put (Model.row r)) := nofun

/-- A transaction that deletes no task may commit. -/
theorem spares_commitSafe {α : Type} (a : α) (own : Local kurul) (db : Db)
    (h : ∀ w ∈ own.delta, SparesTasks w) :
    CommitSafe (keeping ops) i .transaction (fun _ _ => True) a own db :=
  fun _ _ _ => ⟨keeping_commits fun k hk => absurd rfl (h _ hk k), trivial⟩

/-- What `TaskService.remove` deletes: its own task, and rows below it. -/
theorem removeTaskBody_safe {workspaceId taskId userId : Id}
    (hop : ops i = .task (.remove workspaceId taskId userId)) :
    (TaskService.removeBody workspaceId taskId userId).Safe (keeping ops) i
      (CommitSafe (keeping ops) i .transaction fun _ _ => True) .empty db := by
  simp only [TaskService.removeBody, Tx.Safe_bind]
  refine Safe_query fun db₁ _ => Safe_orThrow fun task _ => record_safe fun v db₂ _ _ => ?_
  refine Safe_deleteMany fun db₃ _ _ ws hws => Safe_throwIf fun _ => fun db₄ _ _ => ?_
  refine ⟨keeping_commits fun k hk => ?_, trivial⟩
  rcases List.mem_append.mp hk with hk | hk
  · simp at hk
  · rcases Store.mem_deletion hws hk with ⟨u, _, hu, heq⟩ | ⟨u, _, _, _, heq⟩
    · have hdoomed := Store.doomed_subset
        (P := fun k => k.table.belowTask = true ∧ (k.table = .task → k.id = taskId)) ?_ ?_ _ hu
      · have hkey : u.key = ⟨.task, k⟩ := (Write.del.inj heq).symm
        rw [keyed_key, hkey] at hdoomed
        obtain rfl : k = taskId := hdoomed.2 rfl
        exact ⟨⟨_, _, hop⟩, rfl⟩
      · intro k hk
        obtain ⟨t, ht, rfl⟩ := List.mem_map.mp hk
        have hp := (List.mem_filter.mp ht).2
        simp only [taskScope, Bool.and_eq_true, decide_eq_true_eq] at hp
        exact ⟨rfl, fun _ => hp.1⟩
      · intro v _ k hr hk
        refine ⟨belowTask_closed v k hr hk.1, fun htask => ?_⟩
        obtain ⟨t, rfl⟩ := exists_row_of_table (R := TaskRow) htask
        simp only [references, Model.row, Row.refs, List.mem_cons, Prod.mk.injEq, and_true,
          reduceCtorEq, and_false, List.not_mem_nil, or_false] at hr
        rcases hr with rfl | rfl
        · cases hk.1
        · cases hk.1
    · cases heq

/-- What `ColumnService.remove` deletes, if it finds no task to cascade to: the column alone. -/
theorem removeColumnBody_safe {workspaceId columnId actorId : Id}
    (hop : ops i = .removeColumn workspaceId columnId actorId) :
    (ColumnService.removeBody workspaceId columnId actorId).Safe (keeping ops) i
      (CommitSafe (keeping ops) i .transaction fun _ _ => True) .empty db := by
  simp only [ColumnService.removeBody, Tx.Safe_bind]
  refine Safe_query fun db₁ _ => Safe_orThrow fun column _ => Safe_query fun db₂ _ => ?_
  refine Safe_throwIf fun _ => record_safe fun v db₃ _ _ => ?_
  refine Safe_deleteMany fun db₄ _ hempty ws hws => Safe_throwIf fun _ => fun db₅ _ _ => ?_
  refine ⟨keeping_commits fun k hk => ?_, trivial⟩
  rcases List.mem_append.mp hk with hk | hk
  · simp at hk
  · rcases Store.mem_deletion hws hk with ⟨u, _, hu, heq⟩ | ⟨u, _, _, _, heq⟩
    · have hdoomed := Store.doomed_subset (P := fun k => k = ⟨.column, columnId⟩) ?_ ?_ _ hu
      · cases (Write.del.inj heq).trans hdoomed
      · intro k hk
        obtain ⟨t, ht, rfl⟩ := List.mem_map.mp hk
        have hp := (List.mem_filter.mp ht).2
        simp only [columnScope, Bool.and_eq_true, decide_eq_true_eq] at hp
        exact congrArg (Key.mk .column) hp.1
      · rintro u hu _ hr rfl
        obtain ⟨t, rfl, hcol⟩ := task_of_refs hr
        rcases mem_rows_view (mem_rows.mpr hu : t ∈ rows TaskRow _) with hput | ⟨_, ht⟩
        · simp [Model.row] at hput
        · exact absurd hcol (hempty _ _ _ hop rfl t ht)
    · cases heq

theorem BoardOp.call_safe (i : ι) (db : Db) :
    (ops i).call.Safe (keeping ops) i (fun _ _ => True) db := by
  cases hop : ops i with
  | task op =>
    cases op with
    | create rt workspaceId boardId userId dto =>
      simp only [BoardOp.call, TaskOp.call, TaskService.create, Call.Safe_bind]
      refine Call.Safe_auto_read (readOnly_assertBoard _ _) (fun _ db hinv => ?_) trivial
      refine Call.Safe_auto_read (TaskService.readOnly_findColumnOnBoard _ _ _)
        (fun column db hinv => ?_) hinv
      refine Call.Safe_auto_read (readOnly_ofExcept _) (fun attributes db hinv => ?_) hinv
      exact Call.Safe_transaction
        ((TaskService.writes_createBody sparesTasks_put sparesTasks_put).safe spares_commitSafe
          fun _ h => by cases h)
    | move workspaceId taskId userId dto =>
      simp only [BoardOp.call, TaskOp.call, TaskService.move, Call.Safe_bind]
      exact Call.Safe_transaction
        ((TaskService.writes_moveBody sparesTasks_put sparesTasks_put).safe spares_commitSafe
          fun _ h => by cases h)
    | remove workspaceId taskId userId =>
      simp only [BoardOp.call, TaskOp.call, TaskService.remove, Call.Safe_bind]
      exact Call.Safe_transaction (removeTaskBody_safe hop)
  | removeColumn workspaceId columnId actorId =>
    simp only [BoardOp.call, ColumnService.remove, Call.Safe_bind]
    exact Call.Safe_transaction (removeColumnBody_safe hop)

end Keeping

/-- If no `DELETE` of a column finds a committed task in it, a committed task is there until
`TaskService.remove` removes it. -/
theorem task_survives {ι : Type} [DecidableEq ι] (ops : ι → BoardOp) {db : Db}
    {σ σ' : Config kurul ι} {t : TaskRow}
    (hrun : Run (fun σ i a => DeletesEmpty ops i a σ.db)
      (Config.start db fun i => (ops i).call) σ)
    (ht : t ∈ rows TaskRow σ.db)
    (hrest : Run (fun σ i a => DeletesEmpty ops i a σ.db ∧ ¬ Removes ops t.id i a) σ σ') :
    ∃ t' ∈ rows TaskRow σ'.db, t'.id = t.id := by
  have hgood : σ.Good (keeping ops) :=
    hrun.good (Config.Good.start trivial fun i => BoardOp.call_safe i db) fun _ _ _ h => h
  -- By induction on the rest of the run: a step that loses the task is one ruled out.
  suffices h : σ'.Good (keeping ops) ∧ ∃ t' ∈ rows TaskRow σ'.db, t'.id = t.id from h.2
  induction hrest with
  | refl => exact ⟨hgood, t, ht, rfl⟩
  | step _ hok hs ih =>
    obtain ⟨hg, t', ht', hid⟩ := ih
    obtain ⟨hg', hmove⟩ := hg.step hok.1 hs
    refine ⟨hg', ?_⟩
    rcases hmove with heq | hguar
    · exact ⟨t', by rw [heq]; exact ht', hid⟩
    · rcases hguar t' ht' with ⟨t'', ht'', hid'⟩ | hrem
      · exact ⟨t'', ht'', hid'.trans hid⟩
      · rw [hid] at hrem
        exact absurd hrem hok.2

/-- A board with two columns, both empty. -/
def emptyColumns : Db where
  rows := [
    .user ⟨js "u", js "u@x", js "U", true, none, none, none⟩,
    .workspace ⟨js "w", js "W", js "w"⟩,
    .board ⟨js "b", js "w", js "B", none, 0⟩,
    .column ⟨js "c", js "b", js "C", 1000, none, .unstarted⟩,
    .column ⟨js "d", js "b", js "D", 2000, none, .started⟩]
  nodup := by decide +kernel

/-- The removal of a column, and a create into the first one. -/
def race (columnId : Id) : Fin 2 → BoardOp
  | 0 => .removeColumn (js "w") columnId (js "u")
  | 1 => .task (.create .bare (js "w") (js "b") (js "u")
      ⟨js "N", js "c", .absent, none, .absent, .absent, none⟩)

theorem not_removes_race {columnId taskId : Id} {i : Fin 2} {a : Act kurul} :
    ¬ Removes (race columnId) taskId i a := by
  rintro ⟨⟨workspaceId, userId, hop⟩, _⟩
  match i with
  | 0 => cases hop
  | 1 => cases hop

/-- Between its count and its `DELETE` the removal waits for the create to commit. -/
def raceUntilCommit : List (Fin 2 × kurul.Id) :=
  List.replicate 3 (0, js "r") ++ List.replicate 12 (1, js "t")

def raceToTheEnd : List (Fin 2 × kurul.Id) := List.replicate 6 (0, js "r") ++ [(1, js "t")]

/-- The removal of the other column deletes it, and the new task is there. -/
theorem task_survives_race :
    ∃ σ σ' : Config kurul (Fin 2), ∃ t ∈ rows TaskRow σ.db, (∀ i, σ'.returned i = true) ∧
      (rows ColumnRow σ'.db).length = 1 ∧ ∃ t' ∈ rows TaskRow σ'.db, t'.id = t.id := by
  let ok : Config kurul (Fin 2) → Fin 2 → Act kurul → Bool :=
    fun σ _ _ => (rows TaskRow σ.db).all fun t => t.columnId ≠ js "d"
  have hok : ∀ σ i a, ok σ i a = true → DeletesEmpty (race (js "d")) i a σ.db := by
    intro σ i a h workspaceId columnId actorId hop _ t ht
    match i with
    | 0 => cases hop; simpa using List.all_eq_true.mp h t ht
    | 1 => cases hop
  have hgoes : (((Config.start (S := kurul) emptyColumns fun i => (race (js "d") i).call).schedule
      (0 : Instant) ok raceUntilCommit).any fun σ =>
        !(rows TaskRow σ.db).isEmpty &&
        (σ.schedule (0 : Instant) ok raceToTheEnd).any fun σ' =>
          decide (∀ i, σ'.returned i = true) && decide ((rows ColumnRow σ'.db).length = 1)) =
      true := by
    decide +kernel
  obtain ⟨σ, hσ, hgoes⟩ := (Option.any_eq_true _ _).mp hgoes
  obtain ⟨hthere, hrest⟩ := (Bool.and_eq_true_iff).mp hgoes
  obtain ⟨σ', hσ', hend⟩ := (Option.any_eq_true _ _).mp hrest
  obtain ⟨hret, hgone⟩ := (Bool.and_eq_true_iff).mp hend
  obtain ⟨t, ht⟩ := List.exists_mem_of_ne_nil (rows TaskRow σ.db) (by simpa using hthere)
  exact ⟨σ, σ', t, ht, of_decide_eq_true hret, of_decide_eq_true hgone,
    task_survives (race (js "d")) (run_schedule hok .refl hσ) ht
      (run_schedule (fun σ i a h => ⟨hok σ i a h, not_removes_race⟩) .refl hσ')⟩

/-- The removal counts no task, the create commits, the `DELETE` cascades: both calls return, nobody
called `TaskService.remove`, and the committed task is gone. -/
theorem column_remove_loses_task :
    ∃ σ σ' : Config kurul (Fin 2),
      Run (fun _ _ _ => True) (Config.start emptyColumns fun i => (race (js "c") i).call) σ ∧
      (∃ t ∈ rows TaskRow σ.db, t.id = js "t" ∧ t.columnId = js "c") ∧
      Run (fun _ i a => ¬ Removes (race (js "c")) (js "t") i a) σ σ' ∧
      (∀ i, σ'.returned i = true) ∧ ¬ ∃ t ∈ rows TaskRow σ'.db, t.id = js "t" := by
  have hgoes : (((Config.start (S := kurul) emptyColumns fun i => (race (js "c") i).call).schedule
      (0 : Instant) (fun _ _ _ => true) raceUntilCommit).any fun σ =>
        (rows TaskRow σ.db).any (fun t => t.id = js "t" && t.columnId = js "c") &&
        (σ.schedule (0 : Instant) (fun _ _ _ => true) raceToTheEnd).any fun σ' =>
          decide (∀ i, σ'.returned i = true) && (rows TaskRow σ'.db).isEmpty) = true := by
    decide +kernel
  obtain ⟨σ, hσ, hgoes⟩ := (Option.any_eq_true _ _).mp hgoes
  obtain ⟨hthere, hrest⟩ := (Bool.and_eq_true_iff).mp hgoes
  obtain ⟨σ', hσ', hend⟩ := (Option.any_eq_true _ _).mp hrest
  obtain ⟨hret, hnone⟩ := (Bool.and_eq_true_iff).mp hend
  obtain ⟨t, ht, hid⟩ := List.any_eq_true.mp hthere
  refine ⟨σ, σ', run_schedule (fun _ _ _ _ => trivial) .refl hσ, ⟨t, ht, by simpa using hid⟩,
    run_schedule (fun _ _ _ _ => not_removes_race) .refl hσ', of_decide_eq_true hret, ?_⟩
  rintro ⟨t, ht, _⟩
  rw [List.isEmpty_iff.mp hnone] at ht
  cases ht

end Kurul
