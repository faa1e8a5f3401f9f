import Kurul.Position.Spread
import Kurul.Sql.Schedule
import Kurul.Task.TaskService

/-!
# Kurul.Task.Spacing

Positions stay apart, whatever the interleaving.

The invariant is pairwise (`Apart`). What carries it through a transaction is `Holding`: once a
transaction has locked its column and read it, every task it sees there is one it listed, at the
position it listed, because others can only take tasks out of a locked column. The rely says just
that, and `commits_of` shows that every commit grants it to the others.

* `spaced_iff`    — adjacent gaps and pairwise gaps are the same law.
* `makeRoom_safe`, `place_safe` — the two branches, statement by statement.
* `spaced_run`    — every committed state of every run is spaced.
-/

namespace Kurul

open Sql

/-- In every column positions are distinct, and neighbours stand at least `minGap / 2` apart. -/
structure Spaced (db : Db) : Prop where
  distinct : ∀ columnId, ((ordered TaskRow db columnId).map TaskRow.position).Nodup
  gaps : ∀ columnId,
    (ordered TaskRow db columnId).IsChain fun a b => minGap / 2 ≤ b.position - a.position

/-- Any two tasks of a column stand at least `minGap / 2` apart. -/
def Apart (db : Db) : Prop :=
  ∀ t ∈ rows TaskRow db, ∀ u ∈ rows TaskRow db, t.columnId = u.columnId → t.id ≠ u.id →
    minGap / 2 ≤ |t.position - u.position|

theorem spaced_iff {db : Db} : Spaced db ↔ Apart db := by
  constructor
  · intro h t ht u hu hcol hid
    exact spacedIn_iff.mp ⟨h.distinct t.columnId, h.gaps t.columnId⟩ t ht u hu rfl hcol.symm hid
  · intro h
    have hin : ∀ c, SpacedIn TaskRow db c := fun c =>
      spacedIn_iff.mpr fun t ht u hu htc huc => h t ht u hu (htc.trans huc.symm)
    exact ⟨fun c => (hin c).distinct, fun c => (hin c).gaps⟩

/-! ## The protocol -/

/-- Columns stay as they are, and a locked column only loses tasks. -/
def spacing (ι : Type) : Protocol kurul ι where
  Inv := Apart
  Rely own db db' :=
    (∀ c, db'.get? ⟨.column, c⟩ = db.get? ⟨.column, c⟩) ∧
    ∀ c, ⟨⟨.column, c⟩, .update⟩ ∈ own.locks → ∀ t' ∈ rows TaskRow db', t'.columnId = c →
      ∃ t ∈ rows TaskRow db, t.id = t'.id ∧ t.columnId = c ∧ t.position = t'.position
  Guar _ _ _ _ := True
  Cond _ _ _ := True
  guar_refl _ _ _ := trivial
  rely_refl own db := ⟨fun _ => rfl, fun _ _ t ht hc => ⟨t, ht, rfl, hc, rfl⟩⟩
  rely_trans := by
    intro own db db₁ db₂ h₁ h₂
    refine ⟨fun c => (h₂.1 c).trans (h₁.1 c), fun c hl t'' ht'' hc'' => ?_⟩
    obtain ⟨t', ht', hid', hc', hp'⟩ := h₂.2 c hl t'' ht'' hc''
    obtain ⟨t, ht, hid, hc, hp⟩ := h₁.2 c hl t' ht' hc'
    exact ⟨t, ht, hid.trans hid', hc, hp.trans hp'⟩

/-- A commit that writes no column, and tasks only into columns it has locked. -/
theorem commits_of {ι : Type} {i : ι} {a : Act kurul} {own : Local kurul} {db : Db}
    (hcol : ∀ c, ¬ own.Wrote ⟨.column, c⟩)
    (howns : ∀ t : TaskRow, .put (.task t) ∈ own.delta →
      ⟨⟨.column, t.columnId⟩, .update⟩ ∈ own.locks)
    (hap : Apart (own.view db)) : (spacing ι).Commits i a own.locks db (own.view db) := by
  refine ⟨hap, trivial, fun o hcomp => ⟨fun c => ?_, fun c hl t' ht' hc => ?_⟩⟩
  · exact Local.get?_view_of_not_wrote (hcol c) db
  · rcases mem_rows_view ht' with hput | ⟨_, hold⟩
    · have hmine := howns t' hput
      rw [hc] at hmine
      exact absurd ⟨rfl, rfl⟩ (hcomp _ hmine _ hl)
    · exact ⟨t', hold, rfl, hc, rfl⟩

/-- A commit that writes no column and puts no task: at most it takes tasks away. -/
theorem commits_of_removal {ι : Type} {i : ι} {a : Act kurul} {own : Local kurul} {db : Db}
    (h : ∀ w ∈ own.delta, w.key.table ≠ .column ∧ ∀ t : TaskRow, w ≠ .put (.task t))
    (hap : Apart db) : (spacing ι).Commits i a own.locks db (own.view db) := by
  have hput : ∀ t : TaskRow, .put (.task t) ∉ own.delta := fun t ht => (h _ ht).2 t rfl
  refine commits_of ?_ (fun t ht => absurd ht (hput t)) ?_
  · intro c hc
    obtain ⟨w, hw, heq⟩ := List.mem_map.mp hc
    exact (h w hw).1 (by rw [heq])
  · have hold : ∀ t ∈ rows TaskRow (own.view db), t ∈ rows TaskRow db :=
      fun t ht => ((mem_rows_view ht).resolve_left (hput t)).2
    exact fun t ht u hu => hap t (hold t ht) u (hold u hu)

/-! ## Positions listed for a column -/

/-- The transaction holds the lock of column `c` and has written tasks only into it; every task it
sees there is an entry of `ps`, or waits to be written by an entry of `us`. -/
structure Holding (c : Id) (ps us : List PositionUpdate) (own : Local kurul) (db : Db) : Prop where
  columns : ∀ k, ¬ own.Wrote ⟨.column, k⟩
  lock : ⟨⟨.column, c⟩, .update⟩ ∈ own.locks
  owns : ∀ t : TaskRow, .put (.task t) ∈ own.delta → t.columnId = c
  listed : ∀ t ∈ rows TaskRow (own.view db), t.columnId = c →
    ⟨t.id, t.position⟩ ∈ ps ∨ ∃ u ∈ us, u.id = t.id

/-- What a transaction that holds a column knows besides its tasks. -/
def HoldsColumn (c : Id) (own : Local kurul) (_ : Db) : Prop :=
  (∀ k, ¬ own.Wrote ⟨.column, k⟩) ∧ ⟨⟨.column, c⟩, .update⟩ ∈ own.locks

section

variable {ι : Type} {i : ι} {c : Id} {ps us : List PositionUpdate} {own : Local kurul} {db db' : Db}

theorem holding_iff : Holding c ps us own db ↔
    HoldsColumn c own db ∧ Listed TaskRow c ps us own db :=
  ⟨fun h => ⟨⟨h.columns, h.lock⟩, h.owns, h.listed⟩,
    fun h => ⟨h.1.1, h.1.2, h.2.owns, h.2.listed⟩⟩

theorem HoldsColumn.add {β : Type} (h : HoldsColumn c own db) {e : Effect kurul β}
    (he : ∀ w ∈ e.writes, w.key.table ≠ .column) : HoldsColumn c (own.add e) db := by
  refine ⟨fun k hk => ?_, List.mem_append_left _ h.2⟩
  rcases Local.wrote_add.mp hk with hk | hk
  · exact h.1 k hk
  · obtain ⟨w, hw, heq⟩ := List.mem_map.mp hk
    exact he w hw (by rw [heq])

theorem guarding_holdsColumn : Guarding (spacing ι) TaskRow c (HoldsColumn c) where
  later hl h := ⟨h, hl.1.2 c h.2⟩
  add e he h := h.add fun w hw heq => by cases (he w hw).table.symm.trans heq

namespace Holding

/-- Others only take tasks out of the column. -/
theorem rely (h : Holding c ps us own db) (hr : (spacing ι).Rely own db db') :
    Holding c ps us own db' := by
  obtain ⟨hc, hl⟩ := holding_iff.mp h
  exact holding_iff.mpr ⟨hc, hl.sheds (hr.2 c hc.2)⟩

/-- Statements about other tables change nothing here. -/
theorem add {β : Type} (h : Holding c ps us own db) {e : Effect kurul β}
    (he : ∀ w ∈ e.writes, w.key.table ≠ .task ∧ w.key.table ≠ .column) :
    Holding c ps us (own.add e) db := by
  obtain ⟨hc, hl⟩ := holding_iff.mp h
  exact holding_iff.mpr ⟨hc.add fun w hw => (he w hw).2, hl.add fun w hw => (he w hw).1⟩

/-- A task put into the column, with its entry. -/
theorem put {β : Type} (h : Holding c ps [] own db) {x : TaskRow} (hx : x.columnId = c)
    {e : Effect kurul β} (he : e.writes = [.put (.task x)]) {ps' : List PositionUpdate}
    (hself : ⟨x.id, x.position⟩ ∈ ps') (hps : ∀ u ∈ ps, u.id ≠ x.id → u ∈ ps') :
    Holding c ps' [] (own.add e) db := by
  obtain ⟨hc, hl⟩ := holding_iff.mp h
  refine holding_iff.mpr ⟨hc.add fun w hw => ?_, hl.put hx he hself hps⟩
  rw [he] at hw
  rw [List.mem_singleton.mp hw]
  nofun

/-- With nothing left to write, and the entries apart, the transaction may commit. -/
theorem commits {a : Act kurul} (h : Holding c ps [] own db) (hsep : Separated ps) (hap : Apart db) :
    (spacing ι).Commits i a own.locks db (own.view db) := by
  refine commits_of h.columns (fun t ht => by rw [h.owns t ht]; exact h.lock) ?_
  have hlisted := (holding_iff.mp h).2
  intro t ht u hu hcol hid
  by_cases hc : t.columnId = c
  · exact hlisted.apart hsep t ht u hu hc (hcol.symm.trans hc) hid
  · have hin : ApartIn TaskRow db t.columnId :=
      fun t ht u hu htc huc => hap t ht u hu (htc.trans huc.symm)
    exact hlisted.elsewhere hc hin t ht u hu rfl hcol.symm hid

theorem commitSafe {α : Type} (h : Holding c ps [] own db) (hsep : Separated ps) {l : Label}
    (a : α) : CommitSafe (spacing ι) i l (fun _ _ => True) a own db :=
  fun _ hl _ => ⟨(h.rely hl.1).commits hsep hl.2, trivial⟩

end Holding

/-! ## The branches, statement by statement -/

/-- A column read under its lock, before anything is written, lists every task. -/
theorem Holding.read (hdelta : own.delta = []) (hlock : ⟨⟨.column, c⟩, .update⟩ ∈ own.locks) :
    Holding c (entries (siblings TaskRow db c)) [] own db :=
  holding_iff.mpr ⟨⟨fun _ => Local.not_wrote_of_nil hdelta _, hlock⟩, .read hdelta⟩

theorem separated_entries (h : Apart db) : Separated (entries (siblings TaskRow db c)) :=
  separated_siblings fun t ht u hu htc huc => h t ht u hu (htc.trans huc.symm)

/-- Making room for a new task, under the lock: whatever its id, its position will stand apart. -/
theorem makeRoom_safe {Q : Position → Local kurul → Db → Prop} {l : List Sibling}
    {slot : InsertionSlot Sibling} (hs : l.Pairwise fun a b => a.position ≤ b.position)
    (hsep : Separated (entries l)) (hslice : slot = sliceSlot l slot.insertionIndex)
    (hk : slot.insertionIndex ≤ l.length)
    (hQ : ∀ p own db ps, Holding c ps [] own db → (∀ m, Separated (⟨m, p⟩ :: ps)) → Q p own db)
    (h : Holding c (entries l) [] own db) :
    (makeRoom TaskRow c l slot).Safe (spacing ι) i Q own db := by
  obtain ⟨hc, hl⟩ := holding_iff.mp h
  exact makeRoom_listed guarding_holdsColumn hs hslice hk
    (fun p own db ps hc hl hp => hQ p own db ps (holding_iff.mpr ⟨hc, hl⟩) (hp hsep)) hc hl

/-- The write of a move, under the lock. -/
theorem writeMove_safe {Q : TaskRow → Local kurul → Db → Prop} {workspaceId taskId : Id}
    {p : Position} {ps' : List PositionUpdate} (hself : ⟨taskId, p⟩ ∈ ps')
    (hps : ∀ u ∈ ps, u.id ≠ taskId → u ∈ ps')
    (hQ : ∀ x own db, Holding c ps' [] own db → Q x own db) (h : Holding c ps [] own db) :
    (TaskService.writeMove workspaceId taskId c p).Safe (spacing ι) i Q own db := by
  intro now
  refine Safe_update fun db' hl r hr _ => ?_
  have hid : r.id = taskId := (byId_eq_some.mp (of_taskScope hr)).2
  refine hQ _ _ db' ((h.rely hl.1).put rfl rfl ?_ ?_)
  · rw [hid]; exact hself
  · rw [hid]; exact hps

theorem place_safe {Q : TaskDto → Local kurul → Db → Prop} {workspaceId taskId : Id}
    {task : TaskDetailRow} (htask : task.task.id = taskId) {l : List Sibling}
    (hs : l.Pairwise fun a b => a.position ≤ b.position) (hsep : Separated (entries l))
    {slot : InsertionSlot Sibling}
    (hslice : slot = sliceSlot (l.filter fun s => s.id ≠ taskId) slot.insertionIndex)
    (hk : slot.insertionIndex ≤ (l.filter fun s => s.id ≠ taskId).length) {n : Nat}
    (hQ : ∀ r own db ps, Holding c ps [] own db → Separated ps → Q r own db)
    (h : Holding c (entries l) [] own db) :
    (TaskService.place workspaceId taskId task c (l.filter fun s => s.id ≠ taskId) slot n).Safe
      (spacing ι) i Q own db := by
  subst htask
  have hkeep : ∀ u ∈ entries l, u.id ≠ task.task.id →
      u ∈ entries (l.filter fun s => s.id ≠ task.task.id) := fun u => mem_entries_filter
  have hsepr : Separated (entries (l.filter fun s => s.id ≠ task.task.id)) := hsep.filter _
  have hsr : (l.filter fun s => s.id ≠ task.task.id).Pairwise fun a b => a.position ≤ b.position :=
    hs.filter _
  have hother : ∀ s ∈ l.filter fun s => s.id ≠ task.task.id, s.id ≠ task.task.id :=
    fun s hs' => of_decide_eq_true (List.mem_filter.mp hs').2
  generalize (l.filter fun s => s.id ≠ task.task.id) = remaining at hslice hk hkeep hsepr hsr hother ⊢
  simp only [TaskService.place]
  split
  · simp only [Tx.Safe_bind]
    refine writeMove_safe (List.mem_cons_self ..)
      (fun u hu hne => List.mem_cons_of_mem _ (hkeep u hu hne)) (fun x own db h => ?_) h
    obtain ⟨hc, hl⟩ := holding_iff.mp h
    refine moveBatch_listed (m := ⟨task.task.id, task.task.position⟩) guarding_holdsColumn hk hother
      (fun own db ps hc hl hsep => ?_) hc hl
    intro now
    exact hQ _ _ _ _ (holding_iff.mpr ⟨hc, hl⟩) hsep
  · rename_i hn
    simp only [Tx.Safe_bind]
    refine writeMove_safe (List.mem_cons_self ..)
      (fun u hu hne => List.mem_cons_of_mem _ (hkeep u hu hne)) (fun x own db h => ?_) h
    refine Safe_query fun db' hl => ?_
    exact hQ _ _ _ _ (h.rely hl.1)
      (separated_midpoint hsr hsepr hslice hk (by simpa using hn) task.task.id)

end

/-! ## The transactions -/

section Bodies

variable {ι : Type} {i : ι} {db : Db}

/-- What a body's answer has to come with for its `COMMIT` to be safe. -/
def Done {ι α : Type} (i : ι) : α → Local kurul → Db → Prop :=
  CommitSafe (spacing ι) i .transaction fun _ _ => True

theorem Holding.done {α : Type} {c : Id} {ps : List PositionUpdate} {own : Local kurul} {db : Db}
    (h : Holding c ps [] own db) (hsep : Separated ps) (a : α) : Done (ι := ι) i a own db :=
  h.commitSafe hsep a

/-- An activity recorded at the end of a transaction. -/
theorem Holding.record_done {α : Type} {c : Id} {ps : List PositionUpdate} {own : Local kurul}
    {db : Db} (h : Holding c ps [] own db) (hsep : Separated ps) (input : RecordActivityInput)
    (a : α) :
    (do let _ ← ActivityService.record input; return a : Tx kurul α).Safe (spacing ι) i
      (Done i) own db := by
  rw [Tx.Safe_bind]
  refine record_safe fun v db' hl _ => ?_
  refine ((h.rely hl.1).add ?_).done hsep a
  intro w hw
  rw [List.mem_singleton.mp hw]
  exact ⟨nofun, nofun⟩

/-- A column whose row is missing takes no task: whatever the bulk write did, the insert of a
reference to it is refused. -/
structure Missing (c : Id) (own : Local kurul) (db : Db) : Prop where
  gone : db.get? ⟨.column, c⟩ = none
  columns : ∀ k, ¬ own.Wrote ⟨.column, k⟩

theorem Missing.rely {c : Id} {own : Local kurul} {db db' : Db} (h : Missing c own db)
    (hr : (spacing ι).Rely own db db') : Missing c own db' :=
  ⟨(hr.1 c).trans h.gone, h.columns⟩

theorem Missing.makeRoom_safe {c : Id} {own : Local kurul} {l : List Sibling}
    {slot : InsertionSlot Sibling} {Q : Position → Local kurul → Db → Prop}
    (hQ : ∀ p own db, Missing c own db → Q p own db) (h : Missing c own db) :
    (makeRoom TaskRow c l slot).Safe (spacing ι) i Q own db := by
  simp only [makeRoom]
  split
  · rw [Tx.Safe_bind]
    refine batchUpdatePositions_safe (J := Missing c) (fun own db db' hl h => h.rely hl.1) ?_
      (fun own db h => hQ _ own db h) h
    intro own db e he h
    refine ⟨h.gone, fun k hk => ?_⟩
    rcases Local.wrote_add.mp hk with hk | hk
    · exact h.columns k hk
    · obtain ⟨w, hw, heq⟩ := List.mem_map.mp hk
      obtain ⟨u, _, hkey⟩ := he w hw
      rw [heq] at hkey
      cases hkey
  · exact hQ _ own db h

theorem createBody_safe {workspaceId boardId userId : Id} {column : ColumnRow}
    {attributes : TaskAttributes} {afterTaskId : Option Id} :
    (TaskService.createBody workspaceId boardId userId column attributes afterTaskId).Safe
      (spacing ι) i (Done i) .empty db := by
  simp only [TaskService.createBody, Tx.Safe_bind]
  refine Safe_lockRow fun db₁ _ own₁ hdelta _ hlock => ?_
  rcases hlock with hgone | hlock
  · have hmiss : Missing column.id own₁ db₁ := ⟨hgone, fun k => Local.not_wrote_of_nil hdelta _⟩
    refine Safe_query fun db₂ hl₂ => Safe_ofExcept fun slot _ => ?_
    refine Missing.makeRoom_safe (fun p own db₃ h₃ => ?_) (hmiss.rely hl₂.1)
    intro x now
    refine Safe_create fun db₄ hl₄ hok => ?_
    have hnone : (own.view db₄).get? ⟨.column, column.id⟩ = none := by
      rw [Local.get?_view_of_not_wrote (h₃.columns _)]
      exact (h₃.rely hl₄.1).gone
    have hres : (Row.task _).resolves (own.view db₄) = true := resolves_of_insertRefusal hok
    simp [Row.resolves, Row.composite, hnone] at hres
  · refine Safe_query fun db₂ hl₂ => Safe_ofExcept fun slot hslot => ?_
    rw [Local.view_of_nil hdelta] at hslot ⊢
    have hof := resolveCreateNeighbors_ok hslot
    refine makeRoom_safe (siblings_sorted ..) (separated_entries hl₂.2) hof.slice hof.le
      (fun p own db₃ ps h₃ hsep => ?_) (Holding.read hdelta hlock)
    intro x now
    refine Safe_create fun db₄ hl₄ _ => ?_
    refine Holding.record_done (c := column.id) ?_ (hsep x) _ _
    exact (h₃.rely hl₄.1).put rfl rfl (List.mem_cons_self ..)
      fun u hu _ => List.mem_cons_of_mem _ hu

theorem moveBody_safe {workspaceId taskId userId : Id} {dto : MoveTaskDto} :
    (TaskService.moveBody workspaceId taskId userId dto).Safe (spacing ι) i (Done i) .empty db := by
  simp only [TaskService.moveBody, Tx.Safe_bind]
  refine Safe_query fun db₁ hl₁ => Safe_orThrow fun task htask => Safe_throwIf fun _ => ?_
  refine Safe_query fun db₂ hl₂ => Safe_orThrow fun column hcolumn => Safe_throwIf fun _ => ?_
  obtain ⟨t, ht, rfl⟩ := Option.map_eq_some_iff.mp htask
  have htid : t.id = taskId := (byId_eq_some.mp (of_taskScope ht)).2
  have hthere : db₂.get? ⟨.column, column.id⟩ = some (.column column) :=
    get?_row (R := ColumnRow) (List.mem_of_find?_eq_some hcolumn)
  have hfrom : ∀ {Q : Option ColumnRow → Local kurul → Db → Prop},
      (∀ x db₃, (spacing ι).Rely .empty db₂ db₃ → Q x .empty db₃) →
      (TaskService.fromColumn (taskDetailInclude db₁ t).task column).Safe (spacing ι) i Q .empty
        db₂ := by
    intro Q hQ
    simp only [TaskService.fromColumn]
    split
    · exact hQ _ _ ((spacing ι).rely_refl _ _)
    · exact Safe_query fun db₃ hl₃ => hQ _ _ hl₃.1
  refine hfrom fun x db₃ hr₃ => Safe_lockRow fun db₄ hl₄ own₄ hdelta _ hlock => ?_
  have hlock : ⟨⟨.column, column.id⟩, .update⟩ ∈ own₄.locks := by
    refine hlock.resolve_left fun hgone => ?_
    rw [Local.view_empty, hl₄.1.1, hr₃.1, hthere] at hgone
    cases hgone
  refine Safe_query fun db₅ hl₅ => Safe_ofExcept fun slot hslot => Safe_query fun db₆ hl₆ => ?_
  rw [Local.view_of_nil hdelta] at hslot ⊢
  have hof := resolveMoveNeighbors_ok hslot
  refine place_safe htid (siblings_sorted ..) (separated_entries hl₅.2) hof.slice hof.le
    (fun r own db₇ ps h₇ hsep => ?_) ((Holding.read hdelta hlock).rely hl₆.1)
  exact h₇.record_done hsep _ _

theorem removeBody_safe {workspaceId taskId userId : Id} :
    (TaskService.removeBody workspaceId taskId userId).Safe (spacing ι) i (Done i) .empty db := by
  simp only [TaskService.removeBody, Tx.Safe_bind]
  refine Safe_query fun db₁ hl₁ => Safe_orThrow fun task htask => ?_
  refine record_safe fun v db₂ hl₂ _ => Safe_deleteMany fun db₃ hl₃ _ ws hws => ?_
  refine Safe_throwIf fun _ => fun db₄ hl₄ _ => ⟨commits_of_removal ?_ hl₄.2, trivial⟩
  intro w hw
  rcases List.mem_append.mp hw with hw | hw
  · rw [List.mem_singleton.mp hw]
    exact ⟨nofun, nofun⟩
  · rcases mem_deletion_closed belowTask_closed rfl hws hw with ⟨k, hk, rfl⟩ | ⟨v, hv, rfl⟩
    · refine ⟨fun heq => ?_, nofun⟩
      rw [Write.key_del] at heq
      rw [heq] at hk
      cases hk
    · refine ⟨fun heq => ?_, fun t ht => ?_⟩
      · rw [Write.key_put, keyed_key] at heq
        rw [heq] at hv
        simp at hv
      · rw [Write.put.inj ht] at hv
        rcases hv with hv | hv
        · cases hv
        · cases hv

end Bodies

/-! ## Any number of calls -/

/-- A call of the service that writes tasks. -/
inductive TaskOp where
  | create (rt : Runtime) (workspaceId boardId userId : Id) (dto : CreateTaskDto)
  | move (workspaceId taskId userId : Id) (dto : MoveTaskDto)
  | remove (workspaceId taskId userId : Id)

def TaskOp.call : TaskOp → Call kurul Unit
  | .create rt workspaceId boardId userId dto => do
    let _ ← TaskService.create rt workspaceId boardId userId dto
  | .move workspaceId taskId userId dto => do
    let _ ← TaskService.move workspaceId taskId userId dto
  | .remove workspaceId taskId userId => TaskService.remove workspaceId taskId userId

theorem TaskOp.call_safe {ι : Type} {i : ι} {db : Db} (hap : Apart db) (op : TaskOp) :
    op.call.Safe (spacing ι) i (fun _ _ => True) db := by
  cases op with
  | create rt workspaceId boardId userId dto =>
    simp only [TaskOp.call, TaskService.create, Call.Safe_bind]
    refine Call.Safe_auto_read (readOnly_assertBoard _ _) (fun _ db hap => ?_) hap
    refine Call.Safe_auto_read (TaskService.readOnly_findColumnOnBoard _ _ _) (fun column db hap => ?_) hap
    refine Call.Safe_auto_read (readOnly_ofExcept _) (fun attributes db hap => ?_) hap
    exact Call.Safe_transaction createBody_safe
  | move workspaceId taskId userId dto =>
    simp only [TaskOp.call, TaskService.move, Call.Safe_bind]
    exact Call.Safe_transaction moveBody_safe
  | remove workspaceId taskId userId =>
    simp only [TaskOp.call, TaskService.remove, Call.Safe_bind]
    exact Call.Safe_transaction removeBody_safe

/-- Every committed state of every run of creates, moves and removals is spaced. -/
theorem spaced_run {ι : Type} [DecidableEq ι] {db : Db} (h : Spaced db) (ops : ι → TaskOp)
    {σ : Config kurul ι}
    (hrun : Run (fun _ _ _ => True) (Config.start db fun i => (ops i).call) σ) : Spaced σ.db := by
  have hap := spaced_iff.mp h
  have hgood := hrun.good (P := spacing ι) (Config.Good.start hap fun i => (ops i).call_safe hap)
    fun _ _ _ _ => trivial
  exact spaced_iff.mpr hgood.inv

/-- Two columns; in the first there is no room left between its two tasks. -/
def tightBoard : Db where
  rows := [
    .user ⟨js "u", js "u@x", js "U", true, none, none, none⟩,
    .workspace ⟨js "w", js "W", js "w"⟩,
    .board ⟨js "b", js "w", js "B", none, 0⟩,
    .column ⟨js "c", js "b", js "C", 1000, none, .unstarted⟩,
    .column ⟨js "d", js "b", js "D", 2000, none, .started⟩,
    .task ⟨js "s", js "b", js "c", js "S", none, .medium, 5, none, none, js "u", 0, 0⟩,
    .task ⟨js "t", js "b", js "c", js "T", none, .medium, 5 + minGap / 2, none, none, js "u", 0, 0⟩,
    .task ⟨js "v", js "b", js "d", js "V", none, .medium, 5, none, none, js "u", 0, 0⟩]
  nodup := by decide +kernel

/-- A move between the two tasks, which rebalances, and a create where the moved task was. -/
def tightOps : Fin 2 → TaskOp
  | 0 => .move (js "w") (js "v") (js "u") ⟨js "c", some (js "s"), some (js "t")⟩
  | 1 => .create .bare (js "w") (js "b") (js "u")
      ⟨js "N", js "d", .absent, none, .absent, .absent, some (js "v")⟩

def tightSchedule : List (Fin 2 × kurul.Id) :=
  List.replicate 10 (0, js "a") ++ List.replicate 8 (1, js "n") ++ List.replicate 8 (0, js "a") ++
    List.replicate 5 (1, js "n")

theorem spaced_run_tight : ∃ σ : Config kurul (Fin 2),
    Run (fun _ _ _ => True) (Config.start tightBoard fun i => (tightOps i).call) σ ∧
      (rows TaskRow σ.db).length = 4 ∧ Spaced σ.db := by
  have hstart : Spaced tightBoard := spaced_iff.mpr (by unfold Apart; decide +kernel)
  have hgoes : ((Config.start (S := kurul) tightBoard fun i => (tightOps i).call).schedule
      (0 : Instant) (fun _ _ _ => true) tightSchedule).any (fun σ => (rows TaskRow σ.db).length = 4) = true := by
    decide +kernel
  obtain ⟨σ, hσ, hlen⟩ := (Option.any_eq_true _ _).mp hgoes
  have hrun := run_schedule (fun _ _ _ _ => trivial) .refl hσ
  exact ⟨σ, hrun, by simpa using hlen, spaced_run hstart tightOps hrun⟩

end Kurul
