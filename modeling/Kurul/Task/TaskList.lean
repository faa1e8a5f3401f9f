import Kurul.JsMap
import Kurul.Order.Grouping
import Kurul.Order.Paging
import Kurul.Task.TaskDto

/-!
# Kurul.Task.TaskList

`TaskService.list`, one page of a board's tasks, and the client's loops over such pages,
`fetchAllBoardTasks` and `drainCursorPages`.

How Postgres compares texts without regard to case (`ILIKE`) is a parameter, as is how the runtime
reads a date.
-/

namespace Kurul

open Sql Paging

structure TaskQueryDto where
  limit : Option Nat
  cursor : Option Id
  q : Option JsString
  priority : Option (List Priority)
  assigneeId : Option (List JsString)
  labelId : Option (List Id)
  dueDate : Option JsString
  /-- `dueDate[gte]`. -/
  dueGte : Option JsString
  /-- `dueDate[lte]`. -/
  dueLte : Option JsString

namespace TaskService

/-- A list that was sent, and is not empty. -/
def sent {α : Type} (values : Option (List α)) : Option (List α) := values.filter fun l => !l.isEmpty

section Where

variable (ilike : JsString → JsString → Bool) (rt : Runtime)

/-- `null` is how "unassigned" is spelt, and may stand beside user ids. -/
def assigneeFilter (assigneeId : List JsString) (db : Db) (t : TaskRow) : Bool :=
  let wantsUnassigned := js "null" ∈ assigneeId
  let userIds := assigneeId.filter fun id => id ≠ js "null"
  (wantsUnassigned && (rows TaskAssigneeRow db).all fun a => a.taskId ≠ t.id) ||
    (rows TaskAssigneeRow db).any fun a => a.taskId = t.id && a.userId ∈ userIds

/-- The conjuncts of `buildListWhere` for the filters, each there only if its filter was sent. -/
def listFilters (query : TaskQueryDto) : List (Db → TaskRow → Bool) :=
  ((query.q.filter truthy).toList.map fun q (_ : Db) (t : TaskRow) =>
    ilike t.title q || t.description.any fun d => ilike d q) ++
  ((sent query.priority).toList.map fun priority (_ : Db) (t : TaskRow) =>
    decide (t.priority ∈ priority)) ++
  ((sent query.assigneeId).toList.map assigneeFilter) ++
  ((sent query.labelId).toList.map fun labelId (db : Db) (t : TaskRow) =>
    (rows TaskLabelRow db).any fun l => l.taskId = t.id && l.labelId ∈ labelId) ++
  (if query.dueDate = some (js "null") then [fun _ t => t.dueDate.isNone] else []) ++
  ((query.dueGte.filter truthy).toList.map fun gte (_ : Db) (t : TaskRow) =>
    t.dueDate.any fun due => (rt.parseDate gte).any fun d => d ≤ due) ++
  ((query.dueLte.filter truthy).toList.map fun lte (_ : Db) (t : TaskRow) =>
    t.dueDate.any fun due => (rt.parseDate lte).any fun d => due ≤ d)

/-- `buildListWhere`. -/
def buildListWhere (boardId : Id) (query : TaskQueryDto) (db : Db) (t : TaskRow) : Bool :=
  t.boardId = boardId &&
    (((query.cursor.filter truthy).toList.map fun cursor (_ : Db) (t : TaskRow) =>
      decide (cursor < t.id)) ++ listFilters ilike rt query).all fun c => c db t

/-- A bound that is no date is refused by the client library. -/
def badDates (query : TaskQueryDto) : Bool :=
  ((query.dueGte.filter truthy).any fun gte => (rt.parseDate gte).isNone) ||
    (query.dueLte.filter truthy).any fun lte => (rt.parseDate lte).isNone

/-- `countAttachmentsByTask`. -/
def countAttachmentsByTask (taskIds : List Id) : Tx kurul (List (Id × Nat)) :=
  if taskIds.isEmpty then return []
  else groupCount AttachmentRow.taskId fun _ a => a.taskId ∈ taskIds

/-- One page of a board's tasks. -/
def list (workspaceId boardId : Id) (query : TaskQueryDto) : Tx kurul (CursorPage Id TaskDto) := do
  let _ ← assertBoard workspaceId boardId
  let limit := query.limit.getD 50
  throwIf (badDates rt query) (.prisma .validation)
  let found ← Kurul.query fun db => ((sortBy TaskRow.id ((rows TaskRow db).filter
    (buildListWhere ilike rt boardId query db))).take (limit + 1)).map (taskListInclude db)
  let counts ← countAttachmentsByTask (found.map fun row => row.task.id)
  let counts := JsMap.ofEntries counts
  return toCursorPage (fun row => row.task.id) found limit fun row =>
    toTaskListDto row ((counts.get row.task.id).getD 0)

/-! ## What a page holds -/

/-- The tasks the filters match, wherever the cursor is. -/
def matching (boardId : Id) (query : TaskQueryDto) (db : Db) : List TaskRow :=
  (rows TaskRow db).filter (buildListWhere ilike rt boardId { query with cursor := none } db)

/-- A task as the list shows it. -/
def listedTask (db : Db) (t : TaskRow) : TaskDto :=
  toTaskListDto (taskListInclude db t) (attachmentsOf db t.id)

variable {ilike rt} {env : Env kurul} {w w' : World kurul} {workspaceId boardId : Id}
  {query : TaskQueryDto} {db : Db}

/-- The cursor is one more conjunct. -/
theorem buildListWhere_eq (t : TaskRow) : buildListWhere ilike rt boardId query db t =
    (buildListWhere ilike rt boardId { query with cursor := none } db t &&
      after (query.cursor.filter truthy) t.id) := by
  have hfilters : listFilters ilike rt { query with cursor := none } = listFilters ilike rt query := rfl
  rw [buildListWhere, buildListWhere, hfilters]
  cases query.cursor.filter truthy with
  | none => simp [after]
  | some c =>
    have hcursor : decide (c < t.id) = after (some c) t.id := decide_eq_decide.mpr Iff.rfl
    simp only [Option.toList_some, List.map_cons, List.map_nil, List.singleton_append, List.all_cons,
      hcursor, Option.filter_none, Option.toList_none, List.nil_append]
    rw [Bool.and_assoc, Bool.and_comm (after (some c) t.id)]

theorem filter_buildListWhere : (rows TaskRow db).filter (buildListWhere ilike rt boardId query db) =
    (matching ilike rt boardId query db).filter fun t => after (query.cursor.filter truthy) t.id := by
  rw [matching, List.filter_filter]
  refine List.filter_congr fun t _ => ?_
  rw [buildListWhere_eq, Bool.and_comm]

/-- What a `groupBy` counts under a key. -/
theorem getD_groupCount {R : Type} {l : List R} {f : R → Id} {p : R → Bool} {k : Id}
    (hp : ∀ r, f r = k → p r = true) :
    ((JsMap.ofEntries (((l.filter p).map f).dedup.map fun k =>
      (k, ((l.filter p).filter fun r => f r = k).length))).get k).getD 0 =
    (l.filter fun r => f r = k).length := by
  have hcount : ((l.filter p).filter fun r => decide (f r = k)) = l.filter fun r => decide (f r = k) := by
    rw [List.filter_filter]
    refine List.filter_congr fun r _ => ?_
    by_cases hr : f r = k
    · simp [hr, hp r hr]
    · simp [hr]
  rw [getD_ofEntries_counts, hcount]

/-- The count of each task asked for. -/
theorem run_countAttachmentsByTask_ok {taskIds : List Id} {counts : List (Id × Nat)}
    (h : (countAttachmentsByTask taskIds).run env w = (.ok counts, w')) :
    w'.db = w.db ∧ ∀ id ∈ taskIds, ((JsMap.ofEntries counts).get id).getD 0 = attachmentsOf w.db id := by
  unfold countAttachmentsByTask at h
  split at h
  · rename_i hnil
    rw [List.isEmpty_iff] at hnil
    subst hnil
    simp only [Tx.pure_eq, Tx.run_ret, Prod.mk.injEq] at h
    exact ⟨by rw [← h.2], nofun⟩
  · obtain ⟨rfl, rfl⟩ := run_query_ok h
    refine ⟨rfl, fun id hid => ?_⟩
    exact getD_groupCount fun a ha => by simpa [ha] using hid

/-- A page that is answered: the tasks the filters match behind the cursor, cut at the limit. -/
theorem run_list_ok {page : CursorPage Id TaskDto}
    (h : (list ilike rt workspaceId boardId query).run env w = (.ok page, w')) :
    page = toCursorPage TaskRow.id (readPage TaskRow.id (query.limit.getD 50)
      (query.cursor.filter truthy) (matching ilike rt boardId query w.db)) (query.limit.getD 50)
      (listedTask w.db) := by
  obtain ⟨_, w₁, h₁, hrest⟩ := Tx.run_bind_ok h
  have hdb₁ := run_assertBoard_ok h₁
  obtain ⟨_, w₂, h₂, hread⟩ := Tx.run_bind_ok hrest
  obtain ⟨_, rfl⟩ := run_throwIf_ok h₂
  obtain ⟨found, w₃, h₃, hcount⟩ := Tx.run_bind_ok hread
  obtain ⟨hfound, rfl⟩ := run_query_ok h₃
  obtain ⟨counts, w₄, h₄, hret⟩ := Tx.run_bind_ok hcount
  obtain ⟨_, hcounts⟩ := run_countAttachmentsByTask_ok h₄
  simp only [Tx.pure_eq, Tx.run_ret, Prod.mk.injEq, Except.ok.injEq] at hret
  obtain ⟨rfl, _⟩ := hret
  simp only [hdb₁] at hfound hcounts
  rw [filter_buildListWhere] at hfound
  have hmap : ∀ row ∈ found, toTaskListDto row (((JsMap.ofEntries counts).get row.task.id).getD 0) =
      toTaskListDto row (attachmentsOf w.db row.task.id) := fun row hrow => by
    rw [hcounts _ (List.mem_map_of_mem hrow)]
  rw [toCursorPage_congr hmap, hfound, toCursorPage_map]
  rfl

end Where
end TaskService

/-! ## The client's loops -/

namespace Web

/-- `drainCursorPages`, after `n` pages: `request i cursor` is what the `i`-th request is answered,
and the cursor is sent if there is one. It is called without an abort signal. -/
def drainCursorPages {T : Type} (request : Nat → Option Id → Option (CursorPage Id T)) (n : Nat) :
    Progress Id T :=
  drain truthy (fun i cursor => request i (cursor.filter truthy)) n

/-- `fetchAllBoardTasks`: the same loop over the pages of a board's tasks, with a filter that does
not change. What it hands to `onPage` is what it adds to its items. -/
def fetchAllBoardTasks (request : Nat → TaskQueryDto → Option (CursorPage Id TaskDto))
    (filters : TaskQueryDto) (limit n : Nat) : Progress Id TaskDto :=
  drainCursorPages (fun i cursor => request i { filters with limit := some limit, cursor }) n

/-! ## Nothing lost and nothing repeated -/

section Drain

variable (ilike : JsString → JsString → Bool) (rt : Runtime) (workspaceId boardId : Id)
  (env : Nat → Env kurul) (dbs : Nat → Db) (filters : TaskQueryDto) (limit : Nat)

/-- What the `i`-th request is answered, from the rows there are by then; `none` if it throws. -/
def served (i : Nat) (query : TaskQueryDto) : Option (CursorPage Id TaskDto) :=
  match ((TaskService.list ilike rt workspaceId boardId query).run (env i) (.start (dbs i))).1 with
  | .ok page => some page
  | .error _ => none

variable {ilike rt workspaceId boardId env dbs filters limit}

open TaskService

theorem serves_list (hlim : 0 < limit) (hids : ∀ i, ∀ t ∈ rows TaskRow (dbs i), t.id ≠ []) :
    Serves TaskRow.id TaskDto.id limit truthy
      (fun i cursor => served ilike rt workspaceId boardId env dbs i
        { filters with limit := some limit, cursor := cursor.filter truthy })
      (fun i => matching ilike rt boardId filters (dbs i)) fun i => listedTask (dbs i) where
  limit_pos := hlim
  nodup i := (nodup_ids TaskRow (dbs i)).sublist (List.filter_sublist.map TaskRow.id)
  keys_truthy i t ht := truthy_iff.mpr (hids i t (List.mem_filter.mp ht).1)
  key_map _ _ := rfl
  answers i cursor hcursor := by
    have hsent : (cursor.filter truthy).filter truthy = cursor := by
      cases cursor with
      | none => rfl
      | some c => simp [hcursor c rfl]
    unfold served
    rcases hrun : (TaskService.list ilike rt workspaceId boardId
      { filters with limit := some limit, cursor := cursor.filter truthy }).run (env i)
        (.start (dbs i)) with ⟨r, w'⟩
    cases r with
    | error e => exact .inl rfl
    | ok page =>
      right
      have hpage := run_list_ok hrun
      simp only [hsent] at hpage
      simp only [hpage]
      rfl

/-- For every schedule of changes between the requests: the tasks delivered are in ascending order
of their ids, each read at one of the pages; one that matches at every page read is delivered
exactly once; once no task is added the loop comes to its end; and without changes it delivers the
sorted list of what matches, whatever the limit. -/
theorem fetchAllBoardTasks_exact (hlim : 0 < limit)
    (hids : ∀ i, ∀ t ∈ rows TaskRow (dbs i), t.id ≠ []) :
    let result := fetchAllBoardTasks (served ilike rt workspaceId boardId env dbs) filters limit
    let found := fun i => matching ilike rt boardId filters (dbs i)
    (∀ n items, ((∃ cursor, result n = .going cursor items) ∨ result n = .returned items) →
      (items.Pairwise fun t t' => t.id < t'.id) ∧
        ∀ t ∈ items, ∃ i < n, ∃ row ∈ found i, t = listedTask (dbs i) row) ∧
    (∀ n cursor items items', result n = .going cursor items → result (n + 1) = .returned items' →
      ∀ id, (∀ i ≤ n, ∃ row ∈ found i, row.id = id) → (items'.map TaskDto.id).count id = 1) ∧
    (∀ n₀, (∀ i, n₀ ≤ i → ∀ row ∈ rows TaskRow (dbs (i + 1)), ∃ row' ∈ rows TaskRow (dbs i),
        row'.id = row.id) →
      ∃ n, (∃ items, result n = .returned items) ∨ result n = .thrown ∧
        ∃ i < n, ∃ query, served ilike rt workspaceId boardId env dbs i query = none) ∧
    ∀ db, (∀ i, dbs i = db) → ∀ n items, result n = .returned items →
      items = (sortBy TaskRow.id (matching ilike rt boardId filters db)).map (listedTask db) := by
  have hserves := @serves_list ilike rt workspaceId boardId env dbs filters limit hlim hids
  refine ⟨fun n items h => drain_sound hserves h, ?_, ?_, ?_⟩
  · intro n cursor items items' hgoing hret id hstays
    have hholds := drain_complete hserves hgoing hret
    obtain ⟨t, ht, hid⟩ := hholds.complete id trivial fun i hi => hstays i (by omega)
    have hnd : (items'.map TaskDto.id).Nodup :=
      List.pairwise_map.mpr (hholds.sorted.imp fun h => ne_of_lt h)
    exact List.count_eq_one_of_mem hnd (hid ▸ List.mem_map_of_mem ht)
  · intro n₀ hstop
    have hkeys : ∀ i, ∀ t ∈ matching ilike rt boardId filters (dbs i),
        t.id ∈ (rows TaskRow (dbs i)).map TaskRow.id :=
      fun i t ht => List.mem_map_of_mem (List.mem_filter.mp ht).1
    have hsub : ∀ i, n₀ ≤ i → (rows TaskRow (dbs (i + 1))).map TaskRow.id ⊆
        (rows TaskRow (dbs i)).map TaskRow.id := by
      intro i hi id hid
      obtain ⟨row, hrow, rfl⟩ := List.mem_map.mp hid
      obtain ⟨row', hrow', heq⟩ := hstop i hi row hrow
      exact heq ▸ List.mem_map_of_mem hrow'
    obtain ⟨n, hret | hthrown⟩ := drain_terminates hserves hkeys hsub
    · exact ⟨n, .inl hret⟩
    · obtain ⟨i, hi, cursor, hnone⟩ := drain_thrown hserves hthrown
      exact ⟨n, .inr ⟨hthrown, i, hi, _, hnone⟩⟩
  · intro db hdbs n items hret
    refine drain_eq hserves (fun i => ?_) (fun i t => ?_) hret
    · rw [hdbs i]
    · rw [hdbs i]

/-- A board with the tasks of these ids. -/
def boardOf (ids : List Id) (hids : ids.Nodup) : Db where
  rows := .board ⟨js "b", js "w", js "Board", none, 0⟩ :: ids.map fun id =>
    .task ⟨id, js "b", js "c", js "Task", none, .medium, 1024, none, none, js "u", 0, 0⟩
  nodup := by
    rw [List.map_cons, List.map_map, List.nodup_cons]
    refine ⟨by simp [Row.key], List.pairwise_map.mpr (hids.imp fun hne heq => hne ?_)⟩
    exact (Key.mk.inj heq).2

/-- Three tasks, one of which goes after the first page. -/
def shrinking (i : Nat) : Db :=
  if i = 0 then boardOf [js "3", js "1", js "2"] (by decide) else boardOf [js "3", js "1"] (by decide)

theorem fetchAllBoardTasks_exact_shrinking :
    let result := fetchAllBoardTasks (served (fun _ _ => true) Runtime.bare (js "w") (js "b")
      (fun _ => calm) shrinking) ⟨none, none, none, none, none, none, none, none, none⟩ 1
    ∃ items, result 2 = .returned items ∧ items.map TaskDto.id = [js "1", js "3"] ∧
      items.Pairwise fun t t' => t.id < t'.id := by
  intro result
  have hids : ((result 2).result.map fun items => items.map TaskDto.id) = some [js "1", js "3"] := by
    decide +kernel
  obtain ⟨items, hresult, hitems⟩ := Option.map_eq_some_iff.mp hids
  have hret := Progress.result_eq_some hresult
  have hrows : ∀ i, ∀ t ∈ rows TaskRow (shrinking i), t.id ≠ [] := by
    intro i
    unfold shrinking
    split <;> decide +kernel
  exact ⟨items, hret, hitems, ((fetchAllBoardTasks_exact (by decide) hrows).1 2 items (.inr hret)).1⟩

end Drain

end Web
end Kurul
