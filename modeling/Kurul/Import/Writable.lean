import Kurul.Import.Accounting
import Kurul.Import.TrelloImportService

/-!
# Kurul.Import.Writable

Every plan can be written: its identifiers are distinct, its rows name rows written before them, and
no row breaks a constraint of the schema.

* `planned_writable`   — the plan, kind by kind.
* `rows_refs`          — each reference of a row is to the workspace, the actor or an earlier row.
* `insertMany_rows`    — the database refuses none of the rows.
* `import_writable`    — all of it, and the inserts the service makes.
-/

namespace Kurul

open Sql

structure TrelloImportPlan.Writable (rt : Runtime) (actorId : Id) (plan : TrelloImportPlan) : Prop where
  ids : plan.ids.Nodup
  columns : ∀ c ∈ plan.columns, c.boardId = plan.board.id ∧ isUnnamed c.name = false
  labels : ∀ l ∈ plan.labels, l.boardId = plan.board.id
  tasks : ∀ t ∈ plan.tasks, t.boardId = plan.board.id ∧ t.columnId ∈ plan.columns.map PlannedColumn.id ∧
    t.createdById = actorId ∧ isUnnamed t.title = false
  taskLabels : ∀ r ∈ plan.taskLabels, r.taskId ∈ plan.tasks.map PlannedTask.id ∧
    r.labelId ∈ plan.labels.map PlannedLabel.id
  taskLabels_nodup : (plan.taskLabels.map fun r => (r.taskId, r.labelId)).Nodup
  checklists : ∀ c ∈ plan.checklists, c.taskId ∈ plan.tasks.map PlannedTask.id ∧
    isUnnamed c.title = false
  checklistItems : ∀ i ∈ plan.checklistItems, i.checklistId ∈ plan.checklists.map ChecklistRow.id ∧
    isUnnamed i.content = false
  attachments : ∀ a ∈ plan.attachments, a.taskId ∈ plan.tasks.map PlannedTask.id ∧
    a.uploadedById = actorId ∧ a.kind = .link ∧
    (∃ u, rt.parseUrl a.url = some u ∧ u.protocol ∈ [js "http:", js "https:"]) ∧
    a.storageKey = none ∧ a.mimeType = none ∧ a.size = none

theorem classifyUrl_ok {rt : Runtime} (hurl : rt.UrlRoundTrip) {raw url : JsString}
    (h : classifyUrl rt raw = .ok url) :
    ∃ u, rt.parseUrl url = some u ∧ u.protocol ∈ [js "http:", js "https:"] := by
  unfold classifyUrl at h
  split at h
  · cases h
  · rename_i parsed hparsed
    split at h
    · rename_i hscheme
      obtain ⟨u, hu, hprotocol⟩ := hurl _ _ hparsed
      rw [← Except.ok.inj h]
      exact ⟨u, hu, hprotocol ▸ hscheme⟩
    · cases h

/-- Pairs under distinct first components, distinct under each, are distinct. -/
theorem nodup_flatMap_pairs {P α β ρ : Type} {parts : List P} (key : P → α) {items : P → List ρ}
    {f : ρ → α × β} (hnd : (parts.map key).Nodup) (hown : ∀ p ∈ parts, ∀ r ∈ items p, (f r).1 = key p)
    (hitems : ∀ p ∈ parts, ((items p).map f).Nodup) : ((parts.flatMap items).map f).Nodup := by
  rw [List.map_flatMap, List.nodup_flatMap]
  refine ⟨hitems, ?_⟩
  refine (List.pairwise_map.mp hnd).imp_of_mem fun {p q} hp hq hne => ?_
  intro x hxp hxq
  obtain ⟨r, hr, rfl⟩ := List.mem_map.mp hxp
  obtain ⟨r', hr', heq⟩ := List.mem_map.mp hxq
  exact hne ((hown p hp r hr).symm.trans ((congrArg Prod.fst heq).symm.trans (hown q hq r' hr')))

section Planned

variable {rt : Runtime} {actorId : Id} {read : TrelloExportReadResult} {plan : TrelloImportPlan}

theorem planned_writable (hurl : rt.UrlRoundTrip) (p : Planned rt actorId read plan) :
    plan.Writable rt actorId := by
  have htask : ∀ part ∈ p.cards, part.task.id ∈ plan.tasks.map PlannedTask.id := by
    intro part hpart
    rw [p.tasks_eq]
    exact List.mem_map_of_mem (List.mem_map_of_mem hpart)
  refine ⟨p.ids_nodup, fun c hc => ?_, p.labels_board, fun t ht => ?_, fun r hr => ?_, ?_,
    fun c hc => ?_, fun i hi => ?_, fun a ha => ?_⟩
  · obtain ⟨list, hlist, hof⟩ := exists_of_forall₂_right p.columns_of hc
    have hlive := (List.mem_filter.mp (p.lists_perm.mem_iff.mp hlist)).2
    simp only [TrelloList.live, Bool.and_eq_true, Bool.not_eq_true'] at hlive
    exact ⟨hof.boardId, by rw [hof.name]; exact hlive.2⟩
  · rw [p.tasks_eq] at ht
    obtain ⟨part, hpart, rfl⟩ := List.mem_map.mp ht
    exact ⟨part.board, p.task_column part hpart, part.creator,
      by rw [part.title]; exact p.cards_named part hpart⟩
  · rw [p.taskLabels_eq] at hr
    obtain ⟨part, hpart, hr⟩ := List.mem_flatMap.mp hr
    obtain ⟨hof, k, hk⟩ := part.labels r hr
    exact ⟨hof ▸ htask part hpart, p.label_ids k _ hk⟩
  · rw [p.taskLabels_eq]
    refine nodup_flatMap_pairs (fun part => part.task.id) ?_
      (fun part _ r hr => (part.labels r hr).1) fun part _ => ?_
    · have := p.tasks_nodup
      rwa [p.tasks_eq, List.map_map] at this
    · exact List.Nodup.of_map Prod.snd (by rw [List.map_map]; exact part.labels_nodup)
  · rw [p.checklists_eq] at hc
    obtain ⟨part, hpart, rfl⟩ := List.mem_map.mp hc
    exact ⟨p.checklist_task part hpart, by rw [part.title]; exact p.checklists_named part hpart⟩
  · rw [p.checklistItems_eq] at hi
    obtain ⟨part, hpart, hi⟩ := List.mem_flatMap.mp hi
    obtain ⟨hof, hnamed⟩ := part.items_of i hi
    refine ⟨?_, hnamed⟩
    rw [hof, p.checklists_eq]
    exact List.mem_map_of_mem (List.mem_map_of_mem hpart)
  · rw [p.attachments_eq] at ha
    obtain ⟨part, hpart, ha⟩ := List.mem_flatMap.mp ha
    have hlink := part.links a ha
    obtain ⟨raw, hraw⟩ := hlink.url
    exact ⟨hlink.taskId ▸ htask part hpart, hlink.uploader, hlink.kind, classifyUrl_ok hurl hraw,
      hlink.storageKey, hlink.mimeType, hlink.size⟩

end Planned
/-! ## References -/

/-- Each reference of a row is to a known key, or to a row before it. -/
def RefsBefore : (known : List Key) → List Row → Prop
  | _, [] => True
  | known, row :: rest => (∀ ref ∈ row.refs, ref.1 ∈ known) ∧ RefsBefore (known ++ [row.key]) rest

/-- Rows that need nothing of one another. -/
theorem refsBefore_of_forall {known : List Key} {rows : List Row}
    (h : ∀ row ∈ rows, ∀ ref ∈ row.refs, ref.1 ∈ known) : RefsBefore known rows := by
  induction rows generalizing known with
  | nil => trivial
  | cons row rest ih =>
    refine ⟨h row List.mem_cons_self, ih fun r hr ref href => ?_⟩
    exact List.mem_append_left _ (h r (List.mem_cons_of_mem _ hr) ref href)

/-- Rows of one more kind, which name known keys and rows of the kinds before. -/
theorem RefsBefore.kind {known : List Key} {a b : List Row} (ha : RefsBefore known a)
    (hb : ∀ row ∈ b, ∀ ref ∈ row.refs, ref.1 ∈ known ∨ ∃ v ∈ a, v.key = ref.1) :
    RefsBefore known (a ++ b) := by
  induction a generalizing known with
  | nil =>
    refine refsBefore_of_forall fun row hrow ref href => ?_
    exact (hb row hrow ref href).resolve_right (by simp)
  | cons v rest ih =>
    refine ⟨ha.1, ih ha.2 fun row hrow ref href => ?_⟩
    rcases hb row hrow ref href with hk | ⟨u, hu, hk⟩
    · exact .inl (List.mem_append_left _ hk)
    · rcases List.mem_cons.mp hu with rfl | hu
      · exact .inl (List.mem_append_right _ (by simp [hk]))
      · exact .inr ⟨u, hu, hk⟩

/-- Rows under fresh keys, their references known or before them, are inserted one after the
other. -/
theorem insertManyRefusal_eq_none {rows : List Row} : ∀ {known : List Key} {db : Db},
    RefsBefore known rows → (∀ k ∈ known, (db.get? k).isSome = true) →
    (rows.map Row.key).Nodup → (∀ r ∈ rows, db.get? r.key = none) →
    (∀ r ∈ rows, ∀ u ∈ db.rows, u.clashes r = false) →
    rows.Pairwise (fun u r => u.clashes r = false) →
    (∀ t, Row.task t ∈ rows → ∀ v, v ∈ db.rows ∨ v ∈ rows → v.key = ⟨.column, t.columnId⟩ →
      ∃ c, v = .column c ∧ c.boardId = t.boardId) →
    insertManyRefusal rows db = none := by
  induction rows with
  | nil => intros; rfl
  | cons r rest ih =>
    intro known db hrefs hknown hnd hfresh hclash hpair hcol
    rw [List.map_cons, List.nodup_cons] at hnd
    rw [List.pairwise_cons] at hpair
    have hnone := hfresh r List.mem_cons_self
    have hunique : r.unique db = true := by
      refine List.all_eq_true.mpr fun u hu => ?_
      simp [hclash r List.mem_cons_self u hu]
    have hresolves : r.resolves db = true := by
      refine Bool.and_eq_true_iff.mpr ⟨List.all_eq_true.mpr fun ref href => hknown _ (hrefs.1 ref href), ?_⟩
      cases r with
      | task t =>
        obtain ⟨v, hv⟩ := Option.isSome_iff_exists.mp
          (hknown _ (hrefs.1 (⟨.column, t.columnId⟩, .cascade) (by simp [Row.refs])))
        obtain ⟨hmem, hkey⟩ := Store.get?_eq_some_iff.mp hv
        obtain ⟨c, rfl, hboard⟩ := hcol t List.mem_cons_self v (.inl hmem) hkey
        simp [Row.composite, hv, hboard]
      | _ => rfl
    have hins : insertRefusal r db = none := by
      simp [insertRefusal, hnone, hunique, hresolves]
    simp only [insertManyRefusal, hins]
    refine ih hrefs.2 (fun k hk => ?_) hnd.2 (fun q hq => ?_) (fun q hq u hu => ?_) hpair.2
      (fun t ht v hv => ?_)
    · rw [Store.get?_put]
      split
      · rfl
      · rename_i hne
        rcases List.mem_append.mp hk with hk | hk
        · exact hknown k hk
        · exact absurd (List.mem_singleton.mp hk) hne
    · rw [Store.get?_put, if_neg]
      · exact hfresh q (List.mem_cons_of_mem _ hq)
      · intro heq
        have heq : q.key = r.key := heq
        exact hnd.1 (heq ▸ List.mem_map_of_mem hq)
    · rcases Store.mem_rows_put.mp hu with rfl | ⟨hu, _⟩
      · exact hpair.1 q hq
      · exact hclash q (List.mem_cons_of_mem _ hq) u hu
    · refine hcol t (List.mem_cons_of_mem _ ht) v ?_
      rcases hv with hv | hv
      · rcases Store.mem_rows_put.mp hv with rfl | ⟨hv, _⟩
        · exact .inr List.mem_cons_self
        · exact .inl hv
      · exact .inr (List.mem_cons_of_mem _ hv)

/-- The task and the label a row joins. -/
def Row.labelPair : Row → Option (Id × Id)
  | .taskLabel r => some (r.taskId, r.labelId)
  | _ => none

section Rows

variable {rt : Runtime} {actorId workspaceId : Id} {now : Instant} {plan : TrelloImportPlan}
  (h : plan.Writable rt actorId)

include h

/-- The rows of a plan name the workspace, the actor and rows before them. -/
theorem rows_refs : RefsBefore [⟨.workspace, workspaceId⟩, ⟨.user, actorId⟩]
    (plan.rows workspaceId now) := by
  have hcolumns : RefsBefore [⟨.workspace, workspaceId⟩, ⟨.user, actorId⟩]
      (.board (plan.board.row workspaceId now) :: plan.columns.map fun c => .column c.row) := by
    refine ⟨by simp [Row.refs, PlannedBoard.row], refsBefore_of_forall fun row hrow ref href => ?_⟩
    obtain ⟨c, hc, rfl⟩ := List.mem_map.mp hrow
    obtain rfl := List.mem_singleton.mp href
    simp [PlannedColumn.row, (h.columns c hc).1, Row.key, PlannedBoard.row]
  have hlabels := hcolumns.kind (b := plan.labels.map fun l => .label l.row)
    fun row hrow ref href => by
      obtain ⟨l, hl, rfl⟩ := List.mem_map.mp hrow
      obtain rfl := List.mem_singleton.mp href
      exact .inr ⟨_, List.mem_cons_self, by rw [PlannedLabel.row, h.labels l hl]; rfl⟩
  have htasks := hlabels.kind (b := plan.tasks.map fun t => .task (t.row now))
    fun row hrow ref href => by
      obtain ⟨t, ht, rfl⟩ := List.mem_map.mp hrow
      obtain ⟨hboard, hcolumn, hcreator, _⟩ := h.tasks t ht
      obtain ⟨c, hc, hid⟩ := List.mem_map.mp hcolumn
      simp only [Row.refs, List.mem_cons, List.not_mem_nil, or_false] at href
      rcases href with rfl | rfl | rfl
      · exact .inr ⟨_, List.mem_append_left _ List.mem_cons_self,
          by rw [PlannedTask.row, hboard]; rfl⟩
      · exact .inr ⟨.column c.row, List.mem_append_left _
          (List.mem_cons_of_mem _ (List.mem_map_of_mem hc)), by rw [PlannedTask.row, ← hid]; rfl⟩
      · exact .inl (by simp [PlannedTask.row, hcreator])
  have htaskRow : ∀ {a b : List Row} {id : Id}, id ∈ plan.tasks.map PlannedTask.id →
      ∃ v ∈ a ++ (plan.tasks.map fun t => Row.task (t.row now)) ++ b, v.key = ⟨.task, id⟩ := by
    intro a b id hid
    obtain ⟨t, ht, rfl⟩ := List.mem_map.mp hid
    exact ⟨_, List.mem_append_left _ (List.mem_append_right _ (List.mem_map_of_mem ht)), rfl⟩
  have htaskLabels := htasks.kind (b := plan.taskLabels.map .taskLabel) fun row hrow ref href => by
    obtain ⟨r, hr, rfl⟩ := List.mem_map.mp hrow
    obtain ⟨htask, hlabel⟩ := h.taskLabels r hr
    obtain ⟨l, hl, hid⟩ := List.mem_map.mp hlabel
    simp only [Row.refs, List.mem_cons, List.not_mem_nil, or_false] at href
    rcases href with rfl | rfl
    · obtain ⟨t, ht, hid⟩ := List.mem_map.mp htask
      exact .inr ⟨.task (t.row now), List.mem_append_right _ (List.mem_map_of_mem ht),
        by rw [← hid]; rfl⟩
    · exact .inr ⟨.label l.row, List.mem_append_left _
        (List.mem_append_right _ (List.mem_map_of_mem hl)), by rw [← hid]; rfl⟩
  have hchecklists := htaskLabels.kind (b := plan.checklists.map .checklist)
    fun row hrow ref href => by
      obtain ⟨c, hc, rfl⟩ := List.mem_map.mp hrow
      obtain rfl := List.mem_singleton.mp href
      exact .inr (htaskRow (h.checklists c hc).1)
  have hitems := hchecklists.kind (b := plan.checklistItems.map .checklistItem)
    fun row hrow ref href => by
      obtain ⟨i, hi, rfl⟩ := List.mem_map.mp hrow
      obtain rfl := List.mem_singleton.mp href
      obtain ⟨c, hc, hid⟩ := List.mem_map.mp (h.checklistItems i hi).1
      exact .inr ⟨.checklist c, List.mem_append_right _ (List.mem_map_of_mem hc), by rw [← hid]; rfl⟩
  have hattachments := hitems.kind (b := plan.attachments.map fun a => .attachment (a.row now))
    fun row hrow ref href => by
      obtain ⟨a, ha, rfl⟩ := List.mem_map.mp hrow
      obtain ⟨htask, huploader, _⟩ := h.attachments a ha
      simp only [Row.refs, List.mem_cons, List.not_mem_nil, or_false] at href
      rcases href with rfl | rfl
      · obtain ⟨v, hv, hkey⟩ := htaskRow htask
        refine .inr ⟨v, ?_, hkey⟩
        exact List.mem_append_left _ (List.mem_append_left _ hv)
      · exact .inl (by simp [PlannedAttachment.row, huploader])
  exact hattachments

omit h in
theorem rows_ids : ((plan.rows workspaceId now).map fun v => v.key.id).Perm plan.ids := by
  simp only [TrelloImportPlan.rows, TrelloImportPlan.ids, TaskRows.ids, List.map_append, List.map_cons,
    List.map_map, List.append_assoc, List.cons_append]
  refine List.Perm.cons _ (List.Perm.append_left _ (List.Perm.append_left _
    (List.Perm.append_left _ (List.Perm.append_left _ ?_))))
  -- the attachments are written last
  exact (List.append_assoc _ _ _ ▸ List.perm_append_comm)

omit h in
theorem rows_labelPair : (plan.rows workspaceId now).filterMap Row.labelPair =
    plan.taskLabels.map fun r => (r.taskId, r.labelId) := by
  simp [TrelloImportPlan.rows, List.filterMap_cons, List.filterMap_map, Function.comp_def, Row.labelPair]

omit h in
theorem label_clashes {u v : Row} (hv : v ∈ plan.rows workspaceId now) (hc : u.clashes v = true) :
    ∃ a b, u = .taskLabel a ∧ b ∈ plan.taskLabels ∧ v = .taskLabel b ∧ a.taskId = b.taskId ∧
      a.labelId = b.labelId := by
  simp only [TrelloImportPlan.rows, List.mem_append, List.mem_cons, List.mem_map] at hv
  obtain ((((((rfl | ⟨c, _, rfl⟩) | ⟨l, _, rfl⟩) | ⟨t, _, rfl⟩) | ⟨r, hr, rfl⟩) | ⟨c, _, rfl⟩) |
    ⟨i, _, rfl⟩) | ⟨a, _, rfl⟩ := hv
  case inl.inl.inl.inr =>
    cases u with
    | taskLabel a =>
      simp only [Row.clashes, Bool.and_eq_true, decide_eq_true_eq] at hc
      exact ⟨a, r, rfl, hr, rfl, hc⟩
    | _ => cases hc
  all_goals cases u <;> cases hc

/-- Where the workspace and the actor are there and the identifiers are new, the database takes
every row of the plan. -/
theorem insertMany_rows {db : Db} (hworkspace : (db.get? ⟨.workspace, workspaceId⟩).isSome = true)
    (hactor : (db.get? ⟨.user, actorId⟩).isSome = true)
    (hdb : ∀ v ∈ db.rows, v.resolves db = true) (hnew : ∀ v ∈ db.rows, v.key.id ∉ plan.ids) :
    insertManyRefusal (plan.rows workspaceId now) db = none := by
  have hids : ∀ v ∈ plan.rows workspaceId now, v.key.id ∈ plan.ids := fun v hv =>
    rows_ids.mem_iff.mp (List.mem_map_of_mem (f := fun v : Row => v.key.id) hv)
  have hnd : ((plan.rows workspaceId now).map fun v => v.key.id).Nodup :=
    rows_ids.nodup_iff.mpr h.ids
  have hfresh : ∀ v ∈ plan.rows workspaceId now, db.get? v.key = none := by
    intro v hv
    refine Store.get?_eq_none_iff.mpr fun u hu hkey => hnew u hu ?_
    rw [← keyed_key, hkey]
    exact hids v hv
  have hkeys : ((plan.rows workspaceId now).map Row.key).Nodup := by
    refine List.Nodup.of_map Key.id ?_
    rwa [List.map_map]
  refine insertManyRefusal_eq_none (rows_refs h) ?_ hkeys hfresh ?_ ?_ ?_
  · simp [hworkspace, hactor]
  · -- a row of the database that clashed would name a task of the plan
    intro v hv u hu
    by_contra hc
    obtain ⟨a, b, rfl, hb, rfl, htask, _⟩ := label_clashes hv (by simpa using hc)
    have hresolves := hdb _ hu
    simp only [Row.resolves, Row.refs, List.all_cons, Bool.and_eq_true] at hresolves
    obtain ⟨w, hw⟩ := Option.isSome_iff_exists.mp hresolves.1.1
    obtain ⟨hmem, hkey⟩ := Store.get?_eq_some_iff.mp hw
    refine hnew w hmem ?_
    rw [← keyed_key, hkey, htask]
    obtain ⟨t, ht, hid⟩ := List.mem_map.mp (h.taskLabels b hb).1
    rw [← hid]
    exact hids (.task (t.row now)) (by simp [TrelloImportPlan.rows]; grind)
  · have hpairs : ((plan.rows workspaceId now).filterMap Row.labelPair).Nodup := by
      rw [rows_labelPair]
      exact h.taskLabels_nodup
    refine (List.pairwise_filterMap.mp hpairs).imp_of_mem fun {u v} _ hv hne => ?_
    by_contra hc
    obtain ⟨a, b, rfl, _, rfl, htask, hlabel⟩ := label_clashes hv (by simpa using hc)
    exact hne _ rfl _ rfl (by rw [htask, hlabel])
  · -- the column of a task is a column of the plan
    intro t ht v hv hkey
    obtain ⟨p, hp, rfl⟩ : ∃ p ∈ plan.tasks, p.row now = t := by
      simpa [TrelloImportPlan.rows] using ht
    obtain ⟨hboard, hcolumn, _⟩ := h.tasks p hp
    obtain ⟨c, hc, hid⟩ := List.mem_map.mp hcolumn
    have hrow : Row.column c.row ∈ plan.rows workspaceId now := by
      simp [TrelloImportPlan.rows]
      grind
    rcases hv with hv | hv
    · refine absurd (hids _ hrow) ?_
      have := hnew v hv
      rw [show v.key = _ from hkey, PlannedTask.row, ← hid] at this
      exact this
    · have heq : v = .column c.row :=
        List.inj_on_of_nodup_map hkeys hv hrow (hkey.trans (by rw [PlannedTask.row, ← hid]; rfl))
      exact ⟨c.row, heq, (h.columns c hc).1.trans hboard.symm⟩

end Rows

/-! ## The import -/

/-- Some activity is all that recording one writes. -/
theorem record_trace (env : Env kurul) (w : World kurul) (input : RecordActivityInput) :
    ∃ a, (do let _ ← ActivityService.record input; return : Tx kurul Unit).trace env w <+:
        puts [.activity a] ∧
      ∀ r w', (do let _ ← ActivityService.record input; return : Tx kurul Unit).run env w = (.ok r, w') →
        (do let _ ← ActivityService.record input; return : Tx kurul Unit).trace env w =
          puts [.activity a] :=
  ⟨_, (traces_create _).bind (fun _ => Tx.Traces.ret ()) env
    { w with ids := w.ids + 1, ticks := w.ticks + 1 }⟩

/-- The transaction writes the rows of the plan in their order, then one activity. -/
theorem importBody_trace (env : Env kurul) (w : World kurul) (workspaceId actorId : Id)
    (plan : TrelloImportPlan) :
    ∃ now a, (importBody workspaceId actorId plan).trace env w <+:
        puts (plan.rows workspaceId now ++ [.activity a]) ∧
      ∀ r w', (importBody workspaceId actorId plan).run env w = (.ok r, w') →
        (importBody workspaceId actorId plan).trace env w =
          puts (plan.rows workspaceId now ++ [.activity a]) := by
  let now := env.time w.ticks
  let w₀ : World kurul := { w with ticks := w.ticks + 1 }
  obtain ⟨hpre, hall⟩ := writePlan_traces workspaceId now plan env w₀
  have htrace : (importBody workspaceId actorId plan).trace env w =
      (writePlan workspaceId now plan).trace env w₀ ++ _ :=
    Tx.trace_bind env (writePlan workspaceId now plan) _ w₀
  rcases hw : (writePlan workspaceId now plan).run env w₀ with ⟨r, w₁⟩
  rw [hw] at htrace
  cases r with
  | error e =>
    -- cut short: nothing is recorded
    let a : ActivityRow := ⟨[], workspaceId, none, actorId, .boardImported, .null, now⟩
    refine ⟨now, a, ?_, fun r w' h => ?_⟩
    · rw [puts_append]
      refine List.IsPrefix.trans ?_ (List.prefix_append _ _)
      rw [List.append_nil] at htrace
      exact htrace ▸ hpre
    · obtain ⟨_, _, h₁, h₂⟩ := Tx.run_bind_ok (p := writePlan workspaceId now plan) (w := w₀) h
      rw [hw] at h₁
      cases h₁
  | ok u =>
    obtain ⟨a, hpre', hall'⟩ := record_trace env w₁ _
    rw [hall u w₁ hw] at htrace
    refine ⟨now, a, ?_, fun r w' h => ?_⟩
    · rw [puts_append]
      exact htrace ▸ (List.prefix_append_right_inj _).mpr hpre'
    · obtain ⟨_, _, h₁, h₂⟩ := Tx.run_bind_ok (p := writePlan workspaceId now plan) (w := w₀) h
      rw [hw] at h₁
      cases h₁
      rw [puts_append, ← hall' r w' h₂]
      exact htrace

variable {rt : Runtime} {uuidv7 : Nat → Id} {actorId : Id}

/-- Every plan can be written: no row breaks a constraint, and the service sends the rows of the plan,
all of them, each after those it names. -/
theorem import_writable (hinj : Function.Injective uuidv7) (hurl : rt.UrlRoundTrip)
    (read : TrelloExportReadResult) :
    let plan := planTrelloImport rt uuidv7 actorId read
    plan.Writable rt actorId ∧
    (∀ workspaceId now,
      RefsBefore [⟨.workspace, workspaceId⟩, ⟨.user, actorId⟩] (plan.rows workspaceId now)) ∧
    (∀ workspaceId now (db : Db), (db.get? ⟨.workspace, workspaceId⟩).isSome = true →
      (db.get? ⟨.user, actorId⟩).isSome = true → (∀ v ∈ db.rows, v.resolves db = true) →
      (∀ v ∈ db.rows, v.key.id ∉ plan.ids) →
      insertManyRefusal (plan.rows workspaceId now) db = none) ∧
    (∀ {T : Type} (rows : List T), (chunked rows importChunkSize).flatten = rows) ∧
    ∀ workspaceId env w, ∃ now a,
      (importBody workspaceId actorId plan).trace env w <+:
        puts (plan.rows workspaceId now ++ [.activity a]) ∧
      ∀ r w', (importBody workspaceId actorId plan).run env w = (.ok r, w') →
        (importBody workspaceId actorId plan).trace env w =
          puts (plan.rows workspaceId now ++ [.activity a]) := by
  intro plan
  obtain ⟨p⟩ : Nonempty (Planned rt actorId read plan) := planned hinj read
  have hplan := planned_writable hurl p
  refine ⟨hplan, fun workspaceId now => rows_refs hplan, ?_, fun rows => ?_, ?_⟩
  · intro workspaceId now db hworkspace hactor hdb hnew
    exact insertMany_rows hplan hworkspace hactor hdb hnew
  · exact chunked_flatten rows (by decide)
  · intro workspaceId env w
    exact importBody_trace env w workspaceId actorId plan

/-- A runtime whose only URLs are those that start with `https://`. -/
def httpsOnly : Runtime :=
  { Runtime.bare with
    parseUrl := fun s => if (js "https://").isPrefixOf s then some ⟨js "https:", s⟩ else none }

theorem httpsOnly_roundTrip : httpsOnly.UrlRoundTrip := by
  intro s u h
  simp only [httpsOnly, Option.ite_none_right_eq_some, Option.some.injEq] at h ⊢
  obtain ⟨hs, rfl⟩ := h
  exact ⟨_, ⟨hs, rfl⟩, rfl⟩

/-- Two cards and two labels under one id, a label named twice, and a link. -/
def linkedExport : List (JsString × Json) :=
  [(js "name", .str (js "b")),
    (js "lists", .arr [.obj [(js "id", .str (js "l")), (js "name", .str (js "L"))]]),
    (js "labels", .arr [.obj [(js "id", .str (js "g")), (js "name", .str (js "G"))],
      .obj [(js "id", .str (js "g")), (js "name", .str (js "H"))]]),
    (js "cards", .arr [
      .obj [(js "id", .str (js "c")), (js "name", .str (js "C")), (js "idList", .str (js "l")),
        (js "idLabels", .arr [.str (js "g"), .str (js "g"), .str (js "h")]),
        (js "attachments", .arr [.obj [(js "url", .str (js "https://e/f"))]])],
      .obj [(js "id", .str (js "c")), (js "name", .str (js "D")), (js "idList", .str (js "l"))]])]

def linkedPlan : TrelloImportPlan :=
  planTrelloImport httpsOnly countedIds (js "u") (readExport (js "b") linkedExport)

theorem import_writable_linked :
    (linkedPlan.tasks.length = 2 ∧ linkedPlan.taskLabels.length = 1 ∧ linkedPlan.attachments.length = 1) ∧
      linkedPlan.Writable httpsOnly (js "u") ∧
      insertManyRefusal (linkedPlan.rows (js "w") 0)
        ⟨[.workspace ⟨js "w", [], []⟩, .user ⟨js "u", [], [], true, none, none, none⟩], by decide⟩ =
        none := by
  have h : linkedPlan.Writable httpsOnly (js "u") ∧ _ :=
    import_writable countedIds_injective httpsOnly_roundTrip (readExport (js "b") linkedExport)
  obtain ⟨hplan, _, hrows, _, _⟩ := h
  exact ⟨by decide +kernel, hplan, hrows (js "w") 0 _ rfl rfl (by decide) (by decide +kernel)⟩

end Kurul
