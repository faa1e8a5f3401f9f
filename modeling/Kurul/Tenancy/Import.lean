import Kurul.Import.Writable
import Kurul.Tenancy.Scopes

/-!
# Kurul.Tenancy.Import

An import stays with the workspace: the rows of a plan name the workspace, the importer and one
another.
-/

namespace Kurul
namespace Homes

open Sql

variable {H : Homes} {workspaceId : Id}

/-- Rows that name what is of the workspace already, and rows before them. -/
theorem homed_of_refsBefore {rows : List Row} : ∀ {known : List Key}, RefsBefore known rows →
    (∀ k ∈ known, k.table ≠ .user → H.home k = some workspaceId) →
    (∀ v ∈ rows, H.home v.key = some workspaceId) → ∀ v ∈ rows, H.Homed v := by
  induction rows with
  | nil => exact fun _ _ _ v hv => by cases hv
  | cons row rest ih =>
    intro known h hknown hrows v hv
    have hrow := hrows row List.mem_cons_self
    rcases List.mem_cons.mp hv with rfl | hv
    · exact fun r hr hne => (hknown r.1 (h.1 r hr) hne).trans hrow.symm
    · refine ih h.2 (fun k hk hne => ?_) (fun u hu => hrows u (List.mem_cons_of_mem _ hu)) v hv
      rcases List.mem_append.mp hk with hk | hk
      · exact hknown k hk hne
      · rw [List.mem_singleton.mp hk]
        exact hrow

section Plan

variable {rt : Runtime} {actorId : Id} {now : Instant} {plan : TrelloImportPlan}
  (hplan : plan.Writable rt actorId) (hids : ∀ i ∈ plan.ids, H.Draws workspaceId i)

include hids

omit hplan in
theorem home_of_plan {v : Row} (hv : v ∈ plan.rows workspaceId now) :
    H.home v.key = some workspaceId := by
  have hid : v.key.id ∈ plan.ids :=
    rows_ids.mem_iff.mp (List.mem_map_of_mem hv)
  have htable : v.key.table.personal = false ∧ v.key.table ≠ .workspace := by
    simp only [TrelloImportPlan.rows, List.mem_append, List.mem_cons, List.mem_map] at hv
    rcases hv with (((((((rfl | ⟨_, _, rfl⟩) | ⟨_, _, rfl⟩) | ⟨_, _, rfl⟩) | ⟨_, _, rfl⟩) |
      ⟨_, _, rfl⟩) | ⟨_, _, rfl⟩) | ⟨_, _, rfl⟩) <;> exact ⟨rfl, by simp [Row.key]⟩
  exact hids _ hid v.key.table htable.1 htable.2

include hplan

/-- The rows of a plan are the workspace's to write. -/
theorem of_plan {R : Type} [Model R] {r : R} (hr : Model.row r ∈ plan.rows workspaceId now) :
    H.Of workspaceId r := by
  have hhome := home_of_plan hids hr
  rw [Model.key_row] at hhome
  refine ⟨hhome, homed_of_refsBefore (rows_refs hplan)
    (fun k hk hne => ?_) (fun v hv => home_of_plan hids hv) _ hr⟩
  simp only [List.mem_cons, List.not_mem_nil, or_false] at hk
  rcases hk with rfl | rfl
  · exact H.workspace workspaceId
  · exact absurd rfl hne

end Plan

theorem stays_forEach {T : Type} {f : T → Tx kurul Unit} (items : List T)
    (hf : ∀ item ∈ items, (f item).Stays H.tenants workspaceId fun _ => True) :
    (forEach f items).Stays H.tenants workspaceId fun _ => True := by
  induction items with
  | nil => trivial
  | cons item rest ih =>
    exact (hf item List.mem_cons_self).bind fun _ _ =>
      ih fun item' hitem => hf item' (List.mem_cons_of_mem _ hitem)

theorem mem_of_chunked {T : Type} {rows chunk : List T} (h : chunk ∈ chunked rows importChunkSize) {t : T}
    (ht : t ∈ chunk) : t ∈ rows := by
  have hsize : 0 < importChunkSize := by decide
  rw [← chunked_flatten rows hsize]
  exact List.mem_flatten_of_mem h ht

theorem stays_createChunks {T R : Type} [Model R] (hR : Model.table R ≠ .workspace) (row : T → R)
    (rows : List T) (h : ∀ t ∈ rows, H.Of workspaceId (row t)) :
    (createChunks row rows).Stays H.tenants workspaceId fun _ => True :=
  stays_forEach _ fun chunk hchunk => (stays_createMany hR fun r hr => by
    obtain ⟨t, ht, rfl⟩ := List.mem_map.mp hr
    exact h t (mem_of_chunked hchunk ht)).bind fun _ _ => trivial

theorem stays_createLabelChunks (labels : List PlannedLabel)
    (h : ∀ l ∈ labels, H.Of workspaceId l.row) :
    (createLabelChunks labels).Stays H.tenants workspaceId fun _ => True :=
  stays_forEach _ fun chunk hchunk => stays_throwIf.bind fun _ _ =>
    (stays_createMany (by decide) fun r hr => by
      obtain ⟨l, hl, rfl⟩ := List.mem_map.mp hr
      exact h l (mem_of_chunked hchunk hl)).bind fun _ _ => trivial

section Board

variable {rt : Runtime} {actorId : Id} {plan : TrelloImportPlan}

/-- The rows of a plan, kind by kind. -/
theorem mem_planRows {now : Instant} {v : Row} : v ∈ plan.rows workspaceId now ↔
    v = .board (plan.board.row workspaceId now) ∨ v ∈ plan.columns.map (fun c => .column c.row) ∨
      v ∈ plan.labels.map (fun l => .label l.row) ∨ v ∈ plan.tasks.map (fun t => .task (t.row now)) ∨
      v ∈ plan.taskLabels.map .taskLabel ∨ v ∈ plan.checklists.map .checklist ∨
      v ∈ plan.checklistItems.map .checklistItem ∨
      v ∈ plan.attachments.map fun a => .attachment (a.row now) := by
  simp only [TrelloImportPlan.rows, List.mem_append, List.mem_cons, or_assoc]

theorem stays_writePlan (hplan : plan.Writable rt actorId) (hids : ∀ i ∈ plan.ids, H.Draws workspaceId i)
    (now : Instant) : (writePlan workspaceId now plan).Stays H.tenants workspaceId fun _ => True := by
  have hof : ∀ {R : Type} [Model R] (r : R), Model.row r ∈ plan.rows workspaceId now →
      H.Of workspaceId r := fun _ hr => of_plan hplan hids hr
  refine (stays_create (by decide) (hof (plan.board.row workspaceId now)
    (mem_planRows.mpr (.inl rfl)))).bind fun _ _ => ?_
  refine (stays_createChunks (by decide) PlannedColumn.row plan.columns fun c hc => hof c.row
    (mem_planRows.mpr (.inr (.inl (List.mem_map_of_mem hc))))).bind fun _ _ => ?_
  refine (stays_createLabelChunks plan.labels fun l hl => hof l.row
    (mem_planRows.mpr (.inr (.inr (.inl (List.mem_map_of_mem hl)))))).bind fun _ _ => ?_
  refine (stays_createChunks (by decide) (PlannedTask.row now) plan.tasks fun t ht => hof (t.row now)
    (mem_planRows.mpr (.inr (.inr (.inr (.inl (List.mem_map_of_mem ht))))))).bind fun _ _ => ?_
  refine (stays_createChunks (R := TaskLabelRow) (by decide) id plan.taskLabels fun l hl => hof l
    (mem_planRows.mpr (.inr (.inr (.inr (.inr (.inl (List.mem_map_of_mem hl)))))))).bind fun _ _ => ?_
  refine (stays_createChunks (R := ChecklistRow) (by decide) id plan.checklists fun c hc => hof c
    (mem_planRows.mpr (.inr (.inr (.inr (.inr (.inr (.inl (List.mem_map_of_mem hc))))))))).bind
      fun _ _ => ?_
  refine (stays_createChunks (R := ChecklistItemRow) (by decide) id plan.checklistItems fun i hi =>
    hof i (mem_planRows.mpr (.inr (.inr (.inr (.inr (.inr (.inr
      (.inl (List.mem_map_of_mem hi)))))))))).bind fun _ _ => ?_
  exact stays_createChunks (by decide) (PlannedAttachment.row now) plan.attachments fun a ha =>
    hof (a.row now) (mem_planRows.mpr (.inr (.inr (.inr (.inr (.inr (.inr (.inr
      (List.mem_map_of_mem ha)))))))))

/-- The identifiers of the plan are the workspace's; those of the entry are drawn like any other. -/
theorem stays_importBoard (hurl : rt.UrlRoundTrip) {uuidv7 : Nat → Id} (hinj : Function.Injective uuidv7)
    {parsed : Option Json} (hids : ∀ read, parseTrelloExport parsed = .ok read →
      ∀ i ∈ (planTrelloImport rt uuidv7 actorId read).ids, H.Draws workspaceId i) :
    (importBoard rt uuidv7 workspaceId actorId parsed).Stays H.tenants workspaceId fun _ => True := by
  unfold importBoard
  cases hread : parseTrelloExport parsed with
  | error e => trivial
  | ok read =>
    have hplan : (planTrelloImport rt uuidv7 actorId read).Writable rt actorId := by
      obtain ⟨p⟩ : Nonempty (Planned rt actorId read _) := planned hinj read
      exact planned_writable hurl p
    have hbody : (importBody workspaceId actorId (planTrelloImport rt uuidv7 actorId read)).Stays
        H.tenants workspaceId fun _ => True :=
      Tx.Stays.now.bind fun now _ => (stays_writePlan hplan (hids read hread) now).bind fun _ _ =>
        stays_recordOther.bind fun _ _ => trivial
    exact hbody.transaction.bind fun _ _ => trivial

end Board
end Homes
end Kurul
