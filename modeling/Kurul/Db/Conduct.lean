import Kurul.Db.Within
import Kurul.Sql.Limits

/-!
# Kurul.Db.Conduct

What may become of the rows of a database while people work in its workspaces: what they add carries
their name, what is set once stays, and the history is kept.

* `Row.Signed`, `Row.Becomes` — a row that is added; a row that is changed.
* `conduct`                   — both, as rules for whole runs.
* `within_create` and its siblings — the statements that keep to them.
-/

namespace Kurul

open Sql

/-- Rows that may be removed again: a board and all there is on it, and notifications. -/
def Table.content : Table → Bool
  | .board | .column | .task | .taskAssignee | .label | .taskLabel | .comment | .attachment
  | .checklist | .checklistItem | .notification => true
  | _ => false

namespace Row

/-! ## What is set once -/

/-- A row without the columns that are written to later. -/
def fixed : Row → Row
  | .board r => .board { r with name := [], description := none }
  | .column r => .column { r with name := [], position := 0, color := none, category := .backlog }
  | .task r =>
    .task { r with
      columnId := []
      title := []
      description := none
      priority := .low
      position := 0
      dueDate := none
      estimatedMinutes := none
      updatedAt := 0 }
  | .label r => .label { r with name := [], color := [] }
  | .checklist r => .checklist { r with title := [], position := 0 }
  | .checklistItem r => .checklistItem { r with content := [], isDone := false, position := 0 }
  | .activity r => .activity { r with taskId := none }
  | .notification r => .notification { r with readAt := none }
  | v => v

/-- The task a history entry is about. -/
def about : Row → Option Id
  | .activity r => r.taskId
  | _ => none

/-- When a notification was read. -/
def readAt : Row → Option Instant
  | .notification r => r.readAt
  | _ => none

/-- The workspace a notification is of, and whom it is for. -/
def recipient : Row → Option (Id × Id)
  | .notification r => some (r.workspaceId, r.userId)
  | _ => none

@[simp] theorem key_fixed (v : Row) : v.fixed.key = v.key := by cases v <;> rfl

@[simp] theorem recipient_fixed (v : Row) : v.fixed.recipient = v.recipient := by cases v <;> rfl

/-! ## Rows that are added -/

variable (who : Id → Id → Prop)

/-- Added by one of those who are at work, each in a workspace: it carries that name wherever there is a
column for it, and nobody is notified of what they did themselves. -/
def Signed : Row → Prop
  | .board r => ∃ userId, who r.workspaceId userId
  | .task r => ∃ workspaceId, who workspaceId r.createdById
  | .comment r => ∃ workspaceId, who workspaceId r.userId
  | .attachment r => ∃ workspaceId, who workspaceId r.uploadedById
  | .activity r => who r.workspaceId r.userId
  | .notification r => ∃ actorId, who r.workspaceId actorId ∧ actorId ≠ r.userId
  | .usagePing r => who r.workspaceId r.userId
  | .column _ | .taskAssignee _ | .label _ | .taskLabel _ | .checklist _ | .checklistItem _ => True
  | _ => False

@[simp] theorem signed_fixed (v : Row) : v.fixed.Signed who ↔ v.Signed who := by
  cases v <;> exact Iff.rfl

/-! ## Rows that are changed -/

structure Becomes (u v : Row) : Prop where
  fixed : v.fixed = u.fixed
  /-- An entry stays when its task is deleted, without it. -/
  about : v.about = u.about ∨ v.about = none
  /-- A notification is marked read by whom it is for. -/
  readAt : v.readAt = u.readAt ∨
    v.readAt.isSome = true ∧ ∃ workspaceId userId, u.recipient = some (workspaceId, userId) ∧ who workspaceId userId

variable {who} {u v w : Row}

namespace Becomes

theorem refl (v : Row) : v.Becomes who v := ⟨rfl, .inl rfl, .inl rfl⟩

theorem key (h : u.Becomes who v) : v.key = u.key := by
  rw [← key_fixed, h.fixed, key_fixed]

theorem recipient (h : u.Becomes who v) : v.recipient = u.recipient := by
  rw [← recipient_fixed, h.fixed, recipient_fixed]

theorem signed (h : u.Becomes who v) (hu : u.Signed who) : v.Signed who := by
  rw [← signed_fixed, h.fixed, signed_fixed]
  exact hu

theorem trans (h : u.Becomes who v) (h' : v.Becomes who w) : u.Becomes who w where
  fixed := h'.fixed.trans h.fixed
  about := by
    rcases h'.about with heq | hnone
    · rw [heq]
      exact h.about
    · exact .inr hnone
  readAt := by
    rcases h'.readAt with heq | ⟨hsome, hfor⟩
    · rw [heq]
      exact h.readAt
    · rw [h.recipient] at hfor
      exact .inr ⟨hsome, hfor⟩

/-- Where nothing is written to later, nothing changes. -/
theorem eq_of_fixed (h : u.Becomes who v) (hu : u.fixed = u) (hv : v.fixed = v) : v = u := by
  rw [← hv, h.fixed, hu]

theorem mono {who' : Id → Id → Prop} (hle : ∀ workspaceId userId, who workspaceId userId →
    who' workspaceId userId) (h : u.Becomes who v) : u.Becomes who' v where
  fixed := h.fixed
  about := h.about
  readAt := h.readAt.imp id fun ⟨hsome, workspaceId, userId, hfor, hwho⟩ =>
    ⟨hsome, workspaceId, userId, hfor, hle workspaceId userId hwho⟩

end Becomes

theorem Signed.mono {who' : Id → Id → Prop} (hle : ∀ workspaceId userId, who workspaceId userId →
    who' workspaceId userId) (h : v.Signed who) : v.Signed who' := by
  cases v with
  | board r => exact h.imp fun _ => hle _ _
  | task r => exact h.imp fun _ => hle _ _
  | comment r => exact h.imp fun _ => hle _ _
  | attachment r => exact h.imp fun _ => hle _ _
  | activity r => exact hle _ _ h
  | notification r => exact h.imp fun _ hw => ⟨hle _ _ hw.1, hw.2⟩
  | usagePing r => exact hle _ _ h
  | _ => exact h

end Row

/-! ## The rules -/

/-- What a row may hold after what it held. -/
def Changes (who : Id → Id → Prop) : Option Row → Option Row → Prop
  | none, none => True
  | none, some v => v.Signed who
  | some u, none => u.key.table.content = true
  | some u, some v => u.Becomes who v ∨ u.key.table.content = true ∧ v.Signed who

variable {who : Id → Id → Prop}

theorem Changes.trans {u v w : Option Row} (h : Changes who u v) (h' : Changes who v w) : Changes who u w := by
  cases u with
  | none =>
    cases v with
    | none => exact h'
    | some v =>
      cases w with
      | none => trivial
      | some w => exact h'.elim (fun hvw => hvw.signed h) And.right
  | some u =>
    cases v with
    | none =>
      cases w with
      | none => exact h
      | some w => exact .inr ⟨h, h'⟩
    | some v =>
      rcases h with huv | ⟨hu, hv⟩
      · cases w with
        | none =>
          show u.key.table.content = true
          rw [← huv.key]
          exact h'
        | some w =>
          refine h'.imp huv.trans fun hw => ?_
          rw [← huv.key]
          exact hw
      · cases w with
        | none => exact hu
        | some w => exact .inr ⟨hu, h'.elim (fun hvw => hvw.signed hv) And.right⟩

theorem Changes.mono {who' : Id → Id → Prop} (hle : ∀ workspaceId userId, who workspaceId userId →
    who' workspaceId userId) {u v : Option Row} (h : Changes who u v) : Changes who' u v := by
  cases u with
  | none =>
    cases v with
    | none => trivial
    | some v => exact Row.Signed.mono hle h
  | some u =>
    cases v with
    | none => exact h
    | some v => exact h.imp (·.mono hle) fun hw => ⟨hw.1, hw.2.mono hle⟩

def conduct (who : Id → Id → Prop) : Evolution kurul where
  rel := Changes who
  refl v := by
    cases v with
    | none => trivial
    | some v => exact .inl (.refl v)
  trans := Changes.trans

/-! ## Statements -/

section Statements

variable {R : Type} [Model R]

theorem within_create {r : R} (h : (Model.row r).Signed who) :
    (create r).Within (conduct who).footprint := by
  refine ⟨fun db e he x hx => ?_, fun _ => trivial⟩
  obtain ⟨hrefusal, rfl⟩ := eval_create he
  rw [List.mem_singleton.mp hx]
  show Changes who (db.get? (Model.row r).key) (some (Model.row r))
  rw [get?_of_insertRefusal hrefusal]
  exact h

theorem within_createMany {rs : List R} (h : ∀ r ∈ rs, (Model.row r).Signed who) :
    (createMany rs).Within (conduct who).footprint := by
  refine ⟨fun db e he x hx => ?_, fun _ => trivial⟩
  obtain ⟨hrefusal, rfl⟩ := eval_createMany he
  obtain ⟨r, hr, rfl⟩ := List.mem_map.mp hx
  show Changes who (db.get? (Model.row r).key) (some (Model.row r))
  rw [get?_of_insertManyRefusal hrefusal _ (List.mem_map_of_mem hr)]
  exact h r hr

theorem within_createManySkipping {rs : List R} (h : ∀ r ∈ rs, (Model.row r).Signed who) :
    (createManySkipping rs).Within (conduct who).footprint := by
  refine ⟨fun db e he x hx => ?_, fun _ => trivial⟩
  obtain ⟨kept, hkept, -, hwrites⟩ := eval_createManySkipping he
  rw [hwrites] at hx
  obtain ⟨r, hr, rfl⟩ := List.mem_map.mp hx
  show Changes who (db.get? (Model.row r).key) (some (Model.row r))
  rw [get?_of_insertable hkept r hr]
  exact h r (mem_of_insertable hkept r hr)

/-- A patch that leaves alone what is set once. -/
theorem within_change {p : Db → R → Bool} {data : Patch R}
    (h : ∀ db r, p db r = true → (Model.row r).Becomes who (Model.row (data.apply r))) :
    (update p data).Within (conduct who).footprint :=
  within_update fun db r _ hp => .inl (h db r hp)

theorem within_updateMany {F : Footprint kurul} {p : Db → R → Bool} {data : Patch R}
    (h : ∀ db r, p db r = true → F.Allows (some (Model.row r)) (.put (Model.row (data.apply r)))) :
    (updateMany p data).Within F := by
  refine ⟨fun db e he x hx => ?_, fun _ => trivial⟩
  rw [(eval_updateMany he).2] at hx
  obtain ⟨r, hr, rfl⟩ := List.mem_map.mp hx
  obtain ⟨hmem, hp⟩ := List.mem_filter.mp hr
  have hkey : (Model.row (data.apply r)).key = ⟨Model.table R, Model.id r⟩ :=
    (data.key_apply r).trans (Model.key_row r)
  show F.Allows (db.get? (Model.row (data.apply r)).key) _
  rw [hkey, get?_row hmem]
  exact h db r hp

theorem within_changeMany {p : Db → R → Bool} {data : Patch R}
    (h : ∀ db r, p db r = true → (Model.row r).Becomes who (Model.row (data.apply r))) :
    (updateMany p data).Within (conduct who).footprint :=
  within_updateMany fun db r hp => .inl (h db r hp)

/-- Rows that go with content are content themselves. -/
theorem content_of_refs {v : Row} {k : Key} (h : (k, OnDelete.cascade) ∈ v.refs)
    (hk : k.table.content = true) : v.key.table.content = true := by
  cases v <;> simp only [Row.refs, List.mem_cons, List.mem_append, List.mem_map] at h <;>
    grind [Table.content, Row.key]

/-- What is left of a row when rows of content have gone. -/
theorem becomes_clear {gone : Key → Bool} (hgone : ∀ k, gone k = true → k.table.content = true) (v : Row) :
    v.Becomes who (v.clear gone) := by
  cases v with
  | activity r =>
    refine ⟨rfl, ?_, .inl rfl⟩
    show r.taskId.filter _ = r.taskId ∨ r.taskId.filter _ = none
    cases r.taskId with
    | none => exact .inl rfl
    | some t =>
      cases hg : gone ⟨.task, t⟩ with
      | true => exact .inr (by simp [Option.filter, hg])
      | false => exact .inl (by simp [Option.filter, hg])
  | notification r =>
    have hkept : r.activityId.filter (fun a => !gone ⟨.activity, a⟩) = r.activityId := by
      cases r.activityId with
      | none => rfl
      | some a =>
        cases hg : gone ⟨.activity, a⟩ with
        | true => cases hgone _ hg
        | false => simp [Option.filter, hg]
    have heq : Row.clear gone (.notification r) = .notification r := by
      show Row.notification { r with activityId := r.activityId.filter _ } = _
      rw [hkept]
    rw [heq]
    exact .refl _
  | _ => exact .refl _

/-- Whatever goes with a row of content is content. -/
theorem covers_deletion {db : Db} {ks : List Key} {ws : List (Write Key Row)}
    (hks : ∀ k ∈ ks, k.table.content = true) (h : db.deletion references ks = some ws) :
    (conduct who).footprint.Covers ws db := by
  have hdoomed : ∀ k ∈ db.doomed references ks, k.table.content = true :=
    Store.doomed_subset hks fun v _ k hr hk => content_of_refs hr hk
  intro x hx
  rcases Store.mem_deletion h hx with ⟨v, hv, hd, rfl⟩ | ⟨v, hv, _, _, rfl⟩
  · show Changes who (db.get? (Keyed.key v)) none
    rw [Store.mem_rows_iff.mp hv]
    exact hdoomed _ hd
  · have hkey := references.key_clear (fun k => decide (k ∈ db.doomed references ks)) v
    show Changes who (db.get? (Keyed.key (references.clear _ v))) (some (references.clear _ v))
    rw [hkey, Store.mem_rows_iff.mp hv]
    exact .inl (becomes_clear (fun k hk => hdoomed k (of_decide_eq_true hk)) v)

theorem within_remove {p : Db → R → Bool} (hR : (Model.table R).content = true) :
    (deleteMany p).Within (conduct who).footprint := by
  refine ⟨fun db e he => ?_, fun _ => trivial⟩
  obtain ⟨ws, hws, rfl⟩ := eval_deleteMany he
  refine covers_deletion (fun k hk => ?_) hws
  obtain ⟨r, _, rfl⟩ := List.mem_map.mp hk
  exact hR

omit [Model R] in
/-- Rows under new identifiers, and what is done with them. -/
theorem within_withIds {T α : Type} {F : Footprint kurul} {row : Id → T → R} {P : R → Prop} {items : List T}
    (h : ∀ item ∈ items, ∀ i, P (row i item)) {f : List R → Tx kurul α}
    (hf : ∀ data : List R, (∀ r ∈ data, P r) → (f data).Within F) : (withIds row items >>= f).Within F := by
  induction items generalizing f with
  | nil => exact hf [] fun _ hr => by cases hr
  | cons item rest ih =>
    intro i
    show ((withIds row rest >>= fun created => Tx.ret (row i item :: created)) >>= f).Within F
    rw [Tx.bind_assoc]
    refine ih (fun t ht => h t (List.mem_cons_of_mem _ ht)) fun data hdata => hf _ fun r hr => ?_
    rcases List.mem_cons.mp hr with rfl | hr
    · exact h item List.mem_cons_self i
    · exact hdata r hr

end Statements
end Kurul
