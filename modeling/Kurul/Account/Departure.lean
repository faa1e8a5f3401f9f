import Kurul.Account.DeletionRun
import Kurul.Sql.Evolution

/-!
# Kurul.Account.Departure

What the transaction of `deleteAccount` may make of a row, whatever it finds: memberships are taken away
from the departing user or with a workspace that goes, and otherwise only promoted.

* `departing` — the rows of a user that are to go.
* `Departs`   — what a row may hold, after what it held.
* `evolves_settleAll`, `evolves_erase` — the loops and the statements of the transaction keep to it.
-/

namespace Kurul
namespace AccountDeletionService

open Sql

/-- The rows that go with a user. -/
def departing (userId : Id) : Row → Prop
  | .session r => r.userId = userId
  | .account r => r.userId = userId
  | .workspaceMember r => r.userId = userId
  | .workspaceInvitation r => r.inviterId = userId ∧ r.status = js "pending"
  | .taskAssignee r => r.userId = userId
  | .notification r => r.userId = userId
  | _ => False

/-- From what a row held to what it holds, when a user departs and the workspaces go that `gone` names. -/
structure Departs (userId : Id) (gone : Id → Prop) (old new : Option Row) : Prop where
  member_from : ∀ m', new = some (.workspaceMember m') →
    ∃ m, old = some (.workspaceMember m) ∧ (m' = m ∨ m' = { m with role := .owner })
  member_stays : ∀ m, old = some (.workspaceMember m) → m.userId ≠ userId → ¬ gone m.workspaceId →
    ∃ m', new = some (.workspaceMember m')
  user_stays : ∀ r, old = some (.user r) → r.id ≠ userId → new = some (.user r)
  workspace_from : ∀ s, new = some (.workspace s) → old = some (.workspace s)
  workspace_stays : ∀ s, old = some (.workspace s) → ¬ gone s.id → new = some (.workspace s)
  departing_from : ∀ v, new = some v → departing userId v → ∃ v₀, old = some v₀ ∧ departing userId v₀

section Relation

variable {userId : Id} {gone : Id → Prop} {u v w : Option Row}

theorem departs_refl (v : Option Row) : Departs userId gone v v where
  member_from m' h := ⟨m', h, .inl rfl⟩
  member_stays m h _ _ := ⟨m, h⟩
  user_stays _ h _ := h
  workspace_from _ h := h
  workspace_stays _ h _ := h
  departing_from v h hv := ⟨v, h, hv⟩

theorem departs_trans (h : Departs userId gone u v) (h' : Departs userId gone v w) :
    Departs userId gone u w where
  member_from m'' hm'' := by
    obtain ⟨m', hm', hsame'⟩ := h'.member_from m'' hm''
    obtain ⟨m, hm, hsame⟩ := h.member_from m' hm'
    refine ⟨m, hm, ?_⟩
    rcases hsame' with rfl | rfl
    · exact hsame
    · rcases hsame with rfl | rfl
      · exact .inr rfl
      · exact .inr rfl
  member_stays m hm hother hkept := by
    obtain ⟨m', hm'⟩ := h.member_stays m hm hother hkept
    obtain ⟨m₀, hm₀, hsame⟩ := h.member_from m' hm'
    obtain rfl : m = m₀ := Row.workspaceMember.inj (Option.some.inj (hm.symm.trans hm₀))
    rcases hsame with rfl | rfl
    · exact h'.member_stays m' hm' hother hkept
    · exact h'.member_stays _ hm' hother hkept
  user_stays r hr hother := h'.user_stays r (h.user_stays r hr hother) hother
  workspace_from s hs := h.workspace_from s (h'.workspace_from s hs)
  workspace_stays s hs hkept := h'.workspace_stays s (h.workspace_stays s hs hkept) hkept
  departing_from x hx hown := by
    obtain ⟨v₁, hv₁, hown₁⟩ := h'.departing_from x hx hown
    exact h.departing_from v₁ hv₁ hown₁

/-- The departure of a user, row by row. -/
def departure (userId : Id) (gone : Id → Prop) : Evolution kurul where
  rel := Departs userId gone
  refl := departs_refl
  trans := departs_trans

/-- A row may go that is no workspace that stays, no other user, and no membership of another in such a
workspace. -/
theorem departs_none {r : Row} (hmember : ∀ m, r = .workspaceMember m → m.userId = userId ∨ gone m.workspaceId)
    (huser : ∀ x, r = .user x → x.id = userId) (hworkspace : ∀ s, r = .workspace s → gone s.id) :
    Departs userId gone (some r) none where
  member_from _ h := by cases h
  member_stays m h hother hkept :=
    ((hmember m (Option.some.inj h)).elim (absurd · hother) (absurd · hkept))
  user_stays x h hother := absurd (huser x (Option.some.inj h)) hother
  workspace_from _ h := by cases h
  workspace_stays s h hkept := absurd (hworkspace s (Option.some.inj h)) hkept
  departing_from _ h := by cases h

/-- The tables the departure is about. -/
def Table.departs : Table → Bool
  | .user | .workspace | .session | .account | .workspaceMember | .workspaceInvitation | .taskAssignee
  | .notification => true
  | _ => false

/-- Any write elsewhere. -/
theorem departs_elsewhere (hu : ∀ r, u = some r → Table.departs r.key.table = false)
    (hv : ∀ r, v = some r → Table.departs r.key.table = false) : Departs userId gone u v where
  member_from m h := by cases hv _ h
  member_stays m h := by cases hu _ h
  user_stays r h := by cases hu _ h
  workspace_from s h := by cases hv _ h
  workspace_stays s h := by cases hu _ h
  departing_from r h hown := by
    have htable := hv r h
    cases r <;> first | exact hown.elim | cases htable

/-- Clearing what a row points at. -/
theorem departs_clear (p : Key → Bool) (r : Row) :
    Departs userId gone (some r) (some (Row.clear p r)) := by
  cases r with
  | activity a => exact departs_elsewhere (fun _ h => by cases h; rfl) fun _ h => by cases h; rfl
  | notification n =>
    exact {
      member_from := fun _ h => by cases h
      member_stays := fun _ h => by cases h
      user_stays := fun _ h => by cases h
      workspace_from := fun _ h => by cases h
      workspace_stays := fun _ h => by cases h
      departing_from := fun x h hown => ⟨_, rfl, by obtain rfl := Option.some.inj h; exact hown⟩ }
  | _ => exact departs_refl _

theorem departs_promoted (m : WorkspaceMemberRow) :
    Departs userId gone (some (.workspaceMember m)) (some (.workspaceMember { m with role := .owner })) where
  member_from m' h := ⟨m, rfl, .inr (Row.workspaceMember.inj (Option.some.inj h)).symm⟩
  member_stays _ _ _ _ := ⟨_, rfl⟩
  user_stays _ h := by cases h
  workspace_from _ h := by cases h
  workspace_stays _ h := by cases h
  departing_from v h hown := ⟨_, rfl, by obtain rfl := Option.some.inj h; exact hown⟩

end Relation

/-! ## Statements -/

section Statements

variable {userId : Id} {gone : Id → Prop}

theorem departs_allows (db : Db) (x : Write Key Row) (hx : Table.departs x.key.table = false) :
    (departure userId gone).footprint.Allows (db.get? x.key) x := by
  refine departs_elsewhere (fun r hr => ?_) fun r hr => ?_
  · have hkey : r.key = x.key := Store.key_of_get? hr
    rw [hkey, hx]
  · cases x with
    | put v =>
      obtain rfl := Option.some.inj hr
      exact hx
    | del k => cases hr

theorem evolves_record (input : RecordActivityInput) :
    (ActivityService.record input).Within (departure userId gone).footprint :=
  (writes_record (fun _ => rfl) input).within fun db x hx => departs_allows db x hx

theorem evolves_transferOwnership (membership : MembershipRow) (newOwnerUserId : Id) :
    (transferOwnership membership newOwnerUserId userId).Within (departure userId gone).footprint := by
  refine .bind (within_query _) fun _ => .bind (within_orThrow _ _) fun target => ?_
  refine .bind (within_throwIf _ _) fun _ => .bind (within_update fun db m _ _ => ?_) fun _ => ?_
  · exact departs_promoted m
  · exact .bind (evolves_record _) fun _ => trivial

/-- A membership that goes with a workspace is one of that workspace. -/
theorem evolves_deleteWorkspace {workspaceId actorId : Id} (hgone : gone workspaceId) :
    (deleteWorkspace workspaceId userId actorId).Within (departure userId gone).footprint := by
  refine .bind (within_query _) fun _ => .bind ?_ fun _ => trivial
  refine ⟨fun db e he x hx => ?_, fun _ => trivial⟩
  obtain ⟨s, ws, hfound, hws, rfl⟩ := eval_delete he
  have hid : s.id = workspaceId := by simpa using List.find?_some hfound
  have hdoomed : ∀ k ∈ db.doomed references [(⟨Model.table WorkspaceRow, Model.id s⟩ : Key)],
      k.table ≠ .user ∧ (k.table = .workspace → k.id = workspaceId) ∧
        ∀ m, db.get? k = some (.workspaceMember m) → m.workspaceId = workspaceId := by
    refine Store.doomed_subset ?_ ?_
    · intro k hk
      obtain rfl := List.mem_singleton.mp hk
      refine ⟨by simp [Model.table], fun _ => hid, fun m hm => ?_⟩
      have hkey : Row.key (.workspaceMember m) = ⟨.workspace, s.id⟩ := Store.key_of_get? hm
      simp [Row.key] at hkey
    · rintro v hv k hr ⟨huser, hworkspace, -⟩
      have hget : db.get? v.key = some v := Store.mem_rows_iff.mp hv
      refine ⟨?_, ?_, ?_⟩
      · cases v <;> simp [references, Row.refs, Row.key] at hr ⊢
      · cases v <;> simp [references, Row.refs, Row.key] at hr ⊢
      · intro m hm
        obtain rfl : v = .workspaceMember m := Option.some.inj (hget.symm.trans hm)
        have hk : k = ⟨.workspace, m.workspaceId⟩ := by simpa [references, Row.refs] using hr
        rw [hk] at hworkspace
        exact hworkspace rfl
  rcases Store.mem_deletion hws hx with ⟨v, hv, hgo, rfl⟩ | ⟨v, hv, _, _, rfl⟩
  · obtain ⟨huser, hworkspace, hmember⟩ := hdoomed _ hgo
    have hget : db.get? v.key = some v := Store.mem_rows_iff.mp hv
    show Departs userId gone (db.get? v.key) none
    rw [hget]
    refine departs_none (fun m hm => .inr ?_) (fun r hr => ?_) fun x hx => ?_
    · rw [hmember m (by rw [← hm]; exact hget)]
      exact hgone
    · rw [hr] at huser
      exact absurd rfl huser
    · rw [hx] at hworkspace
      have hid : x.id = workspaceId := hworkspace rfl
      rw [hid]
      exact hgone
  · have hkey : (Write.put (references.clear (fun k => decide (k ∈ db.doomed references
        [(⟨Model.table WorkspaceRow, Model.id s⟩ : Key)])) v) : Write Key Row).key = v.key :=
      references.key_clear _ v
    have hget : db.get? v.key = some v := Store.mem_rows_iff.mp hv
    rw [hkey, hget]
    have hclear := @departs_clear userId gone (fun k => decide (k ∈ db.doomed references
      [(⟨Model.table WorkspaceRow, Model.id s⟩ : Key)])) v
    exact hclear

theorem evolves_settle {m : JsMap Id WorkspaceDispositionDto} {actorId : Id} {membership : MembershipRow}
    (h : ∀ d, m.get membership.workspaceId = some d → d.action = .delete → gone membership.workspaceId) :
    (settle userId actorId m membership).Within (departure userId gone).footprint := by
  unfold settle
  cases hget : m.get membership.workspaceId with
  | none => trivial
  | some d =>
    obtain ⟨workspaceId, action, newOwner⟩ := d
    cases action with
    | transfer =>
      cases newOwner with
      | none => trivial
      | some newOwnerUserId =>
        show Tx.Within _ (transferOwnership membership newOwnerUserId userId >>= fun _ => pure none)
        exact .bind (evolves_transferOwnership _ _) fun _ => trivial
    | delete =>
      show Tx.Within _ (deleteWorkspace membership.workspaceId userId actorId >>= fun line => pure (some line))
      exact .bind (evolves_deleteWorkspace (h _ hget rfl)) fun _ => trivial

theorem evolves_settleAll {m : JsMap Id WorkspaceDispositionDto} {actorId : Id}
    {memberships : List MembershipRow}
    (h : ∀ membership ∈ memberships, ∀ d, m.get membership.workspaceId = some d → d.action = .delete →
      gone membership.workspaceId) :
    (settleAll userId actorId m memberships).Within (departure userId gone).footprint :=
  within_settleAll fun x hx => evolves_settle (h x hx)

theorem evolves_recordDeparture (initiatedBy : DeletionInitiator) (left : List MembershipRow) :
    (recordDeparture userId initiatedBy left).Within (departure userId gone).footprint :=
  within_recordDeparture evolves_record initiatedBy left

theorem evolves_redactPages (pages : Nat) (cursor : Option Id) :
    (redactPages userId pages cursor).Within (departure userId gone).footprint :=
  within_redactPages (fun c c' => departs_elsewhere (fun _ h => by cases h; rfl) fun _ h => by cases h; rfl)
    pages cursor

theorem evolves_redactActivityPayloads :
    (redactActivityPayloads userId).Within (departure userId gone).footprint :=
  (writes_updateMany (fun _ => rfl) _ _).within fun db x hx => departs_allows db x hx

/-- A row goes that is neither a user nor a membership nor a workspace. -/
theorem departs_del {r : Row} (hmember : ∀ m, r ≠ .workspaceMember m) (huser : ∀ x, r ≠ .user x)
    (hworkspace : ∀ s, r ≠ .workspace s) : Departs userId gone (some r) none :=
  departs_none (fun m hm => absurd hm (hmember m)) (fun x hx => absurd hx (huser x))
    fun s hs => absurd hs (hworkspace s)

theorem evolves_erase {pages : Nat} {email : JsString} {deletedAt : Instant}
    {settled : List (Option AccountWorkspaceDeletedLogLine)} :
    (erase pages userId email deletedAt settled).Within (departure userId gone).footprint := by
  refine .bind (within_deleteMany rfl fun db a _ _ => departs_del (by simp) (by simp) (by simp)) fun _ => ?_
  refine .bind (within_deleteMany rfl fun db i _ _ => departs_del (by simp) (by simp) (by simp)) fun _ => ?_
  refine .bind (evolves_redactPages pages none) fun _ => .bind evolves_redactActivityPayloads fun _ => ?_
  refine .bind (within_deleteMany rfl fun db n _ _ => departs_del (by simp) (by simp) (by simp)) fun _ => ?_
  refine .bind (within_deleteMany rfl fun db p _ _ => departs_del (by simp) (by simp) (by simp)) fun _ => ?_
  refine .bind (within_deleteMany rfl fun db s _ _ => departs_del (by simp) (by simp) (by simp)) fun _ => ?_
  refine .bind (within_deleteMany rfl fun db a _ _ => departs_del (by simp) (by simp) (by simp)) fun _ => ?_
  refine .bind (within_deleteMany rfl fun db v _ _ => departs_del (by simp) (by simp) (by simp)) fun _ => ?_
  refine .bind (within_deleteMany rfl fun db m _ hm => ?_) fun _ => ?_
  · refine departs_none (fun m' hm' => .inl ?_) (fun x hx => by cases hx) fun s hs => by cases hs
    obtain rfl := Row.workspaceMember.inj hm'
    exact of_decide_eq_true hm
  refine .bind (within_update fun db u _ hu => ?_) fun _ => trivial
  have hid : u.id = userId := of_decide_eq_true hu
  exact {
    member_from := fun _ h => by cases h
    member_stays := fun _ h => by cases h
    user_stays := fun r h hother => absurd (by obtain rfl := Row.user.inj (Option.some.inj h); exact hid) hother
    workspace_from := fun _ h => by cases h
    workspace_stays := fun _ h => by cases h
    departing_from := fun x h hown => by obtain rfl := Option.some.inj h; exact hown.elim }

end Statements

end AccountDeletionService
end Kurul
