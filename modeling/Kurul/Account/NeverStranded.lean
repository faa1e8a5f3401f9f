import Kurul.Account.Departure
import Kurul.Account.OthersKept
import Kurul.Account.SoleOwners

/-!
# Kurul.Account.NeverStranded

`deleteAccount` alone, whatever statement fails: no workspace is left without an owner.

* `NeverStranded`  — what a deletion that is done leaves.
* `Acceptable`     — what it asks of the request, and of the database.
* `never_stranded` — it is done in full or not at all, and refused exactly if the request is not
  acceptable.
-/

namespace Kurul
namespace AccountDeletionService

open Sql
open WorkspaceMemberService (IsOwner)

/-! ## Row by row -/

section Rows

variable {userId : Id} {gone : Id → Prop} {db db' : Db}

theorem member_of_after (h : (departure userId gone).Holds db db') {m' : WorkspaceMemberRow}
    (hm' : m' ∈ rows WorkspaceMemberRow db') :
    ∃ m ∈ rows WorkspaceMemberRow db, m' = m ∨ m' = { m with role := .owner } := by
  obtain ⟨m, hget, hsame⟩ := (h ⟨.workspaceMember, m'.id⟩).member_from m' (get?_row hm')
  exact ⟨m, mem_rows.mpr (Store.mem_of_get? hget), hsame⟩

theorem member_kept (h : (departure userId gone).Holds db db') {m : WorkspaceMemberRow}
    (hm : m ∈ rows WorkspaceMemberRow db) (hother : m.userId ≠ userId) (hkept : ¬ gone m.workspaceId) :
    ∃ m' ∈ rows WorkspaceMemberRow db', m' = m ∨ m' = { m with role := .owner } := by
  obtain ⟨m', hget'⟩ := (h ⟨.workspaceMember, m.id⟩).member_stays m (get?_row hm) hother hkept
  have hm' : m' ∈ rows WorkspaceMemberRow db' := mem_rows.mpr (Store.mem_of_get? hget')
  obtain ⟨m₀, hget₀, hsame⟩ := (h ⟨.workspaceMember, m.id⟩).member_from m' hget'
  obtain rfl : m = m₀ := Row.workspaceMember.inj (Option.some.inj ((get?_row hm).symm.trans hget₀))
  exact ⟨m', hm', hsame⟩

theorem isOwner_kept (h : (departure userId gone).Holds db db') {workspaceId otherId : Id}
    (howner : IsOwner db workspaceId otherId) (hother : otherId ≠ userId) (hkept : ¬ gone workspaceId) :
    IsOwner db' workspaceId otherId := by
  obtain ⟨o, ho, rfl, rfl, hrole⟩ := howner
  obtain ⟨o', ho', hsame⟩ := member_kept h ho hother hkept
  rcases hsame with rfl | rfl
  · exact ⟨o', ho', rfl, rfl, hrole⟩
  · exact ⟨_, ho', rfl, rfl, rfl⟩

theorem user_kept (h : (departure userId gone).Holds db db') {r : UserRow} (hr : r ∈ rows UserRow db)
    (hother : r.id ≠ userId) : r ∈ rows UserRow db' :=
  mem_rows.mpr (Store.mem_of_get? ((h ⟨.user, r.id⟩).user_stays r (get?_row hr) hother))

theorem workspace_of_after (h : (departure userId gone).Holds db db') {s : WorkspaceRow}
    (hs : s ∈ rows WorkspaceRow db') : s ∈ rows WorkspaceRow db :=
  mem_rows.mpr (Store.mem_of_get? ((h ⟨.workspace, s.id⟩).workspace_from s (get?_row hs)))

/-- What has gone does not come back. -/
theorem none_departing {R : Type} [Model R] (h : (departure userId gone).Holds db db')
    (hnone : ∀ r ∈ rows R db, ¬ departing userId (Model.row r)) :
    ∀ r ∈ rows R db', ¬ departing userId (Model.row r) := by
  intro r hr hown
  obtain ⟨v₀, hget, hown₀⟩ := (h ⟨Model.table R, Model.id r⟩).departing_from _ (get?_row hr) hown
  obtain ⟨r₀, rfl, hr₀, _⟩ := get?_eq_some.mp hget
  exact hnone r₀ hr₀ hown₀

end Rows

/-! ## What goes -/

section Erase

variable {userId : Id} {env : Env kurul} {w w' : World kurul}

/-- A statement deletes what departs from one table, and the statements after it do not bring it back. -/
theorem none_departing_deleteMany {R α : Type} [Model R] {p : R → Bool} {n : Nat} {w₁ : World kurul}
    (hdelete : (deleteMany fun _ => p).run env w = (.ok n, w₁)) {rest : Tx kurul α} {gone : Id → Prop}
    (hwithin : rest.Within (departure userId gone).footprint) {r : Except ApiError α}
    (hrest : rest.run env w₁ = (r, w')) (hR : Table.unnamed (Model.table R) = true)
    (hp : ∀ r, departing userId (Model.row r) → p r = true) : ∀ r ∈ rows R w'.db, ¬ departing userId (Model.row r) := by
  refine none_departing (hwithin.holds hrest) fun r hr hown => ?_
  have hnone := run_deleteMany_none hR hdelete r hr
  rw [hp r hown] at hnone
  cases hnone

theorem none_departing_erase {pages : Nat} {email : JsString} {deletedAt : Instant}
    {settled : List (Option AccountWorkspaceDeletedLogLine)} {counts : AccountDeletionCounts}
    (h : (erase pages userId email deletedAt settled).run env w = (.ok counts, w')) :
    ∀ v ∈ w'.db.rows, ¬ departing userId v := by
  have hrest : (erase pages userId email deletedAt settled).Within (departure userId fun _ => False).footprint :=
    evolves_erase
  unfold erase at h hrest
  obtain ⟨_, w₁, h₁, h⟩ := Tx.run_bind_ok h
  replace hrest := hrest.rest h₁
  have hassignees := none_departing_deleteMany h₁ hrest h rfl fun _ hown => decide_eq_true hown
  obtain ⟨_, w₂, h₂, h⟩ := Tx.run_bind_ok h
  replace hrest := hrest.rest h₂
  have hinvitations := none_departing_deleteMany h₂ hrest h rfl fun i hown => by
    have hpending : i.inviterId = userId ∧ i.status = js "pending" := hown
    simp [hpending]
  obtain ⟨_, w₃, h₃, h⟩ := Tx.run_bind_ok h
  replace hrest := hrest.rest h₃
  obtain ⟨_, w₄, h₄, h⟩ := Tx.run_bind_ok h
  replace hrest := hrest.rest h₄
  obtain ⟨_, w₅, h₅, h⟩ := Tx.run_bind_ok h
  replace hrest := hrest.rest h₅
  have hnotifications := none_departing_deleteMany h₅ hrest h rfl fun _ hown => decide_eq_true hown
  obtain ⟨_, w₆, h₆, h⟩ := Tx.run_bind_ok h
  replace hrest := hrest.rest h₆
  obtain ⟨_, w₇, h₇, h⟩ := Tx.run_bind_ok h
  replace hrest := hrest.rest h₇
  have hsessions := none_departing_deleteMany h₇ hrest h rfl fun _ hown => decide_eq_true hown
  obtain ⟨_, w₈, h₈, h⟩ := Tx.run_bind_ok h
  replace hrest := hrest.rest h₈
  have haccounts := none_departing_deleteMany h₈ hrest h rfl fun _ hown => decide_eq_true hown
  obtain ⟨_, w₉, h₉, h⟩ := Tx.run_bind_ok h
  replace hrest := hrest.rest h₉
  obtain ⟨_, w₁₀, h₁₀, h⟩ := Tx.run_bind_ok h
  replace hrest := hrest.rest h₁₀
  have hmembers := none_departing_deleteMany h₁₀ hrest h rfl fun _ hown => decide_eq_true hown
  intro v hv
  cases v with
  | taskAssignee r => exact hassignees r (mem_rows.mpr hv)
  | workspaceInvitation r => exact hinvitations r (mem_rows.mpr hv)
  | notification r => exact hnotifications r (mem_rows.mpr hv)
  | session r => exact hsessions r (mem_rows.mpr hv)
  | account r => exact haccounts r (mem_rows.mpr hv)
  | workspaceMember r => exact hmembers r (mem_rows.mpr hv)
  | _ => exact id

end Erase

/-! ## What becomes of a workspace that had one owner -/

/-- A member whose account is not deleted. -/
def LiveMember (db : Db) (workspaceId userId : Id) : Prop :=
  (∃ m ∈ rows WorkspaceMemberRow db, m.workspaceId = workspaceId ∧ m.userId = userId) ∧
    ∃ r ∈ rows UserRow db, r.id = userId ∧ r.deletedAt = none

/-- The workspaces that are to go. -/
def goneWith (m : JsMap Id WorkspaceDispositionDto) (workspaceId : Id) : Prop :=
  ∃ d, m.get workspaceId = some d ∧ d.action = .delete

section Settle

variable {userId actorId : Id} {env : Env kurul} {w w' : World kurul}

theorem evolves_settle_goneWith (m : JsMap Id WorkspaceDispositionDto) (actorId : Id)
    (membership : MembershipRow) :
    (settle userId actorId m membership).Within (departure userId (goneWith m)).footprint :=
  evolves_settle fun d hget hdelete => ⟨d, hget, hdelete⟩

theorem evolves_settleAll_goneWith (m : JsMap Id WorkspaceDispositionDto) (actorId : Id)
    (memberships : List MembershipRow) :
    (settleAll userId actorId m memberships).Within (departure userId (goneWith m)).footprint :=
  within_settleAll fun membership _ => evolves_settle_goneWith m actorId membership

theorem memberScope_iff {db : Db} {workspaceId : Id} {m : WorkspaceMemberRow} :
    memberScope workspaceId userId db m = true ↔ m.workspaceId = workspaceId ∧ m.userId = userId := by
  simp [memberScope]

theorem of_findTarget {db : Db} {workspaceId : Id} {target : TransferTarget}
    (h : findTarget workspaceId userId db = some target) (hlive : target.deletedAt = none) :
    LiveMember db workspaceId userId := by
  obtain ⟨m, hm, h⟩ := Option.bind_eq_some_iff.mp h
  obtain ⟨r, hr, h⟩ := Option.bind_eq_some_iff.mp h
  obtain ⟨hw, hu⟩ := memberScope_iff.mp (List.find?_some hm)
  obtain ⟨hmem, hid⟩ := byId_eq_some.mp hr
  obtain rfl := Option.some.inj h
  exact ⟨⟨m, List.mem_of_find?_eq_some hm, hw, hu⟩, r, hmem, hid.trans hu, hlive⟩

theorem findTarget_of_live {db : Db} {workspaceId : Id} (h : LiveMember db workspaceId userId) :
    ∃ target, findTarget workspaceId userId db = some target ∧ target.deletedAt = none := by
  obtain ⟨⟨m, hm, hw, hu⟩, r, hr, hid, hlive⟩ := h
  obtain ⟨m', hm'⟩ : ∃ m', (rows WorkspaceMemberRow db).find? (memberScope workspaceId userId db) = some m' :=
    Option.isSome_iff_exists.mp (List.find?_isSome.mpr ⟨m, hm, memberScope_iff.mpr ⟨hw, hu⟩⟩)
  have hu' : m'.userId = userId := (memberScope_iff.mp (List.find?_some hm')).2
  have hr' : byId UserRow db m'.userId = some r := byId_eq_some.mpr ⟨hr, hid.trans hu'.symm⟩
  refine ⟨⟨m'.role, r.name, r.deletedAt⟩, ?_, hlive⟩
  simp [findTarget, hm', hr']

/-- A workspace that has been handed over. -/
theorem transferOwnership_ok {membership : MembershipRow} {newOwnerUserId : Id} {u : Unit}
    (h : (transferOwnership membership newOwnerUserId userId).run env w = (.ok u, w')) :
    newOwnerUserId ≠ userId ∧ LiveMember w.db membership.workspaceId newOwnerUserId ∧
      IsOwner w'.db membership.workspaceId newOwnerUserId := by
  obtain ⟨found, w₁, h₁, h⟩ := Tx.run_bind_ok h
  obtain ⟨rfl, rfl⟩ := run_query_ok h₁
  obtain ⟨target, w₂, h₂, h⟩ := Tx.run_bind_ok h
  obtain ⟨htarget, rfl⟩ := run_orThrow_ok h₂
  obtain ⟨hfound, hne⟩ := Option.filter_eq_some_iff.mp htarget
  obtain ⟨_, w₃, h₃, h⟩ := Tx.run_bind_ok h
  obtain ⟨hlive, rfl⟩ := run_throwIf_ok h₃
  obtain ⟨_, w₄, h₄, h⟩ := Tx.run_bind_ok h
  obtain ⟨m, hm, rfl, rfl⟩ := run_update_ok h₄
  obtain ⟨a, w₅, h₅, h⟩ := Tx.run_bind_ok h
  obtain ⟨_, hdb, _⟩ := run_record_entry h₅
  obtain ⟨-, rfl⟩ : True ∧ w₅ = w' := by simpa using h
  have hlive : target.deletedAt = none := by simpa using hlive
  refine ⟨of_decide_eq_true hne, of_findTarget hfound hlive, ?_⟩
  obtain ⟨hw, hu⟩ := memberScope_iff.mp (List.find?_some hm)
  refine ⟨(setRole .owner).apply m, ?_, hw, hu, rfl⟩
  rw [hdb, rows_put_of_ne (R := WorkspaceMemberRow) (by simp [Row.key, Model.table])]
  exact mem_rows_put.mpr (.inl rfl)

/-- The writes that delete a workspace leave none under its id. -/
theorem workspace_deleted {db : Db} {s : WorkspaceRow} {ws : List (Write Key Row)}
    (hs : s ∈ rows WorkspaceRow db)
    (h : db.deletion references [(⟨Model.table WorkspaceRow, Model.id s⟩ : Key)] = some ws) :
    ⟨.workspace, s.id⟩ ∈ ws.map Write.key ∧ (db.applyAll ws).get? ⟨.workspace, s.id⟩ = none := by
  have hdoomed : (Row.workspace s).key ∈
      db.doomed references [(⟨Model.table WorkspaceRow, Model.id s⟩ : Key)] :=
    Store.subset_doomed _ _ (List.mem_singleton_self _)
  have hdel := (Store.mem_writes_of_deletion h (mem_rows.mp hs)).1 hdoomed
  refine ⟨List.mem_map.mpr ⟨_, hdel, rfl⟩, ?_⟩
  cases hnew : (db.applyAll ws).get? ⟨.workspace, s.id⟩ with
  | none => rfl
  | some v' =>
    obtain ⟨v, _, hkept, hv⟩ := Store.mem_applyAll_deletion h (Store.mem_of_get? hnew)
    have hkey : v'.key = ⟨.workspace, s.id⟩ := Store.key_of_get? hnew
    refine absurd ?_ hkept
    rcases hv with ⟨rfl, -⟩ | hv
    · rw [keyed_key, hkey]
      exact hdoomed
    · have hclear := references.key_clear (fun k => decide (k ∈ db.doomed references
        [(⟨Model.table WorkspaceRow, Model.id s⟩ : Key)])) v
      rw [← hv, keyed_key, hkey] at hclear
      rw [← hclear]
      exact hdoomed

/-- A workspace that has been deleted. -/
theorem deleteWorkspace_ok {workspaceId : Id} {line : AccountWorkspaceDeletedLogLine}
    (h : (deleteWorkspace workspaceId userId actorId).run env w = (.ok line, w')) :
    ∀ s ∈ rows WorkspaceRow w'.db, s.id ≠ workspaceId := by
  obtain ⟨doomed, w₁, h₁, h⟩ := Tx.run_bind_ok h
  obtain ⟨rfl, rfl⟩ := run_query_ok h₁
  obtain ⟨_, w₂, h₂, h⟩ := Tx.run_bind_ok h
  obtain ⟨-, rfl⟩ : _ = line ∧ w₂ = w' := by simpa using h
  obtain ⟨e, he, _, rfl⟩ := Tx.run_exec_ok h₂
  obtain ⟨s, ws, hfound, hws, rfl⟩ := eval_delete he
  have hid : s.id = workspaceId := by simpa using List.find?_some hfound
  have hnone := (workspace_deleted (List.mem_of_find?_eq_some hfound) hws).2
  intro s' hs' hid'
  have hget := get?_row hs'
  rw [show (⟨Model.table WorkspaceRow, Model.id s'⟩ : Key) = ⟨.workspace, s.id⟩ from
    congrArg (Key.mk .workspace) (hid'.trans hid.symm), hnone] at hget
  cases hget

/-- What one round of the loop leaves. -/
theorem settle_ok {m : JsMap Id WorkspaceDispositionDto} {membership : MembershipRow}
    {line : Option AccountWorkspaceDeletedLogLine}
    (h : (settle userId actorId m membership).run env w = (.ok line, w')) :
    ∃ d, m.get membership.workspaceId = some d ∧
      (d.action = .transfer ∧ (∃ t, d.newOwnerUserId = some t ∧ t ≠ userId ∧
          LiveMember w.db membership.workspaceId t ∧ IsOwner w'.db membership.workspaceId t) ∨
        d.action = .delete ∧ ∀ s ∈ rows WorkspaceRow w'.db, s.id ≠ membership.workspaceId) := by
  unfold settle at h
  cases hget : m.get membership.workspaceId with
  | none =>
    rw [hget] at h
    simp [orThrow] at h
  | some d =>
    refine ⟨d, rfl, ?_⟩
    rw [hget] at h
    obtain ⟨workspaceId, action, newOwner⟩ := d
    cases action with
    | transfer =>
      cases newOwner with
      | none =>
        simp [orThrow] at h
      | some t =>
        obtain ⟨_, w₁, h₁, h⟩ := Tx.run_bind_ok (p := transferOwnership membership t userId)
          (f := fun _ => pure none) h
        obtain ⟨-, rfl⟩ : none = line ∧ w₁ = w' := by simpa using h
        obtain ⟨hne, hlive, howner⟩ := transferOwnership_ok h₁
        exact .inl ⟨rfl, t, rfl, hne, hlive, howner⟩
    | delete =>
      obtain ⟨line', w₁, h₁, h⟩ := Tx.run_bind_ok
        (p := deleteWorkspace membership.workspaceId userId actorId) (f := fun line => pure (some line)) h
      obtain ⟨-, rfl⟩ : some line' = line ∧ w₁ = w' := by simpa using h
      exact .inr ⟨rfl, deleteWorkspace_ok h₁⟩

theorem not_goneWith {m : JsMap Id WorkspaceDispositionDto} {workspaceId : Id} {d : WorkspaceDispositionDto}
    (hget : m.get workspaceId = some d) (htransfer : d.action = .transfer) : ¬ goneWith m workspaceId := by
  rintro ⟨d', hget', hdelete⟩
  obtain rfl : d = d' := Option.some.inj (hget.symm.trans hget')
  rw [htransfer] at hdelete
  cases hdelete

/-- The workspace has been handed to a member it had before, or is there no more. -/
def Settled (userId : Id) (m : JsMap Id WorkspaceDispositionDto) (before after : Db) (workspaceId : Id) :
    Prop :=
  ∃ d, m.get workspaceId = some d ∧
    (d.action = .transfer ∧ (∃ t, d.newOwnerUserId = some t ∧ t ≠ userId ∧
        (∃ o ∈ rows WorkspaceMemberRow before, o.workspaceId = workspaceId ∧ o.userId = t) ∧
        IsOwner after workspaceId t) ∨
      d.action = .delete ∧ ∀ s ∈ rows WorkspaceRow after, s.id ≠ workspaceId)

/-- What has been settled stays so, whatever comes before it and after it. -/
theorem Settled.mono {m : JsMap Id WorkspaceDispositionDto} {db₀ db db' db'' : Db} {workspaceId : Id}
    (hbefore : (departure userId (goneWith m)).Holds db₀ db) (h : Settled userId m db db' workspaceId)
    (hafter : (departure userId (goneWith m)).Holds db' db'') : Settled userId m db₀ db'' workspaceId := by
  obtain ⟨d, hget, ⟨htransfer, t, ht, hne, ⟨o, ho, hw, hu⟩, howner⟩ | ⟨hdelete, hnone⟩⟩ := h
  · refine ⟨d, hget, .inl ⟨htransfer, t, ht, hne, ?_,
      isOwner_kept hafter howner hne (not_goneWith hget htransfer)⟩⟩
    obtain ⟨o₀, ho₀, hsame⟩ := member_of_after hbefore ho
    refine ⟨o₀, ho₀, ?_⟩
    rcases hsame with rfl | rfl
    · exact ⟨hw, hu⟩
    · exact ⟨hw, hu⟩
  · exact ⟨d, hget, .inr ⟨hdelete, fun s hs => hnone s (workspace_of_after hafter hs)⟩⟩

theorem settleAll_ok {m : JsMap Id WorkspaceDispositionDto} {memberships : List MembershipRow}
    {lines : List (Option AccountWorkspaceDeletedLogLine)}
    (h : (settleAll userId actorId m memberships).run env w = (.ok lines, w')) :
    ∀ membership ∈ memberships, Settled userId m w.db w'.db membership.workspaceId := by
  induction memberships generalizing w lines with
  | nil => exact fun _ hmem => absurd hmem List.not_mem_nil
  | cons membership rest ih =>
    obtain ⟨line, w₁, h₁, h⟩ := Tx.run_bind_ok h
    obtain ⟨more, w₂, h₂, h⟩ := Tx.run_bind_ok h
    obtain ⟨-, rfl⟩ : line :: more = lines ∧ w₂ = w' := by simpa using h
    have hfirst := (evolves_settle_goneWith m actorId membership).holds h₁
    have hrest := (evolves_settleAll_goneWith m actorId rest).holds h₂
    refine List.forall_mem_cons.mpr ⟨?_, fun x hx => (ih h₂ x hx).mono hfirst (.refl _)⟩
    obtain ⟨d, hget, ⟨htransfer, t, ht, hne, hlive, howner⟩ | hdelete⟩ := settle_ok h₁
    · exact Settled.mono (.refl _) ⟨d, hget, .inl ⟨htransfer, t, ht, hne, hlive.1, howner⟩⟩ hrest
    · exact Settled.mono (.refl _) ⟨d, hget, .inr hdelete⟩ hrest

end Settle

/-! ## A deletion that is done -/

/-- Every workspace has an owner. -/
def Owned (db : Db) : Prop := ∀ s ∈ rows WorkspaceRow db, ∃ userId, IsOwner db s.id userId

/-- Every membership belongs to a user who is not deleted. -/
def LiveMembers (db : Db) : Prop :=
  ∀ m ∈ rows WorkspaceMemberRow db, ∃ r ∈ rows UserRow db, r.id = m.userId ∧ r.deletedAt = none

structure NeverStranded (userId : Id) (dispositions : List WorkspaceDispositionDto) (before after : Db) :
    Prop where
  owned : Owned after
  live : LiveMembers after
  /-- A workspace the user alone owned is gone, or has the owner that was named for it. -/
  settled : ∀ id, SolelyOwns before userId id → (∀ s ∈ rows WorkspaceRow after, s.id ≠ id) ∨
    ∃ d ∈ dispositions, d.workspaceId = id ∧ d.action = .transfer ∧
      ∃ t, d.newOwnerUserId = some t ∧ IsOwner after id t
  erased : ∀ v ∈ after.rows, ¬ departing userId v
  /-- The others keep their memberships, and their roles unless they are promoted. -/
  others : ∀ m ∈ rows WorkspaceMemberRow before, m.userId ≠ userId →
    (∃ s ∈ rows WorkspaceRow after, s.id = m.workspaceId) →
      ∃ m' ∈ rows WorkspaceMemberRow after, m' = m ∨ m' = { m with role := .owner }

/-- What is asked for the deletion to be accepted. -/
structure Acceptable (rt : Runtime) (db : Db) (userId : Id) (dto : DeleteAccountDto) : Prop where
  user : ∃ user ∈ rows UserRow db, user.id = userId ∧ user.deletedAt = none ∧
    rt.toLowerCase (trim dto.confirmEmail) = rt.toLowerCase (trim user.email)
  once : ((dto.dispositions.getD []).map WorkspaceDispositionDto.workspaceId).Nodup
  decided : ∀ id, id ∈ (dto.dispositions.getD []).map WorkspaceDispositionDto.workspaceId ↔
    SolelyOwns db userId id
  targets : ∀ d ∈ dto.dispositions.getD [], d.action = .transfer →
    ∃ t, d.newOwnerUserId = some t ∧ t ≠ userId ∧ LiveMember db d.workspaceId t

section Done

variable {rt : Runtime} {pages : Nat} {userId : Id} {dto : DeleteAccountDto}
  {initiatedBy : DeletionInitiator} {actorId : Option Id} {env : Env kurul} {w w' : World kurul}
  {counts : AccountDeletionCounts}

/-- What the transaction has made of the rows, of the workspaces in question, and of the user. -/
theorem deletionBody_ok {m : JsMap Id WorkspaceDispositionDto} {email : JsString} {deletedAt : Instant}
    {soleOwned other : List MembershipRow} {done : DeletionOutcome}
    (h : (deletionBody pages userId email initiatedBy actorId deletedAt soleOwned other m).run env w =
      (.ok done, w')) :
    (departure userId (goneWith m)).Holds w.db w'.db ∧
      (∀ membership ∈ soleOwned, Settled userId m w.db w'.db membership.workspaceId) ∧
      ∀ v ∈ w'.db.rows, ¬ departing userId v := by
  obtain ⟨lines, w₁, h₁, h⟩ := Tx.run_bind_ok h
  obtain ⟨_, w₂, h₂, h⟩ := Tx.run_bind_ok h
  obtain ⟨counts, w₃, h₃, h⟩ := Tx.run_bind_ok h
  obtain ⟨-, rfl⟩ : _ = done ∧ w₃ = w' := by simpa using h
  have hloop := (evolves_settleAll_goneWith m _ soleOwned).holds h₁
  have hrest : (departure userId (goneWith m)).Holds w₁.db w₃.db :=
    ((evolves_recordDeparture _ _).holds h₂).trans (evolves_erase.holds h₃)
  exact ⟨hloop.trans hrest, fun x hx => (settleAll_ok h₁ x hx).mono (.refl _) hrest,
    none_departing_erase h₃⟩

theorem neverStranded_of_ok (howned : Owned w.db) (hlive : LiveMembers w.db)
    (hdistinct : WorkspaceMemberService.Distinct w.db)
    (h : (deleteAccount rt pages userId dto initiatedBy actorId).run env w = (.ok counts, w')) :
    NeverStranded userId (dto.dispositions.getD []) w.db w'.db ∧ Acceptable rt w.db userId dto := by
  obtain ⟨user, soleOwned, other, m, deletedAt, done, w₁, w₂, huser, hid, halive, hconfirm,
    ⟨w₀, w₀', hdb₀, hpartition⟩, hmatch, hdb₁, hbody, hdb₂, -⟩ := run_deleteAccount_ok h
  obtain ⟨hholds, hsettled, herased⟩ := deletionBody_ok hbody
  rw [hdb₁] at hholds
  rw [← hdb₂] at hholds herased
  have hsole : ∀ id, id ∈ soleOwned.map MembershipRow.workspaceId ↔ SolelyOwns w.db userId id := by
    rw [← hdb₀] at hdistinct ⊢
    exact mem_soleOwned hdistinct hpartition
  obtain ⟨hdecides, hgets⟩ := decides_of_matchDispositions hmatch
  have hsettled : ∀ id, SolelyOwns w.db userId id → Settled userId m w.db w'.db id := by
    intro id hid
    obtain ⟨membership, hmem, rfl⟩ := List.mem_map.mp ((hsole id).mpr hid)
    have hdone := hsettled membership hmem
    rw [hdb₁, ← hdb₂] at hdone
    exact hdone
  have hgone : ∀ id, goneWith m id → ∀ s ∈ rows WorkspaceRow w'.db, s.id ≠ id := by
    rintro id ⟨d, hget, hdelete⟩
    obtain ⟨hsent, rfl⟩ := get_of_matchDispositions hmatch hget
    have hdecided := (hdecides.2 d.workspaceId).mp (List.mem_map_of_mem hsent)
    obtain ⟨d', hget', ⟨htransfer, -⟩ | ⟨-, hnone⟩⟩ := hsettled _ ((hsole _).mp hdecided)
    · obtain rfl : d = d' := Option.some.inj (hget.symm.trans hget')
      rw [hdelete] at htransfer
      cases htransfer
    · exact hnone
  have hothers : ∀ o ∈ rows WorkspaceMemberRow w.db, o.userId ≠ userId →
      (∃ s ∈ rows WorkspaceRow w'.db, s.id = o.workspaceId) →
        ∃ o' ∈ rows WorkspaceMemberRow w'.db, o' = o ∨ o' = { o with role := .owner } := by
    rintro o ho hne ⟨s, hs, hws⟩
    exact member_kept hholds ho hne fun hgo => hgone _ hgo s hs hws
  refine ⟨⟨?_, ?_, ?_, herased, hothers⟩, ⟨⟨user, huser, hid, halive, hconfirm⟩, hdecides.1, ?_, ?_⟩⟩
  · intro s hs
    obtain ⟨ownerId, o, ho, hw, -, hrole⟩ := howned s (workspace_of_after hholds hs)
    by_cases hother : ∃ x ∈ rows WorkspaceMemberRow w.db, x.workspaceId = s.id ∧ x.role = .owner ∧
        x.userId ≠ userId
    · -- somebody else owns it
      obtain ⟨x, hx, hxw, hxrole, hne⟩ := hother
      have hkept : ¬ goneWith m s.id := fun hgo => hgone _ hgo s hs rfl
      exact ⟨x.userId, isOwner_kept hholds ⟨x, hx, hxw, rfl, hxrole⟩ hne hkept⟩
    · have hall : ∀ x ∈ rows WorkspaceMemberRow w.db, x.workspaceId = s.id → x.role = .owner →
          x.userId = userId := by
        intro x hx hxw hxrole
        by_contra hne
        exact hother ⟨x, hx, hxw, hxrole, hne⟩
      obtain ⟨d, -, ⟨-, t, -, -, -, howner⟩ | ⟨-, hnone⟩⟩ :=
        hsettled s.id ⟨⟨o, ho, hw, hall o ho hw hrole, hrole⟩, hall⟩
      · exact ⟨t, howner⟩
      · exact absurd rfl (hnone s hs)
  · intro o' ho'
    have hne : o'.userId ≠ userId := herased _ (mem_rows.mp ho')
    obtain ⟨o, ho, hsame⟩ := member_of_after hholds ho'
    have hu : o'.userId = o.userId := by
      rcases hsame with rfl | rfl
      · rfl
      · rfl
    obtain ⟨r, hr, hid, hdeleted⟩ := hlive o ho
    refine ⟨r, user_kept hholds hr ?_, hid.trans hu.symm, hdeleted⟩
    rw [hid, ← hu]
    exact hne
  · intro id hsolely
    obtain ⟨d, hget, ⟨htransfer, t, ht, -, -, howner⟩ | ⟨-, hnone⟩⟩ := hsettled id hsolely
    · obtain ⟨hsent, hws⟩ := get_of_matchDispositions hmatch hget
      exact .inr ⟨d, hsent, hws, htransfer, t, ht, howner⟩
    · exact .inl hnone
  · intro id
    rw [hdecides.2, hsole]
  · intro d hd htransfer
    have hdecided := (hsole _).mp ((hdecides.2 d.workspaceId).mp (List.mem_map_of_mem hd))
    obtain ⟨d', hget', hcases⟩ := hsettled _ hdecided
    obtain rfl : d = d' := Option.some.inj ((hgets d hd).symm.trans hget')
    rcases hcases with ⟨-, t, ht, hne, ⟨o, ho, hw, hu⟩, -⟩ | ⟨hdelete, -⟩
    · obtain ⟨r, hr, hid, hdeleted⟩ := hlive o ho
      exact ⟨t, ht, hne, ⟨o, ho, hw, hu⟩, r, hr, hid.trans hu, hdeleted⟩
    · rw [htransfer] at hdelete
      cases hdelete

end Done

/-! ## A deletion that is refused -/

/-- The service's own exceptions, as against a statement that fails. -/
def refuses : ApiError → Bool
  | .prisma _ => false
  | _ => true

section Refused

variable {userId : Id} {env : Env kurul} {w w' : World kurul}

theorem raises_query {α : Type} (f : Db → α) : (query f).Raises fun e => refuses e = false :=
  Tx.raises_exec (fun _ => rfl) _

theorem raises_update {R : Type} [Model R] (p : Db → R → Bool) (data : Patch R) :
    (update p data).Raises fun e => refuses e = false := Tx.raises_exec (fun _ => rfl) _

theorem raises_deleteMany {R : Type} [Model R] (p : Db → R → Bool) :
    (deleteMany p).Raises fun e => refuses e = false := Tx.raises_exec (fun _ => rfl) _

theorem raises_record (input : RecordActivityInput) :
    (ActivityService.record input).Raises fun e => refuses e = false :=
  fun _ _ => Tx.raises_exec (fun _ => rfl) _

theorem raises_deleteWorkspace (workspaceId actorId : Id) :
    (deleteWorkspace workspaceId userId actorId).Raises fun e => refuses e = false :=
  (raises_query _).bind fun _ => .bind (Tx.raises_exec (fun _ => rfl) _) fun _ => trivial

theorem raises_recordDeparture (initiatedBy : DeletionInitiator) (left : List MembershipRow) :
    (recordDeparture userId initiatedBy left).Raises fun e => refuses e = false := by
  induction left with
  | nil => trivial
  | cons membership rest ih => exact .bind (raises_record _) fun _ => ih

theorem raises_redactPage (page : List CommentRow) :
    (redactPage userId page).Raises fun e => refuses e = false := by
  induction page with
  | nil => trivial
  | cons comment rest ih =>
    refine .bind ?_ fun _ => .bind ih fun _ => trivial
    unfold redactComment
    dsimp only
    split
    · trivial
    · exact .bind (raises_update _ _) fun _ => trivial

theorem raises_redactPages (pages : Nat) (cursor : Option Id) :
    (redactPages userId pages cursor).Raises fun e => refuses e = false := by
  induction pages generalizing cursor with
  | zero => rfl
  | succ pages ih =>
    refine .bind (raises_query _) fun page => ?_
    split
    · trivial
    · refine .bind (raises_redactPage page) fun _ => ?_
      split
      · trivial
      · exact .bind (ih _) fun _ => trivial

theorem raises_erase {pages : Nat} {email : JsString} {deletedAt : Instant}
    {settled : List (Option AccountWorkspaceDeletedLogLine)} :
    (erase pages userId email deletedAt settled).Raises fun e => refuses e = false := by
  refine .bind (raises_deleteMany _) fun _ => .bind (raises_deleteMany _) fun _ => ?_
  refine .bind (raises_redactPages pages none) fun _ => .bind (Tx.raises_exec (fun _ => rfl) _) fun _ => ?_
  refine .bind (raises_deleteMany _) fun _ => .bind (raises_deleteMany _) fun _ => ?_
  refine .bind (raises_deleteMany _) fun _ => .bind (raises_deleteMany _) fun _ => ?_
  refine .bind (raises_deleteMany _) fun _ => .bind (raises_deleteMany _) fun _ => ?_
  exact .bind (raises_update _ _) fun _ => trivial

/-- A workspace can be handed to a live member. -/
theorem transferOwnership_error {membership : MembershipRow} {newOwnerUserId : Id} {e : ApiError}
    (hne : newOwnerUserId ≠ userId) (hlive : LiveMember w.db membership.workspaceId newOwnerUserId)
    (h : (transferOwnership membership newOwnerUserId userId).run env w = (.error e, w')) :
    refuses e = false := by
  obtain ⟨target, hfound, hdeleted⟩ := findTarget_of_live hlive
  rcases Tx.run_bind_error h with h | ⟨found, w₁, h₁, h⟩
  · exact (raises_query _).run h
  · obtain ⟨rfl, rfl⟩ := run_query_ok h₁
    have hkept : (findTarget membership.workspaceId newOwnerUserId w.db).filter
        (fun _ => decide (newOwnerUserId ≠ userId)) = some target := by
      simp [hfound, hne]
    rw [hkept] at h
    rcases Tx.run_bind_error h with h | ⟨_, w₂, h₂, h⟩
    · simp [orThrow] at h
    · obtain ⟨hsame, rfl⟩ := run_orThrow_ok h₂
      obtain rfl := Option.some.inj hsame
      rcases Tx.run_bind_error h with h | ⟨_, w₃, _, h⟩
      · simp [throwIf, hdeleted] at h
      · refine Tx.Raises.run (.bind (raises_update _ _) fun _ => .bind (raises_record _) fun _ => ?_) h
        trivial

/-- A round of the loop that has what it needs. -/
theorem settle_error {m : JsMap Id WorkspaceDispositionDto} {actorId : Id} {membership : MembershipRow}
    {d : WorkspaceDispositionDto} {e : ApiError} (hget : m.get membership.workspaceId = some d)
    (htargets : d.action = .transfer →
      ∃ t, d.newOwnerUserId = some t ∧ t ≠ userId ∧ LiveMember w.db membership.workspaceId t)
    (h : (settle userId actorId m membership).run env w = (.error e, w')) : refuses e = false := by
  rw [settle, hget] at h
  obtain ⟨workspaceId, action, newOwner⟩ := d
  cases action with
  | transfer =>
    obtain ⟨t, rfl, hne, hlive⟩ := htargets rfl
    rcases Tx.run_bind_error (p := transferOwnership membership t userId) (f := fun _ => pure none) h with
      h | ⟨_, w₁, _, h⟩
    · exact transferOwnership_error hne hlive h
    · simp at h
  | delete =>
    rcases Tx.run_bind_error (p := deleteWorkspace membership.workspaceId userId actorId)
      (f := fun line => pure (some line)) h with h | ⟨_, w₁, _, h⟩
    · exact (raises_deleteWorkspace _ _).run h
    · simp at h

/-- A live member is one still, as far as the workspace stays. -/
theorem liveMember_kept {gone : Id → Prop} {db db' : Db} (h : (departure userId gone).Holds db db')
    {workspaceId otherId : Id} (hlive : LiveMember db workspaceId otherId) (hne : otherId ≠ userId)
    (hkept : ¬ gone workspaceId) : LiveMember db' workspaceId otherId := by
  obtain ⟨⟨m, hm, rfl, rfl⟩, r, hr, hid, hdeleted⟩ := hlive
  refine ⟨?_, r, user_kept h hr (by rw [hid]; exact hne), hid, hdeleted⟩
  obtain ⟨m', hm', hsame⟩ := member_kept h hm hne hkept
  refine ⟨m', hm', ?_⟩
  rcases hsame with rfl | rfl
  · exact ⟨rfl, rfl⟩
  · exact ⟨rfl, rfl⟩

theorem settleAll_error {m : JsMap Id WorkspaceDispositionDto} {actorId : Id}
    {memberships : List MembershipRow} {e : ApiError}
    (htargets : ∀ membership ∈ memberships, ∃ d, m.get membership.workspaceId = some d ∧
      (d.action = .transfer →
        ∃ t, d.newOwnerUserId = some t ∧ t ≠ userId ∧ LiveMember w.db membership.workspaceId t))
    (h : (settleAll userId actorId m memberships).run env w = (.error e, w')) : refuses e = false := by
  induction memberships generalizing w with
  | nil => simp [settleAll] at h
  | cons membership rest ih =>
    obtain ⟨⟨d, hget, hfirst⟩, hrest⟩ := List.forall_mem_cons.mp htargets
    rcases Tx.run_bind_error h with h | ⟨line, w₁, h₁, h⟩
    · exact settle_error hget hfirst h
    · have hholds := (evolves_settle_goneWith m actorId membership).holds h₁
      rcases Tx.run_bind_error h with h | ⟨lines, w₂, _, h⟩
      · refine ih (fun x hx => ?_) h
        obtain ⟨d, hget, htarget⟩ := hrest x hx
        refine ⟨d, hget, fun htransfer => ?_⟩
        obtain ⟨t, ht, hne, hlive⟩ := htarget htransfer
        exact ⟨t, ht, hne, liveMember_kept hholds hlive hne (not_goneWith hget htransfer)⟩
      · simp at h

theorem run_evictAll_ok (env : Env kurul) (userId : Id) (workspaceIds : List Id) :
    ∀ w : World kurul, ((evictAll userId workspaceIds).run env w).1 = .ok () := by
  induction workspaceIds with
  | nil => exact fun _ => rfl
  | cons workspaceId rest ih =>
    exact fun w => ih { w with events := w.events ++ [.evicted workspaceId userId] }

/-- The user of an acceptable request is found. -/
theorem requireLiveUser_error {rt : Runtime} {dto : DeleteAccountDto} {e : ApiError}
    (h : (requireLiveUser userId).run env w = (.error e, w')) (hok : Acceptable rt w.db userId dto) :
    refuses e = false := by
  rcases Tx.run_bind_error h with h | ⟨found, w₁, h₁, h⟩
  · exact (raises_query _).run h
  · obtain ⟨rfl, rfl⟩ := run_query_ok h₁
    obtain ⟨user, huser, hid, hlive, -⟩ := hok.user
    have hfound : (rows UserRow w.db).find? (userScope userId w.db) = some user :=
      byId_eq_some.mpr ⟨huser, hid⟩
    rw [hfound, Option.filter_some_pos (by rw [hlive]; rfl)] at h
    simp [orThrow] at h

/-- A call that throws has changed nothing, and does not refuse what is acceptable. -/
theorem deleteAccount_ends (hdistinct : WorkspaceMemberService.Distinct w.db) {rt : Runtime} {pages : Nat}
    {dto : DeleteAccountDto} {initiatedBy : DeletionInitiator} {actorId : Option Id} :
    (deleteAccount rt pages userId dto initiatedBy actorId).Ends env w (fun _ _ => True) fun e w' =>
      w'.db = w.db ∧ (Acceptable rt w.db userId dto → refuses e = false) := by
  unfold deleteAccount
  rw [Call.ends_bind]
  refine Call.ends_auto (fun user w₀ h₀ => ?_) fun e w₀ h₀ => ?_
  swap
  · have hdb := (readOnly_requireLiveUser userId).run_db env w
    rw [h₀] at hdb
    exact ⟨hdb, requireLiveUser_error h₀⟩
  obtain ⟨huser, hid, -, hdb₀⟩ := run_requireLiveUser_ok h₀
  have hconfirmed : Acceptable rt w.db userId dto →
      rt.toLowerCase (trim dto.confirmEmail) = rt.toLowerCase (trim user.email) := by
    intro hok
    obtain ⟨user', huser', hid', -, hconfirm⟩ := hok.user
    rwa [eq_of_id huser huser' (hid.trans hid'.symm)]
  split
  · rename_i hdiffers
    exact ⟨hdb₀, fun hok => absurd (hconfirmed hok) hdiffers⟩
  rw [Call.ends_bind]
  have hread := (readOnly_partitionMemberships userId).run_db env w₀
  refine Call.ends_auto (fun parts w₁ h₁ => ?_) fun e w₁ h₁ => ?_
  swap
  · rw [h₁, hdb₀] at hread
    have hraises : (partitionMemberships userId).Raises fun e => refuses e = false := by
      refine (raises_query _).bind fun memberships => .bind ?_ fun _ => trivial
      unfold countOwners
      split
      · trivial
      · exact raises_query _
    exact ⟨hread, fun _ => hraises.run h₁⟩
  obtain ⟨soleOwned, other⟩ := parts
  rw [h₁, hdb₀] at hread
  have hread : w₁.db = w.db := hread
  have hsole : ∀ id, id ∈ soleOwned.map MembershipRow.workspaceId ↔ SolelyOwns w.db userId id := by
    rw [← hdb₀] at hdistinct ⊢
    exact mem_soleOwned hdistinct h₁
  dsimp only
  rw [Call.ends_bind]
  cases hmatch : matchDispositions soleOwned (dto.dispositions.getD []) with
  | error e =>
    refine ⟨hread, fun hok => absurd ?_ (matchDispositions_error hmatch)⟩
    exact ⟨hok.once, fun id => (hok.decided id).trans (hsole id).symm⟩
  | ok m =>
    show Call.Ends (Call.auto Tx.now >>= fun _ => _) env w₁ _ _
    rw [Call.ends_bind]
    refine Call.ends_auto (fun deletedAt w₂ h₂ => ?_) fun e w₂ h₂ => by cases h₂
    have hdb₂ : w₂.db = w.db := (run_now_ok h₂).trans hread
    rw [Call.ends_bind]
    refine Call.ends_body (fun done w₃ w₄ _ _ => ?_) (fun e w₃ w₄ hbody hdb => ?_) fun f w₄ hdb => ?_
    · rw [Call.ends_bind, Call.Ends]
      have hevict := run_evictAll_ok env userId done.evictions w₄
      rcases hr : (evictAll userId done.evictions).run env w₄ with ⟨r, w₅⟩
      rw [hr] at hevict
      obtain rfl : r = .ok () := hevict
      exact trivial
    · refine ⟨hdb.trans hdb₂, fun hok => ?_⟩
      rcases Tx.run_bind_error hbody with hbody | ⟨lines, w₅, _, hbody⟩
      · refine settleAll_error (fun membership hmem => ?_) hbody
        obtain ⟨hdecides, hgets⟩ := decides_of_matchDispositions hmatch
        obtain ⟨d, hd, hws⟩ := List.mem_map.mp ((hdecides.2 _).mpr (List.mem_map_of_mem hmem))
        rw [hdb₂, ← hws]
        exact ⟨d, hgets d hd, hok.targets d hd⟩
      · refine Tx.Raises.run (.bind (raises_recordDeparture _ _) fun _ => .bind raises_erase fun _ => ?_) hbody
        trivial
    · exact ⟨hdb.trans hdb₂, fun _ => rfl⟩

end Refused

/-- A deletion is done in full or not at all: it strands no workspace, and is refused exactly if it is not
acceptable. -/
theorem never_stranded {rt : Runtime} {pages : Nat} {userId : Id} {dto : DeleteAccountDto}
    {initiatedBy : DeletionInitiator} {actorId : Option Id} {env : Env kurul} {w : World kurul}
    (howned : Owned w.db) (hlive : LiveMembers w.db) (hdistinct : WorkspaceMemberService.Distinct w.db) :
    (deleteAccount rt pages userId dto initiatedBy actorId).Ends env w
      (fun _ w' => NeverStranded userId (dto.dispositions.getD []) w.db w'.db ∧
        Acceptable rt w.db userId dto)
      fun e w' => w'.db = w.db ∧ (refuses e = true → ¬ Acceptable rt w.db userId dto) := by
  have herr : (deleteAccount rt pages userId dto initiatedBy actorId).Ends env w (fun _ _ => True)
      fun e w' => w'.db = w.db ∧ (Acceptable rt w.db userId dto → refuses e = false) :=
    deleteAccount_ends hdistinct
  unfold Call.Ends at herr ⊢
  rcases hr : (deleteAccount rt pages userId dto initiatedBy actorId).run env w with ⟨r, w'⟩
  rw [hr] at herr
  cases r with
  | ok counts => exact neverStranded_of_ok howned hlive hdistinct hr
  | error e =>
    obtain ⟨hdb, hrefuses⟩ := herr
    refine ⟨hdb, fun hrefused hok => ?_⟩
    rw [hrefuses hok] at hrefused
    cases hrefused

theorem never_stranded_transferred :
    ((deleteAccount Runtime.bare 1 (js "joann") toAnn .self none).run calm (.start annAndJoann)).1.isOk = true ∧
    NeverStranded (js "joann") (toAnn.dispositions.getD []) annAndJoann
      ((deleteAccount Runtime.bare 1 (js "joann") toAnn .self none).run calm (.start annAndJoann)).2.db := by
  have hrun : ((deleteAccount Runtime.bare 1 (js "joann") toAnn .self none).run calm
      (.start annAndJoann)).1.isOk = true := by decide +kernel
  obtain ⟨counts, w', hr⟩ := Call.run_isOk calm (.start annAndJoann) hrun
  have hmembers : rows WorkspaceMemberRow annAndJoann =
      [⟨js "m", js "w", js "joann", .owner⟩, ⟨js "n", js "w", js "ann", .member⟩] := rfl
  have howned : Owned annAndJoann := by
    intro s hs
    obtain rfl : s = ⟨js "w", js "Workspace", js "workspace"⟩ := List.mem_singleton.mp hs
    exact ⟨js "joann", _, hmembers ▸ List.mem_cons_self, rfl, rfl, rfl⟩
  have hlive : LiveMembers annAndJoann := by
    intro m hm
    rw [hmembers] at hm
    rcases List.mem_cons.mp hm with rfl | hm
    · exact ⟨_, List.mem_cons_of_mem _ List.mem_cons_self, rfl, rfl⟩
    · obtain rfl := List.mem_singleton.mp hm
      exact ⟨_, List.mem_cons_self, rfl, rfl⟩
  have hdistinct : WorkspaceMemberService.Distinct annAndJoann := by
    intro m hm m' hm' _ huser
    rw [hmembers] at hm hm'
    rcases List.mem_cons.mp hm with rfl | hm <;> rcases List.mem_cons.mp hm' with rfl | hm'
    · rfl
    · obtain rfl := List.mem_singleton.mp hm'
      exact absurd huser (by decide)
    · obtain rfl := List.mem_singleton.mp hm
      exact absurd huser (by decide)
    · rw [List.mem_singleton.mp hm, List.mem_singleton.mp hm']
  have hdone := (@never_stranded Runtime.bare 1 (js "joann") toAnn .self none calm (.start annAndJoann)
    howned hlive hdistinct).of_ok hr
  rw [hr]
  exact ⟨rfl, hdone.1⟩

/-- A user who is deleted already, and has no workspace. -/
def tombstone : UserRow :=
  ⟨js "u", js "deleted-u@deleted.invalid", js "Deleted user", false, none, none, some 0⟩

def onlyTombstone : Db := ⟨[.user tombstone], List.nodup_singleton _⟩

/-- Who is deleted already is refused, whatever the request says. -/
theorem tombstone_refused :
    ¬ ∀ (rt : Runtime) (pages : Nat) (dto : DeleteAccountDto) (initiatedBy : DeletionInitiator)
      (actorId : Option Id) (env : Env kurul) (w w' : World kurul) (user : UserRow) (e : ApiError),
      Owned w.db → LiveMembers w.db → WorkspaceMemberService.Distinct w.db → user ∈ rows UserRow w.db →
      rt.toLowerCase (trim dto.confirmEmail) = rt.toLowerCase (trim user.email) →
      ((dto.dispositions.getD []).map WorkspaceDispositionDto.workspaceId).Nodup →
      (∀ id, id ∈ (dto.dispositions.getD []).map WorkspaceDispositionDto.workspaceId ↔
        SolelyOwns w.db user.id id) →
      (∀ d ∈ dto.dispositions.getD [], d.action = .transfer →
        ∃ t, d.newOwnerUserId = some t ∧ t ≠ user.id ∧ LiveMember w.db d.workspaceId t) →
      (deleteAccount rt pages user.id dto initiatedBy actorId).run env w = (.error e, w') →
      refuses e = false := by
  intro h
  have hrun : ((deleteAccount Runtime.bare 1 tombstone.id ⟨tombstone.email, none⟩ .self none).run calm
      (.start onlyTombstone)).1 = .error (.notFound (js "Account not found")) := by decide +kernel
  have hnone : ∀ m, m ∉ rows WorkspaceMemberRow onlyTombstone := fun m hm => absurd hm List.not_mem_nil
  have hrefused := h Runtime.bare 1 ⟨tombstone.email, none⟩ .self none calm (.start onlyTombstone) _ tombstone _
    (fun s hs => absurd hs List.not_mem_nil) (fun m hm => absurd hm (hnone m))
    (fun m hm => absurd hm (hnone m)) List.mem_cons_self rfl List.nodup_nil
    (fun id => ⟨fun hid => absurd hid List.not_mem_nil, fun hsole => by
      obtain ⟨⟨m, hm, _⟩, _⟩ := hsole
      exact absurd hm (hnone m)⟩)
    (fun d hd => absurd hd List.not_mem_nil) (Prod.ext hrun rfl)
  cases hrefused

end AccountDeletionService
end Kurul
