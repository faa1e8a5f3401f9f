import Kurul.Account.NeverStranded
import Kurul.Db.Kept

/-!
# Kurul.Account.OwnersKept

Accounts deleted at the same time, statement by statement.

* `SoleStill`    — a deletion commits while its user alone owns what its partition found, and no more.
* `owners_kept`  — along every run of such steps every workspace keeps an owner, and none goes that has
  another one.
* `owners_leave` — two owners who leave at once leave the workspace without.
-/

namespace Kurul
namespace AccountDeletionService

open Sql
open WorkspaceMemberService (IsOwner)

structure DeletionRequest where
  userId : Id
  dto : DeleteAccountDto
  initiatedBy : DeletionInitiator
  actorId : Option Id

def DeletionRequest.call (rt : Runtime) (pages : Nat) (rq : DeletionRequest) : Call kurul Unit := do
  let _ ← deleteAccount rt pages rq.userId rq.dto rq.initiatedBy rq.actorId

/-- By what a call has read, the user is an owner of the workspace and no second one is counted. -/
def FoundSole (userId : Id) (saw : List Db) (workspaceId : Id) : Prop :=
  ∃ members counted, saw[1]? = some members ∧ saw[2]? = some counted ∧
    IsOwner members workspaceId userId ∧ (ownersOf counted workspaceId).length ≤ 1

/-- When a deletion commits, its user alone owns the workspaces the call has found, and no other. -/
def SoleStill {ι : Type} (rqs : ι → DeletionRequest) (i : ι) (saw : List Db) (a : Act kurul) (db : Db) :
    Prop :=
  match a with
  | .commit _ => ∀ s ∈ rows WorkspaceRow db,
      SolelyOwns db (rqs i).userId s.id ↔ FoundSole (rqs i).userId saw s.id
  | _ => True

/-- A workspace goes only with its last owner. -/
def GoesWithLast (userId : Id) (db db' : Db) : Prop :=
  ∀ s ∈ rows WorkspaceRow db, s ∉ rows WorkspaceRow db' →
    ∀ o ∈ rows WorkspaceMemberRow db, o.workspaceId = s.id → o.role = .owner → o.userId = userId

/-- What is kept: every workspace has an owner. -/
def ownership {ι : Type} (rqs : ι → DeletionRequest) : Sql.Ledger kurul ι (List Db) where
  note := seen
  Within _ _ := True
  Inv := Owned
  Cond := SoleStill rqs
  Guar i _ _ db db' := GoesWithLast (rqs i).userId db db'
  Ends _ _ _ := True
  note_quiet := seen_quiet
  within_refl _ := trivial
  within_trans _ _ := trivial
  within_exec _ _ _ _ := trivial

/-! ## Inside the transaction -/

section Progress

variable {userId : Id} {m : JsMap Id WorkspaceDispositionDto} {found g : List Db} {done : List Id}
  {own : Local kurul} {db db' : Db}

/-- The transaction has written what becomes of a workspace: it has another owner, or goes. -/
def Handed (userId : Id) (m : JsMap Id WorkspaceDispositionDto) (own : Local kurul) (db : Db)
    (workspaceId : Id) : Prop :=
  ∃ d, m.get workspaceId = some d ∧
    (d.action = .transfer ∧ (∃ o : WorkspaceMemberRow, own.Wrote ⟨.workspaceMember, o.id⟩ ∧
        (own.view db).get? ⟨.workspaceMember, o.id⟩ = some (.workspaceMember o) ∧
        o.workspaceId = workspaceId ∧ o.role = .owner ∧ o.userId ≠ userId) ∨
      d.action = .delete ∧ own.Wrote ⟨.workspace, workspaceId⟩ ∧
        (own.view db).get? ⟨.workspace, workspaceId⟩ = none)

/-- How far the transaction is, on the reads its call began with. -/
structure Progress (userId : Id) (m : JsMap Id WorkspaceDispositionDto) (found : List Db) (done : List Id)
    (g : List Db) (own : Local kurul) (db : Db) : Prop where
  read : found <+: g
  within : (departure userId (goneWith m)).footprint.Covers own.delta db
  handed : ∀ id ∈ done, Handed userId m own db id

theorem Handed.held {id : Id} (h : Handed userId m own db id) (db' : Db) : Handed userId m own db' id := by
  obtain ⟨d, hget, ⟨htransfer, o, hwrote, ho, hrest⟩ | ⟨hdelete, hwrote, hnone⟩⟩ := h
  · exact ⟨d, hget, .inl ⟨htransfer, o, hwrote, (Local.get?_view_of_wrote hwrote db' db).trans ho, hrest⟩⟩
  · exact ⟨d, hget, .inr ⟨hdelete, hwrote, (Local.get?_view_of_wrote hwrote db' db).trans hnone⟩⟩

/-- Nothing takes it back. -/
theorem Handed.add {id : Id} (h : Handed userId m own db id) {γ : Type} {e : Effect kurul γ}
    (he : (departure userId (goneWith m)).footprint.Covers e.writes (own.view db)) :
    Handed userId m (own.add e) db id := by
  have hholds := Evolution.holds_of_covers he
  rw [← Local.view_add] at hholds
  obtain ⟨d, hget, ⟨htransfer, o, hwrote, ho, hw, hrole, hne⟩ | ⟨hdelete, hwrote, hnone⟩⟩ := h
  · have hkept : ¬ goneWith m o.workspaceId := by
      rw [hw]
      exact not_goneWith hget htransfer
    obtain ⟨o', ho'⟩ := (hholds _).member_stays o ho hne hkept
    obtain ⟨o₀, ho₀, hsame⟩ := (hholds _).member_from o' ho'
    obtain rfl : o = o₀ := Row.workspaceMember.inj (Option.some.inj (ho.symm.trans ho₀))
    have hwrote' : (own.add e).Wrote ⟨.workspaceMember, o.id⟩ := Local.wrote_add.mpr (.inl hwrote)
    rcases hsame with rfl | rfl
    · exact ⟨d, hget, .inl ⟨htransfer, o', hwrote', ho', hw, hrole, hne⟩⟩
    · exact ⟨d, hget, .inl ⟨htransfer, { o with role := .owner }, hwrote', ho', hw, rfl, hne⟩⟩
  · refine ⟨d, hget, .inr ⟨hdelete, Local.wrote_add.mpr (.inl hwrote), ?_⟩⟩
    cases hnew : ((own.add e).view db).get? ⟨.workspace, id⟩ with
    | none => rfl
    | some v =>
      obtain ⟨s, rfl, _, _⟩ := (get?_eq_some (R := WorkspaceRow)).mp hnew
      have hold := (hholds ⟨.workspace, id⟩).workspace_from s hnew
      rw [hnone] at hold
      cases hold

theorem Progress.held (h : Progress userId m found done g own db) (hheld : own.Held db db') :
    Progress userId m found done g own db' where
  read := h.read
  within x hx := by
    rw [hheld.wrote (List.mem_map_of_mem hx)]
    exact h.within x hx
  handed id hid := (h.handed id hid).held db'

theorem Progress.note (h : Progress userId m found done g own db) (saw : Db) :
    Progress userId m found done (g ++ [saw]) own db where
  read := h.read.trans (List.prefix_append g [saw])
  within := h.within
  handed := h.handed

theorem Progress.add (h : Progress userId m found done g own db) {γ : Type} {e : Effect kurul γ}
    (he : (departure userId (goneWith m)).footprint.Covers e.writes (own.view db)) (saw : Db) :
    Progress userId m found done (g ++ [saw]) (own.add e) db where
  read := h.read.trans (List.prefix_append g [saw])
  within := h.within.append he
  handed id hid := (h.handed id hid).add he

theorem Progress.hand (h : Progress userId m found done g own db) {id : Id}
    (hid : Handed userId m own db id) : Progress userId m found (done ++ [id]) g own db where
  read := h.read
  within := h.within
  handed id' hid' := by
    rcases List.mem_append.mp hid' with hid' | hid'
    · exact h.handed id' hid'
    · rw [List.mem_singleton.mp hid']
      exact hid

variable {ι : Type} {rqs : ι → DeletionRequest} {i : ι} {α : Type}

/-- A part of the transaction that settles nothing. -/
theorem progress_within {b : Tx kurul α} (hb : b.Within (departure userId (goneWith m)).footprint)
    {Q : α → List Db → Local kurul → Db → Prop}
    (hQ : ∀ a g own db, Progress userId m found done g own db → Q a g own db)
    (h : Progress userId m found done g own db) : b.Kept (ownership rqs) i Q g own db :=
  hb.kept (fun _ _ _ _ _ he hp => hp.add he _) (fun _ _ _ _ hheld hp => hp.held hheld) hQ h

theorem transferOwnership_kept {membership : MembershipRow} {t : Id} {d : WorkspaceDispositionDto}
    (hget : m.get membership.workspaceId = some d) (htransfer : d.action = .transfer)
    {Q : Unit → List Db → Local kurul → Db → Prop}
    (hQ : ∀ u g own db, Progress userId m found (done ++ [membership.workspaceId]) g own db → Q u g own db)
    (h : Progress userId m found done g own db) :
    (transferOwnership membership t userId).Kept (ownership rqs) i Q g own db := by
  simp only [transferOwnership, Tx.Kept_bind]
  refine Kept_query fun db₁ hn₁ => Kept_orThrow fun target htarget => Kept_throwIf fun _ => ?_
  refine Kept_update fun db₂ hn₂ o ho => ?_
  have hne : t ≠ userId := of_decide_eq_true (Option.filter_eq_some_iff.mp htarget).2
  obtain ⟨hw, hu⟩ := memberScope_iff.mp (List.find?_some ho)
  have hmem := List.mem_of_find?_eq_some ho
  have hprogress := ((h.held hn₁.1).note (own.view db₁)).held hn₂.1
  -- the promotion
  have hcovers : (departure userId (goneWith m)).footprint.Covers
      [.put (.workspaceMember ((setRole .owner).apply o))] (own.view db₂) := by
    intro x hx
    rw [List.mem_singleton.mp hx]
    show Departs userId _ ((own.view db₂).get? ⟨.workspaceMember, o.id⟩) _
    rw [show (own.view db₂).get? ⟨.workspaceMember, o.id⟩ = some (.workspaceMember o) from get?_row hmem]
    exact departs_promoted o
  refine progress_within (evolves_record _) (fun _ => hQ ()) ?_
  refine (hprogress.add (e := ⟨(setRole .owner).apply o, _, _⟩) hcovers (own.view db₂)).hand ?_
  refine ⟨d, hget, .inl ⟨htransfer, (setRole .owner).apply o, ?_, ?_, hw, rfl, ?_⟩⟩
  · exact Local.wrote_add.mpr (.inr (List.mem_singleton_self _))
  · rw [Local.view_add]
    exact (Store.get?_put _ _ _).trans (if_pos rfl)
  · show o.userId ≠ userId
    rw [hu]
    exact hne

theorem deleteWorkspace_kept {membership : MembershipRow} {actorId : Id} {d : WorkspaceDispositionDto}
    (hget : m.get membership.workspaceId = some d) (hdelete : d.action = .delete)
    {Q : AccountWorkspaceDeletedLogLine → List Db → Local kurul → Db → Prop}
    (hQ : ∀ line g own db, Progress userId m found (done ++ [membership.workspaceId]) g own db →
      Q line g own db)
    (h : Progress userId m found done g own db) :
    (deleteWorkspace membership.workspaceId userId actorId).Kept (ownership rqs) i Q g own db := by
  have hgone : goneWith m membership.workspaceId := ⟨d, hget, hdelete⟩
  have hwithin := @evolves_deleteWorkspace userId (goneWith m) membership.workspaceId actorId hgone
  simp only [deleteWorkspace, Tx.Kept_bind]
  refine Kept_query fun db₁ hn₁ => ?_
  intro db₂ hn₂ e he
  have hprogress := ((h.held hn₁.1).note (own.view db₁)).held hn₂.1
  have hcovers := (hwithin.2 none).1 (own.view db₂) e he
  refine hQ _ _ _ _ ((hprogress.add hcovers (own.view db₂)).hand ?_)
  obtain ⟨s, ws, hfound, hws, rfl⟩ := eval_delete he
  have hid : s.id = membership.workspaceId := by simpa using List.find?_some hfound
  obtain ⟨hwrote, hnone⟩ := workspace_deleted (List.mem_of_find?_eq_some hfound) hws
  rw [hid] at hwrote hnone
  refine ⟨d, hget, .inr ⟨hdelete, Local.wrote_add.mpr (.inr hwrote), ?_⟩⟩
  rw [Local.view_add]
  exact hnone

theorem settle_kept {membership : MembershipRow} {actorId : Id}
    {Q : Option AccountWorkspaceDeletedLogLine → List Db → Local kurul → Db → Prop}
    (hQ : ∀ line g own db, Progress userId m found (done ++ [membership.workspaceId]) g own db →
      Q line g own db)
    (h : Progress userId m found done g own db) :
    (settle userId actorId m membership).Kept (ownership rqs) i Q g own db := by
  unfold settle
  cases hget : m.get membership.workspaceId with
  | none => trivial
  | some d =>
    rcases hd : d with ⟨workspaceId, action, newOwner⟩
    cases action with
    | transfer =>
      cases newOwner with
      | none => trivial
      | some t =>
        show Tx.Kept _ _ _ (transferOwnership membership t userId >>= fun _ => pure none) _ _ _
        rw [Tx.Kept_bind]
        exact transferOwnership_kept hget (by rw [hd]) (fun _ => hQ none) h
    | delete =>
      show Tx.Kept _ _ _ (deleteWorkspace membership.workspaceId userId actorId >>= fun line =>
        pure (some line)) _ _ _
      rw [Tx.Kept_bind]
      exact deleteWorkspace_kept hget (by rw [hd]) (fun line => hQ (some line)) h

/-- The loop: one workspace after the other. -/
theorem settleAll_kept {memberships : List MembershipRow} {actorId : Id}
    {Q : List (Option AccountWorkspaceDeletedLogLine) → List Db → Local kurul → Db → Prop}
    (hQ : ∀ lines g own db,
      Progress userId m found (done ++ memberships.map MembershipRow.workspaceId) g own db →
        Q lines g own db)
    (h : Progress userId m found done g own db) :
    (settleAll userId actorId m memberships).Kept (ownership rqs) i Q g own db := by
  induction memberships generalizing done g own db Q with
  | nil =>
    refine hQ _ _ _ _ ?_
    rw [List.map_nil, List.append_nil]
    exact h
  | cons membership rest ih =>
    simp only [settleAll, Tx.Kept_bind]
    refine settle_kept (fun line g own db hfirst => ?_) h
    refine ih (fun lines g own db hrest => hQ _ _ _ _ ?_) hfirst
    rw [List.append_assoc] at hrest
    exact hrest

end Progress

/-! ## The commit -/

section Commit

variable {ι : Type} {rqs : ι → DeletionRequest} {i : ι} {m : JsMap Id WorkspaceDispositionDto}
  {found g : List Db} {own : Local kurul} {db : Db} {soleOwned : List Id}

/-- What the transaction commits: every workspace that is left has an owner. -/
theorem owned_of_progress (hm : ∀ id, goneWith m id → id ∈ soleOwned)
    (hfound : ∀ g, found <+: g → ∀ id, id ∈ soleOwned ↔ FoundSole (rqs i).userId g id)
    (h : Progress (rqs i).userId m found soleOwned g own db) (howned : Owned db)
    (hstill : ∀ s ∈ rows WorkspaceRow db,
      SolelyOwns db (rqs i).userId s.id ↔ FoundSole (rqs i).userId g s.id) :
    Owned (own.view db) ∧ GoesWithLast (rqs i).userId db (own.view db) := by
  have hholds := Evolution.holds_of_covers h.within
  have hsole : ∀ s ∈ rows WorkspaceRow db, s.id ∈ soleOwned ↔ SolelyOwns db (rqs i).userId s.id :=
    fun s hs => (hfound g h.read s.id).trans (hstill s hs).symm
  have hgone : ∀ id, goneWith m id → ∀ s ∈ rows WorkspaceRow (own.view db), s.id ≠ id := by
    rintro id hgo s hs rfl
    obtain ⟨d, hget, hcases⟩ := h.handed s.id (hm s.id hgo)
    rcases hcases with ⟨htransfer, -⟩ | ⟨-, -, hnone⟩
    · exact not_goneWith hget htransfer hgo
    · cases hnone.symm.trans (get?_row hs)
  refine ⟨fun s hs => ?_, fun s hs hgo o ho hw hrole => ?_⟩
  · have hbefore := workspace_of_after hholds hs
    obtain ⟨ownerId, o, ho, hw, -, hrole⟩ := howned s hbefore
    by_cases hother : ∃ x ∈ rows WorkspaceMemberRow db, x.workspaceId = s.id ∧ x.role = .owner ∧
        x.userId ≠ (rqs i).userId
    · obtain ⟨x, hx, hxw, hxrole, hne⟩ := hother
      have hkept : ¬ goneWith m s.id := fun hgo => hgone _ hgo s hs rfl
      exact ⟨x.userId, isOwner_kept hholds ⟨x, hx, hxw, rfl, hxrole⟩ hne hkept⟩
    · -- then the call has found it, and it has been handed over
      have hall : ∀ x ∈ rows WorkspaceMemberRow db, x.workspaceId = s.id → x.role = .owner →
          x.userId = (rqs i).userId := by
        intro x hx hxw hxrole
        by_contra hne
        exact hother ⟨x, hx, hxw, hxrole, hne⟩
      have hmem := (hsole s hbefore).mpr ⟨⟨o, ho, hw, hall o ho hw hrole, hrole⟩, hall⟩
      obtain ⟨d, -, ⟨-, x, -, hget, hxw, hxrole, -⟩ | ⟨-, -, hnone⟩⟩ := h.handed s.id hmem
      · exact ⟨x.userId, x, mem_rows.mpr (Store.mem_of_get? hget), hxw, rfl, hxrole⟩
      · cases hnone.symm.trans (get?_row hs)
  · by_cases hgoes : goneWith m s.id
    · exact ((hsole s hs).mp (hm s.id hgoes)).2 o ho hw hrole
    · have hstays := (hholds ⟨.workspace, s.id⟩).workspace_stays s (get?_row hs) hgoes
      exact absurd (mem_rows.mpr (Store.mem_of_get? hstays)) hgo

theorem deletionBody_kept {pages : Nat} {email : JsString} {deletedAt : Instant}
    {memberships other : List MembershipRow} {Q : DeletionOutcome → List Db → Prop}
    (hm : ∀ id, goneWith m id → id ∈ memberships.map MembershipRow.workspaceId)
    (hfound : ∀ g, found <+: g → ∀ id, id ∈ memberships.map MembershipRow.workspaceId ↔
      FoundSole (rqs i).userId g id)
    (hQ : ∀ done g, Q done g) :
    (deletionBody pages (rqs i).userId email (rqs i).initiatedBy (rqs i).actorId deletedAt memberships other
      m).Kept (ownership rqs) i (CommitKept (ownership rqs) i .transaction Q) found .empty db := by
  have hstart : Progress (rqs i).userId m found [] found .empty db :=
    ⟨List.prefix_refl _, Footprint.Covers.nil _, fun _ h => absurd h List.not_mem_nil⟩
  simp only [deletionBody, Tx.Kept_bind]
  refine settleAll_kept (fun lines g₁ own₁ db₁ h₁ => ?_) hstart
  refine progress_within (evolves_recordDeparture _ _) (fun _ g₂ own₂ db₂ h₂ => ?_) h₁
  refine progress_within evolves_erase (fun counts g₃ own₃ db₃ h₃ => ?_) h₂
  intro db' hn
  have hprogress := h₃.held hn.1
  rw [List.nil_append] at hprogress
  obtain ⟨howned, hgoes⟩ := owned_of_progress hm hfound hprogress hn.2.1 hn.2.2
  exact ⟨⟨howned, .inr hgoes⟩, hQ _ _⟩

end Commit

/-! ## The call -/

section Call

variable {ι : Type} {rqs : ι → DeletionRequest} {i : ι} {userId : Id}

/-- The partition, and what it has read. -/
theorem partitionMemberships_kept {Q : List MembershipRow × List MembershipRow → List Db → Prop}
    {E : ApiError → List Db → Prop} (hE : ∀ e g, E e g) {live : Db}
    (hQ : ∀ soleOwned other found, (∀ g, found <+: g → ∀ id,
      id ∈ soleOwned.map MembershipRow.workspaceId ↔ FoundSole userId g id) → Q (soleOwned, other) found) :
    (Call.auto (partitionMemberships userId)).Kept (ownership rqs) i Q E [live] := by
  simp only [partitionMemberships, Call.auto_bind, Call.Kept_bind]
  refine Kept_auto_query (fun e => hE e _) fun members hinv _ => ?_
  have hread : ∀ {found g : List Db}, found = [live, members] ∨ (∃ d, found = [live, members, d]) →
      found <+: g → g[1]? = some members := by
    rintro found g hfound ⟨rest, rfl⟩
    rcases hfound with rfl | ⟨d, rfl⟩
    · rfl
    · rfl
  unfold countOwners
  split
  · rename_i hnil
    -- nobody's owner: no counts are read
    refine hQ _ _ _ fun g hg id => ?_
    have hnone : ∀ row ∈ membershipsOf userId members, row.role ≠ .owner := by
      have hempty := List.filter_eq_nil_iff.mp (List.map_eq_nil_iff.mp (List.isEmpty_iff.mp hnil))
      exact fun row hrow hrole => hempty row hrow (decide_eq_true hrole)
    constructor
    · intro hid
      obtain ⟨row, hrow, rfl⟩ := List.mem_map.mp hid
      obtain ⟨hrow, hsole⟩ := List.mem_filter.mp hrow
      exact absurd (of_decide_eq_true (Bool.and_eq_true_iff.mp hsole).1) (hnone row hrow)
    · rintro ⟨members', counted, hmembers, -, ⟨o, ho, hw, hu, hrole⟩, -⟩
      rw [hread (.inl rfl) hg] at hmembers
      obtain rfl := Option.some.inj hmembers
      refine absurd rfl (hnone ⟨id, .owner⟩ ?_)
      simp only [membershipsOf, List.mem_map, mem_sortBy, List.mem_filter, decide_eq_true_eq]
      exact ⟨o, ⟨ho, hu⟩, by rw [hw, hrole]⟩
  · refine Kept_auto_query (fun e => hE e _) fun counted _ _ => ?_
    refine hQ _ _ _ fun g hg id => ?_
    have hcounted : g[2]? = some counted := by
      obtain ⟨rest, rfl⟩ := hg
      rfl
    refine (mem_isSoleOwner (fun id hid => getD_countOwners hid) id).trans ⟨fun hid => ?_, ?_⟩
    · exact ⟨members, counted, hread (.inr ⟨counted, rfl⟩) hg, hcounted, hid⟩
    · rintro ⟨members', counted', hmembers, hcounted', hid⟩
      rw [hread (.inr ⟨counted, rfl⟩) hg] at hmembers
      rw [hcounted] at hcounted'
      obtain rfl := Option.some.inj hmembers
      obtain rfl := Option.some.inj hcounted'
      exact hid

theorem evictAll_kept {Q : Unit → List Db → Prop} {E : ApiError → List Db → Prop} (hQ : ∀ g, Q () g)
    (workspaceIds : List Id) : ∀ g, (evictAll userId workspaceIds).Kept (ownership rqs) i Q E g := by
  induction workspaceIds with
  | nil => exact hQ
  | cons workspaceId rest ih => exact fun g db _ => ih _

theorem deleteAccount_kept (rt : Runtime) (pages : Nat) :
    ((rqs i).call rt pages).Kept (ownership rqs) i (fun _ _ => True) (fun _ _ => True) [] := by
  simp only [DeletionRequest.call, deleteAccount, requireLiveUser, Call.Kept_bind, Call.auto_bind]
  refine Kept_auto_query (fun _ => trivial) fun live _ _ => ?_
  refine Kept_auto_orThrow trivial fun user _ => ?_
  split
  · trivial
  · simp only [Call.Kept_bind]
    refine partitionMemberships_kept (fun _ _ => trivial) fun soleOwned other found hfound => ?_
    cases hmatch : matchDispositions soleOwned ((rqs i).dto.dispositions.getD []) with
    | error e => trivial
    | ok m =>
      refine Kept_auto_now fun deletedAt => ?_
      refine Call.Kept_transaction (fun _ _ _ => trivial) fun db _ => ?_
      refine deletionBody_kept (fun id hgo => ?_) hfound fun done g => ?_
      · obtain ⟨d, hget, -⟩ := hgo
        obtain ⟨hsent, rfl⟩ := get_of_matchDispositions hmatch hget
        exact ((decides_of_matchDispositions hmatch).1.2 _).mp (List.mem_map_of_mem hsent)
      · exact evictAll_kept (fun _ => trivial) _ g

/-- Along every run of deletions each of which commits while what it has found still stands, every
workspace keeps an owner, and none goes that has another one than who leaves. -/
theorem owners_kept [DecidableEq ι] {rt : Runtime} {pages : Nat} {db₀ : Db} (rqs : ι → DeletionRequest)
    {σ : Config kurul ι} {g : ι → List Db} {past : List (Past kurul ι (List Db))} (howned : Owned db₀)
    (h : Booked seen [] (SoleStill rqs) (Config.start db₀ fun i => (rqs i).call rt pages) σ g past) :
    Owned σ.db ∧ ∀ p ∈ past, GoesWithLast (rqs p.who).userId p.before p.after := by
  have hstart : (Config.start (S := kurul) db₀ fun i => (rqs i).call rt pages).Kept (ownership rqs)
      fun _ => [] := .start howned fun i => deleteAccount_kept rt pages
  obtain ⟨hkept, hpast⟩ := Booked.good hstart (fun _ _ _ _ h => h) h
  refine ⟨hkept.inv, fun p hp => ?_⟩
  rcases (hpast p hp).2 with ⟨hsame, -⟩ | hgoes
  · intro s hs hgone
    rw [hsame] at hgone
    exact absurd hs hgone
  · exact hgoes

end Call

/-! ## Two owners -/

instance (db : Db) (workspaceId userId : Id) : Decidable (IsOwner db workspaceId userId) :=
  inferInstanceAs (Decidable (∃ m ∈ rows WorkspaceMemberRow db, _))

instance (db : Db) (userId workspaceId : Id) : Decidable (SolelyOwns db userId workspaceId) :=
  inferInstanceAs (Decidable (_ ∧ ∀ m ∈ rows WorkspaceMemberRow db, _))

instance (userId : Id) (saw : List Db) (workspaceId : Id) : Decidable (FoundSole userId saw workspaceId) :=
  decidable_of_iff (∃ members ∈ saw[1]?, ∃ counted ∈ saw[2]?,
      IsOwner members workspaceId userId ∧ (ownersOf counted workspaceId).length ≤ 1) <| by
    constructor
    · rintro ⟨members, hmembers, counted, hcounted, h⟩
      exact ⟨members, counted, hmembers, hcounted, h⟩
    · rintro ⟨members, counted, hmembers, hcounted, h⟩
      exact ⟨members, hmembers, counted, hcounted, h⟩

instance {ι : Type} (rqs : ι → DeletionRequest) (i : ι) (saw : List Db) (db : Db) :
    ∀ a, Decidable (SoleStill rqs i saw a db)
  | .commit _ => inferInstanceAs (Decidable (∀ s ∈ rows WorkspaceRow db, _ ↔ _))
  | .exec _ => isTrue trivial
  | .publish _ => isTrue trivial
  | .quiet => isTrue trivial

/-- Two owners of one workspace. -/
def coowned : Db where
  rows := [
    .user ⟨js "ann", js "ann@example.org", js "Ann", true, none, none, none⟩,
    .user ⟨js "joann", js "joann@example.org", js "Joann", true, none, none, none⟩,
    .workspace ⟨js "w", js "Workspace", js "workspace"⟩,
    .workspaceMember ⟨js "m", js "w", js "joann", .owner⟩,
    .workspaceMember ⟨js "n", js "w", js "ann", .owner⟩]
  nodup := by decide

/-- Both delete their accounts. -/
def bothLeave : Fin 2 → DeletionRequest
  | 0 => ⟨js "ann", ⟨js "ann@example.org", none⟩, .self, none⟩
  | 1 => ⟨js "joann", ⟨js "joann@example.org", none⟩, .self, none⟩

/-- One deletes their account, and the other then the workspace with theirs. -/
def oneThenOther : Fin 2 → DeletionRequest
  | 0 => ⟨js "ann", ⟨js "ann@example.org", none⟩, .self, none⟩
  | 1 => ⟨js "joann", ⟨js "joann@example.org", some [⟨js "w", .delete, none⟩]⟩, .self, none⟩

theorem coowned_owned : ∀ s ∈ rows WorkspaceRow coowned, ∃ o ∈ rows WorkspaceMemberRow coowned,
    o.workspaceId = s.id ∧ o.role = .owner ∧ ∃ r ∈ rows UserRow coowned, r.id = o.userId ∧ r.deletedAt = none := by
  decide +kernel

theorem owners_kept_in_turn : ∃ (σ : Config kurul (Fin 2)) (g : Fin 2 → List Db)
    (past : List (Past kurul (Fin 2) (List Db))),
    Booked seen [] (SoleStill oneThenOther)
      (Config.start coowned fun i => (oneThenOther i).call Runtime.bare 1) σ g past ∧
    (∀ i, σ.returned i = true) ∧ rows WorkspaceMemberRow σ.db = [] ∧
      ∀ p ∈ past, GoesWithLast (oneThenOther p.who).userId p.before p.after := by
  have hgoes : ((Config.start (S := kurul) coowned fun i => (oneThenOther i).call Runtime.bare 1).booked seen
      (0 : Instant) (fun i saw a db => decide (SoleStill oneThenOther i saw a db))
      (List.replicate 21 (0, js "x") ++ List.replicate 19 (1, js "y")) (fun _ => []) []).any
        (fun r => (∀ i, r.1.returned i = true) ∧ (rows WorkspaceMemberRow r.1.db).length = 0) = true := by
    decide +kernel
  obtain ⟨⟨σ, g, past⟩, hσ, hend⟩ := (Option.any_eq_true _ _).mp hgoes
  obtain ⟨hdone, hnone⟩ := of_decide_eq_true hend
  have hrun : Booked seen [] (SoleStill oneThenOther) _ σ g past :=
    booked_of_schedule (fun _ _ _ _ h => of_decide_eq_true h) .refl hσ
  have howned : Owned coowned := fun s hs => by
    obtain ⟨o, ho, hw, hrole, _⟩ := coowned_owned s hs
    exact ⟨o.userId, o, ho, hw, rfl, hrole⟩
  exact ⟨σ, g, past, hrun, hdone, List.length_eq_zero_iff.mp hnone, (owners_kept oneThenOther howned hrun).2⟩

/-- Each of two owners sees the other one, and leaves. -/
theorem owners_leave :
    ¬ ∀ (rt : Runtime) (pages : Nat) (db₀ : Db) (rqs : Fin 2 → DeletionRequest) (σ : Config kurul (Fin 2))
      (g : Fin 2 → List Db) (past : List (Past kurul (Fin 2) (List Db))),
      (∀ s ∈ rows WorkspaceRow db₀, ∃ o ∈ rows WorkspaceMemberRow db₀, o.workspaceId = s.id ∧
        o.role = .owner ∧ ∃ r ∈ rows UserRow db₀, r.id = o.userId ∧ r.deletedAt = none) →
      (rqs 0).userId ≠ (rqs 1).userId →
      Booked seen [] (fun _ _ _ _ => True) (Config.start db₀ fun i => (rqs i).call rt pages) σ g past →
      (∀ i, σ.returned i = true) → Owned σ.db := by
  intro h
  have hgoes : ((Config.start (S := kurul) coowned fun i => (bothLeave i).call Runtime.bare 1).booked seen
      (0 : Instant) (fun _ _ _ _ => true) (List.replicate 3 (0, js "x") ++ List.replicate 21 (1, js "y") ++
        List.replicate 18 (0, js "z")) (fun _ => []) []).any
        (fun r => (∀ i, r.1.returned i = true) ∧ (rows WorkspaceMemberRow r.1.db).length = 0 ∧
          (rows WorkspaceRow r.1.db).length = 1) = true := by
    decide +kernel
  obtain ⟨⟨σ, g, past⟩, hσ, hend⟩ := (Option.any_eq_true _ _).mp hgoes
  obtain ⟨hdone, hnone, hleft⟩ := of_decide_eq_true hend
  have hrun : Booked seen [] (fun _ _ _ _ => True) _ σ g past :=
    booked_of_schedule (fun _ _ _ _ _ => trivial) .refl hσ
  have howned := h Runtime.bare 1 coowned bothLeave σ g past coowned_owned (by decide) hrun hdone
  obtain ⟨s, hs⟩ := List.length_eq_one_iff.mp hleft
  obtain ⟨userId, o, ho, _⟩ := howned s (hs ▸ List.mem_cons_self)
  rw [List.length_eq_zero_iff.mp hnone] at ho
  exact absurd ho List.not_mem_nil

end AccountDeletionService
end Kurul
