import Kurul.Workspace.WorkspaceMember

/-!
# Kurul.Workspace.Ownership

What the requests to `WorkspaceMemberService` make of a workspace's owners, one after another.

* `Performs`       — the organization plugin does the write it is asked for, or throws.
* `MemberWrite`    — the writes, what permits them, and what they leave.
* `upToWrite_ends` — a request asks the plugin for permitted writes only, and changes nothing where
  it throws.
* `ownership_kept` — along every sequence of requests.
-/

namespace Kurul

open Sql

namespace WorkspaceMemberService

/-! ## Writes to the memberships -/

/-- No activity is written. -/
def SameLog (db db' : Db) : Prop := ∀ a, a ∈ rows ActivityRow db' ↔ a ∈ rows ActivityRow db

def SameMembers (db db' : Db) : Prop :=
  ∀ m, m ∈ rows WorkspaceMemberRow db' ↔ m ∈ rows WorkspaceMemberRow db

inductive MemberWrite where
  | none
  | remove (m : WorkspaceMemberRow)
  | setRole (m : WorkspaceMemberRow) (role : MemberRole)

/-- The memberships a write leaves. -/
def MemberWrite.Performed (db db' : Db) : MemberWrite → Prop
  | .none => SameMembers db db'
  | .remove m => ∀ m', m' ∈ rows WorkspaceMemberRow db' ↔ m' ∈ rows WorkspaceMemberRow db ∧ m'.id ≠ m.id
  | .setRole m role => ∀ m', m' ∈ rows WorkspaceMemberRow db' ↔
      ∃ m₀ ∈ rows WorkspaceMemberRow db, m' = if m₀.id = m.id then { m₀ with role } else m₀

/-- Another owner of the same workspace. -/
def OtherOwner (db : Db) (m : WorkspaceMemberRow) : Prop :=
  ∃ m' ∈ rows WorkspaceMemberRow db, m'.workspaceId = m.workspaceId ∧ m'.role = .owner ∧ m'.id ≠ m.id

/-- The writes an actor may have made: only an owner takes ownership away or hands it on, and a last
owner stays. -/
def MemberWrite.Permitted (db : Db) (actor : WorkspaceMemberRow) : MemberWrite → Prop
  | .none => True
  | .remove m => m ∈ rows WorkspaceMemberRow db ∧ m.workspaceId = actor.workspaceId ∧
      (m.role = .owner → actor.role = .owner ∧ OtherOwner db m)
  | .setRole m role => m ∈ rows WorkspaceMemberRow db ∧ m.workspaceId = actor.workspaceId ∧
      m.role ≠ role ∧ (m.role = .owner ∨ role = .owner → actor.role = .owner) ∧
      (m.role = .owner → OtherOwner db m)

/-- A user is an owner of a workspace. -/
def IsOwner (db : Db) (workspaceId userId : Id) : Prop :=
  ∃ m ∈ rows WorkspaceMemberRow db, m.workspaceId = workspaceId ∧ m.userId = userId ∧ m.role = .owner

/-- `@@unique([workspaceId, userId])`. -/
def Distinct (db : Db) : Prop :=
  ∀ m ∈ rows WorkspaceMemberRow db, ∀ m' ∈ rows WorkspaceMemberRow db,
    m.workspaceId = m'.workspaceId → m.userId = m'.userId → m = m'

section Writes

variable {db db' : Db} {actor : WorkspaceMemberRow} {write : MemberWrite} {workspaceId userId : Id}

theorem isOwner_congr (h : SameMembers db db') :
    IsOwner db' workspaceId userId ↔ IsOwner db workspaceId userId := by
  simp only [IsOwner, h _]

/-- A permitted write leaves every workspace that had an owner with one. -/
theorem owner_of_performed (hperm : write.Permitted db actor) (h : write.Performed db db')
    (howner : ∃ userId, IsOwner db workspaceId userId) : ∃ userId, IsOwner db' workspaceId userId := by
  obtain ⟨u, o, ho, hw, hu, hrole⟩ := howner
  cases write with
  | none => exact ⟨u, o, (h o).mpr ho, hw, hu, hrole⟩
  | remove m =>
    by_cases heq : o.id = m.id
    · -- the owner that goes has another one beside it
      obtain rfl := eq_of_id ho hperm.1 heq
      obtain ⟨o', ho', hw', hrole', hne⟩ := (hperm.2.2 hrole).2
      exact ⟨o'.userId, o', (h o').mpr ⟨ho', hne⟩, hw'.trans hw, rfl, hrole'⟩
    · exact ⟨u, o, (h o).mpr ⟨ho, heq⟩, hw, hu, hrole⟩
  | setRole m role =>
    by_cases heq : o.id = m.id
    · obtain rfl := eq_of_id ho hperm.1 heq
      obtain ⟨o', ho', hw', hrole', hne⟩ := hperm.2.2.2.2 hrole
      exact ⟨o'.userId, o', (h o').mpr ⟨o', ho', by rw [if_neg hne]⟩, hw'.trans hw, rfl, hrole'⟩
    · exact ⟨u, o, (h o).mpr ⟨o, ho, by rw [if_neg heq]⟩, hw, hu, hrole⟩

/-- A permitted write of an actor who does not own the workspace leaves its owners alone. -/
theorem isOwner_of_performed (hactor : actor ∈ rows WorkspaceMemberRow db)
    (hperm : write.Permitted db actor) (h : write.Performed db db')
    (hnot : ¬ IsOwner db workspaceId actor.userId) :
    IsOwner db' workspaceId userId ↔ IsOwner db workspaceId userId := by
  have hactor' : actor.workspaceId = workspaceId → actor.role ≠ .owner := fun hw hrole =>
    hnot ⟨actor, hactor, hw, rfl, hrole⟩
  cases write with
  | none => exact isOwner_congr h
  | remove m =>
    constructor
    · intro ho
      obtain ⟨o, ho, hrest⟩ := ho
      exact ⟨o, ((h o).mp ho).1, hrest⟩
    · intro ho
      obtain ⟨o, ho, hw, hu, hrole⟩ := ho
      refine ⟨o, (h o).mpr ⟨ho, fun heq => ?_⟩, hw, hu, hrole⟩
      obtain rfl := eq_of_id ho hperm.1 heq
      exact hactor' (hperm.2.1 ▸ hw) (hperm.2.2 hrole).1
  | setRole m role =>
    constructor
    · intro ho
      obtain ⟨o, ho, hw, hu, hrole⟩ := ho
      obtain ⟨m₀, hm₀, hset⟩ := (h o).mp ho
      by_cases heq : m₀.id = m.id
      · obtain rfl := eq_of_id hm₀ hperm.1 heq
        rw [if_pos rfl] at hset
        subst hset
        exact absurd (hperm.2.2.2.1 (.inr hrole)) (hactor' (hperm.2.1 ▸ hw))
      · rw [if_neg heq] at hset
        exact ⟨m₀, hm₀, hset ▸ hw, hset ▸ hu, hset ▸ hrole⟩
    · intro ho
      obtain ⟨o, ho, hw, hu, hrole⟩ := ho
      refine ⟨o, (h o).mpr ⟨o, ho, ?_⟩, hw, hu, hrole⟩
      rw [if_neg]
      intro heq
      obtain rfl := eq_of_id ho hperm.1 heq
      exact hactor' (hperm.2.1 ▸ hw) (hperm.2.2.2.1 (.inl hrole))

theorem distinct_of_performed (h : write.Performed db db') (hd : Distinct db) : Distinct db' := by
  intro m hm m' hm' hw hu
  cases write with
  | none => exact hd m ((h m).mp hm) m' ((h m').mp hm') hw hu
  | remove x => exact hd m ((h m).mp hm).1 m' ((h m').mp hm').1 hw hu
  | setRole x role =>
    obtain ⟨m₀, hm₀, rfl⟩ := (h m).mp hm
    obtain ⟨m₁, hm₁, rfl⟩ := (h m').mp hm'
    have hsame : m₀ = m₁ := by
      refine hd m₀ hm₀ m₁ hm₁ ?_ ?_
      · split at hw <;> split at hw <;> exact hw
      · split at hu <;> split at hu <;> exact hu
    rw [hsame]

end Writes

/-! ## The plugin -/

/-- The plugin performs exactly the write it is asked for on a membership of the workspace, or
throws and leaves it; it writes no activity. -/
structure Performs (auth : OrganizationApi) : Prop where
  removeMember : ∀ env w sessionUserId organizationId, ∀ m ∈ rows WorkspaceMemberRow w.db,
    m.workspaceId = organizationId →
    (auth.removeMember sessionUserId m.id organizationId).Ends env w
      (fun _ w' => (MemberWrite.remove m).Performed w.db w'.db ∧ SameLog w.db w'.db)
      fun _ w' => SameMembers w.db w'.db ∧ SameLog w.db w'.db
  updateMemberRole : ∀ env w sessionUserId organizationId role,
    ∀ m ∈ rows WorkspaceMemberRow w.db, m.workspaceId = organizationId →
    (auth.updateMemberRole sessionUserId m.id role organizationId).Ends env w
      (fun _ w' => (MemberWrite.setRole m role).Performed w.db w'.db ∧ SameLog w.db w'.db)
      fun _ w' => SameMembers w.db w'.db ∧ SameLog w.db w'.db
  leaveOrganization : ∀ env w sessionUserId organizationId, Distinct w.db →
    ∀ m ∈ rows WorkspaceMemberRow w.db, m.workspaceId = organizationId → m.userId = sessionUserId →
    (auth.leaveOrganization sessionUserId organizationId).Ends env w
      (fun _ w' => (MemberWrite.remove m).Performed w.db w'.db ∧ SameLog w.db w'.db)
      fun _ w' => SameMembers w.db w'.db ∧ SameLog w.db w'.db

/-! ## The guards -/

section Guards

variable {env : Env kurul} {w w' : World kurul} {workspaceId userId targetUserId : Id}
  {actor : WorkspaceMembership} {target : MemberRow} {m a : WorkspaceMemberRow}
  {auth : OrganizationApi} {rq : MemberRequest}

/-- The membership a row was read from. -/
def MemberRow.Of (target : MemberRow) (m : WorkspaceMemberRow) : Prop :=
  target.id = m.id ∧ target.workspaceId = m.workspaceId ∧ target.userId = m.userId ∧
    target.role = m.role

theorem memberWhere_iff : memberWhere workspaceId userId m = true ↔
    m.workspaceId = workspaceId ∧ m.userId = userId := by
  simp [memberWhere]

theorem readOnly_throwIf (c : Bool) (e : ApiError) : (throwIf c e).ReadOnly := by
  cases c <;> trivial

theorem findMember_eq_some (h : findMember workspaceId userId w.db = some target) :
    ∃ m ∈ rows WorkspaceMemberRow w.db, m.workspaceId = workspaceId ∧ m.userId = userId ∧
      target.Of m := by
  simp only [findMember, Option.bind_eq_bind, Option.bind_eq_some_iff, Option.pure_def,
    Option.some.injEq] at h
  obtain ⟨m, hm, user, _, rfl⟩ := h
  obtain ⟨hw, hu⟩ := memberWhere_iff.mp (List.find?_some hm)
  exact ⟨m, List.mem_of_find?_eq_some hm, hw, hu, rfl, rfl, rfl, rfl⟩

theorem run_requireMember_ok
    (h : (requireMember workspaceId userId).run env w = (.ok target, w')) :
    w'.db = w.db ∧ ∃ m ∈ rows WorkspaceMemberRow w.db, m.workspaceId = workspaceId ∧
      m.userId = userId ∧ target.Of m := by
  obtain ⟨found, w₁, h₁, h₂⟩ := Tx.run_bind_ok h
  obtain ⟨rfl, rfl⟩ := run_query_ok h₁
  obtain ⟨hfound, rfl⟩ := run_orThrow_ok h₂
  exact ⟨rfl, findMember_eq_some hfound⟩

theorem exists_id_ne {l : List WorkspaceMemberRow} (hnd : (l.map WorkspaceMemberRow.id).Nodup)
    (h : 1 < l.length) (i : Id) : ∃ m ∈ l, m.id ≠ i := by
  match l, hnd, h with
  | m :: m' :: _, hnd, _ =>
    have hne : m.id ≠ m'.id := by
      intro heq
      simp [heq] at hnd
    by_cases hi : m.id = i
    · exact ⟨m', by simp, fun heq => hne (hi.trans heq.symm)⟩
    · exact ⟨m, by simp, hi⟩

/-- With more than one owner, each of them has another one. -/
theorem run_requireOtherOwner_ok {message : JsString} {u : Unit}
    (hw : m.workspaceId = workspaceId)
    (h : (requireOtherOwner workspaceId message).run env w = (.ok u, w')) : OtherOwner w.db m := by
  obtain ⟨last, w₁, h₁, h₂⟩ := Tx.run_bind_ok h
  obtain ⟨owners, w₂, h₃, h₄⟩ := Tx.run_bind_ok h₁
  obtain ⟨rfl, rfl⟩ := run_query_ok h₃
  obtain ⟨hlast, rfl⟩ := run_throwIf_ok h₂
  simp only [Tx.pure_eq, Tx.run_ret, Prod.mk.injEq, Except.ok.injEq] at h₄
  obtain ⟨rfl, rfl⟩ := h₄
  have htwo : 1 < ((rows WorkspaceMemberRow w.db).filter (ownerWhere workspaceId)).length := by
    simpa using hlast
  have hnd : (((rows WorkspaceMemberRow w.db).filter (ownerWhere workspaceId)).map
      WorkspaceMemberRow.id).Nodup :=
    (nodup_ids WorkspaceMemberRow w.db).sublist (List.filter_sublist.map _)
  obtain ⟨o, ho, hne⟩ := exists_id_ne hnd htwo m.id
  obtain ⟨ho, howner⟩ := List.mem_filter.mp ho
  simp only [ownerWhere, Bool.and_eq_true, decide_eq_true_eq] at howner
  exact ⟨o, ho, howner.1.trans hw.symm, howner.2, hne⟩

theorem readOnly_requireMember : (requireMember workspaceId userId).ReadOnly :=
  (readOnly_query _).bind fun _ => readOnly_orThrow _ _

theorem readOnly_isLastOwner : (isLastOwner workspaceId).ReadOnly :=
  Tx.ReadOnly.bind (readOnly_query _) fun _ => trivial

theorem readOnly_requireOtherOwner {message : JsString} :
    (requireOtherOwner workspaceId message).ReadOnly :=
  readOnly_isLastOwner.bind fun _ => readOnly_throwIf _ _

/-- The guards of a route hand on a membership of the caller, with the role it has. -/
theorem run_guards_ok {actor : WorkspaceMembership} (h : rq.guards.run env w = (.ok actor, w')) :
    w'.db = w.db ∧ ∃ a ∈ rows WorkspaceMemberRow w.db, a.workspaceId = rq.workspaceId ∧
      a.userId = rq.userId ∧ actor = ⟨a.id, a.workspaceId, a.userId, a.role⟩ := by
  obtain ⟨actor', w₁, h₁, h₂⟩ := Tx.run_bind_ok h
  obtain ⟨_, w₂, h₃, h₄⟩ := Tx.run_bind_ok h₁
  obtain ⟨_, rfl⟩ := run_throwIf_ok h₃
  obtain ⟨found, w₃, h₅, h₆⟩ := Tx.run_bind_ok h₄
  obtain ⟨rfl, rfl⟩ := run_query_ok h₅
  obtain ⟨a, w₄, h₇, h₈⟩ := Tx.run_bind_ok h₆
  obtain ⟨hfound, rfl⟩ := run_orThrow_ok h₇
  simp only [Tx.pure_eq, Tx.run_ret, Prod.mk.injEq, Except.ok.injEq] at h₈
  obtain ⟨rfl, rfl⟩ := h₈
  obtain ⟨_, w₅, h₉, h₁₀⟩ := Tx.run_bind_ok h₂
  obtain ⟨_, rfl⟩ := run_throwIf_ok h₉
  simp only [Tx.pure_eq, Tx.run_ret, Prod.mk.injEq, Except.ok.injEq] at h₁₀
  obtain ⟨rfl, rfl⟩ := h₁₀
  obtain ⟨hw, hu⟩ := memberWhere_iff.mp (List.find?_some hfound)
  exact ⟨rfl, a, List.mem_of_find?_eq_some hfound, hw, hu, rfl⟩

theorem readOnly_guards : rq.guards.ReadOnly :=
  Tx.ReadOnly.bind ((readOnly_throwIf _ _).bind fun _ =>
    (readOnly_query _).bind fun _ => (readOnly_orThrow _ _).bind fun _ => trivial) fun _ =>
      (readOnly_throwIf _ _).bind fun _ => trivial

/-- An owner is removed by an owner, with another one left. -/
theorem run_removalGuard_ok {u : Unit}
    (hw : m.workspaceId = workspaceId) (hof : target.Of m)
    (h : (removalGuard workspaceId target actor).run env w = (.ok u, w')) :
    m.role = .owner → actor.role = .owner ∧ OtherOwner w.db m := by
  intro hrole
  rw [removalGuard, if_pos (hof.2.2.2.trans hrole)] at h
  obtain ⟨_, w₁, h₁, h₂⟩ := Tx.run_bind_ok h
  obtain ⟨hactor, rfl⟩ := run_throwIf_ok h₁
  exact ⟨by simpa using hactor, run_requireOtherOwner_ok hw h₂⟩

theorem readOnly_removalGuard : (removalGuard workspaceId target actor).ReadOnly := by
  unfold removalGuard
  split
  · exact (readOnly_throwIf _ _).bind fun _ => readOnly_requireOtherOwner
  · trivial

/-- Ownership is handed on and taken away by an owner, with another one left. -/
theorem run_roleGuard_ok {u : Unit} {nextRole : MemberRole}
    (hw : m.workspaceId = workspaceId) (hof : target.Of m)
    (h : (roleGuard workspaceId target nextRole actor).run env w = (.ok u, w')) :
    (m.role = .owner ∨ nextRole = .owner → actor.role = .owner) ∧
      (m.role = .owner → OtherOwner w.db m) := by
  obtain ⟨_, w₁, h₁, h₂⟩ := Tx.run_bind_ok h
  obtain ⟨hactor, rfl⟩ := run_throwIf_ok h₁
  rw [hof.2.2.2] at hactor h₂
  refine ⟨fun howner => ?_, fun hrole => ?_⟩
  · rcases howner with hrole | hrole <;> simpa [hrole] using hactor
  · rw [if_pos hrole] at h₂
    exact run_requireOtherOwner_ok hw h₂

theorem readOnly_roleGuard {nextRole : MemberRole} :
    (roleGuard workspaceId target nextRole actor).ReadOnly := by
  refine (readOnly_throwIf _ _).bind fun _ => ?_
  split
  · exact readOnly_requireOtherOwner
  · trivial

theorem run_departureGuard_ok {u : Unit}
    (hw : m.workspaceId = workspaceId) (hof : target.Of m)
    (h : (departureGuard workspaceId target).run env w = (.ok u, w')) :
    m.role = .owner → OtherOwner w.db m := by
  intro hrole
  rw [departureGuard, if_pos (hof.2.2.2.trans hrole)] at h
  exact run_requireOtherOwner_ok hw h

theorem readOnly_departureGuard : (departureGuard workspaceId target).ReadOnly := by
  unfold departureGuard
  split
  · exact readOnly_requireOtherOwner
  · trivial

end Guards

/-! ## Up to the write -/

/-- Whose membership a request is about. -/
def MemberRequest.targetUserId (rq : MemberRequest) : Id :=
  match rq.action with
  | .remove targetUserId => targetUserId
  | .updateRole targetUserId _ => targetUserId
  | .leave => rq.userId

/-- The write a request asks for, of the membership it is about. -/
def MemberRequest.write (rq : MemberRequest) (m : WorkspaceMemberRow) : MemberWrite :=
  match rq.action with
  | .remove _ => .remove m
  | .updateRole _ dto => if m.role = dto.role then .none else .setRole m dto.role
  | .leave => .remove m

/-- What a request with a membership `a` of the caller has done when its write is done. -/
structure Written (write : MemberWrite) (a m : WorkspaceMemberRow) (targetUserId : Id)
    (target : MemberRow) (db db' : Db) : Prop where
  mem : m ∈ rows WorkspaceMemberRow db
  workspace : m.workspaceId = a.workspaceId
  user : m.userId = targetUserId
  of : target.Of m
  permitted : write.Permitted db a
  performed : write.Performed db db'
  log : SameLog db db'

section Writing

variable {auth : OrganizationApi} {env : Env kurul} {w : World kurul} {a : WorkspaceMemberRow}
  {targetUserId : Id}

/-- The membership the guards hand on. -/
def actorOf (a : WorkspaceMemberRow) : WorkspaceMembership := ⟨a.id, a.workspaceId, a.userId, a.role⟩

theorem sameLog_of_db {db db' : Db} (h : db' = db) : SameMembers db db' ∧ SameLog db db' := by
  subst h
  exact ⟨fun _ => Iff.rfl, fun _ => Iff.rfl⟩

/-- An exception of the plugin is thrown again under another name. -/
theorem ends_memberWrite {write : Call kurul Unit} {message lastOwnerMessage : JsString}
    {ok : Unit → World kurul → Prop} {err : World kurul → Prop}
    (h : write.Ends env w ok fun _ w' => err w') :
    (memberWrite write message lastOwnerMessage).Ends env w ok fun _ w' => err w' :=
  Call.ends_tryCatch.mpr h

theorem removeMemberWrite_ends (hauth : Performs auth) (ha : a ∈ rows WorkspaceMemberRow w.db) :
    (removeMemberWrite auth a.workspaceId targetUserId (actorOf a) a.userId).Ends env w
      (fun target w' => ∃ m, Written (.remove m) a m targetUserId target w.db w'.db)
      fun _ w' => SameMembers w.db w'.db ∧ SameLog w.db w'.db := by
  refine Call.ends_bind.mpr (Call.ends_readOnly ?_ ?_ fun _ w' hdb => sameLog_of_db hdb)
  · exact (readOnly_throwIf _ _).bind fun _ => readOnly_requireMember.bind fun _ =>
      readOnly_removalGuard.bind fun _ => trivial
  · intro target w₁ hrun hdb
    obtain ⟨_, w₂, h₁, h₂⟩ := Tx.run_bind_ok hrun
    obtain ⟨_, rfl⟩ := run_throwIf_ok h₁
    obtain ⟨target', w₃, h₃, h₄⟩ := Tx.run_bind_ok h₂
    obtain ⟨hdb₃, m, hm, hw, hu, hof⟩ := run_requireMember_ok h₃
    obtain ⟨_, w₄, h₅, h₆⟩ := Tx.run_bind_ok h₄
    have hguard := run_removalGuard_ok hw hof h₅
    simp only [Tx.pure_eq, Tx.run_ret, Prod.mk.injEq, Except.ok.injEq] at h₆
    obtain ⟨rfl, rfl⟩ := h₆
    rw [hdb₃] at hguard
    refine Call.ends_bind.mpr (ends_memberWrite ?_)
    rw [hof.1]
    refine (hauth.removeMember env w₄ a.userId a.workspaceId m (hdb ▸ hm) hw).mono ?_ ?_
    · intro _ w' h
      rw [hdb] at h
      exact ⟨m, hm, hw, hu, hof, ⟨hm, hw, hguard⟩, h.1, h.2⟩
    · intro _ w' h
      rwa [hdb] at h

theorem updateMemberRoleWrite_ends (hauth : Performs auth) {dto : UpdateMemberRoleDto} :
    (updateMemberRoleWrite auth a.workspaceId targetUserId dto (actorOf a) a.userId).Ends env w
      (fun target w' => ∃ m, Written (if m.role = dto.role then .none else .setRole m dto.role)
        a m targetUserId target w.db w'.db)
      fun _ w' => SameMembers w.db w'.db ∧ SameLog w.db w'.db := by
  refine Call.ends_bind.mpr
    (Call.ends_readOnly readOnly_requireMember ?_ fun _ w' hdb => sameLog_of_db hdb)
  intro target w₁ hrun hdb
  obtain ⟨_, m, hm, hw, hu, hof⟩ := run_requireMember_ok hrun
  split
  · rename_i hsame
    refine ⟨m, hm, hw, hu, hof, ?_, ?_, (sameLog_of_db hdb).2⟩
    · rw [if_pos (hof.2.2.2 ▸ hsame)]
      trivial
    · rw [if_pos (hof.2.2.2 ▸ hsame)]
      exact (sameLog_of_db hdb).1
  · rename_i hother
    rw [hof.2.2.2] at hother
    refine Call.ends_bind.mpr (Call.ends_readOnly readOnly_roleGuard ?_ fun _ w' hdb' =>
      sameLog_of_db (hdb'.trans hdb))
    intro _ w₂ hrun₂ hdb₂
    have hguard := run_roleGuard_ok hw hof hrun₂
    rw [hdb] at hguard hdb₂
    refine Call.ends_bind.mpr (ends_memberWrite ?_)
    rw [hof.1]
    refine (hauth.updateMemberRole env w₂ a.userId a.workspaceId dto.role m (hdb₂ ▸ hm) hw).mono ?_ ?_
    · intro _ w' h
      rw [hdb₂] at h
      refine ⟨m, hm, hw, hu, hof, ?_, ?_, h.2⟩
      · rw [if_neg hother]
        exact ⟨hm, hw, hother, hguard.1, hguard.2⟩
      · rw [if_neg hother]
        exact h.1
    · intro _ w' h
      rwa [hdb₂] at h

theorem leaveWrite_ends (hauth : Performs auth) (hd : Distinct w.db)
    (ha : a ∈ rows WorkspaceMemberRow w.db) :
    (leaveWrite auth a.workspaceId (actorOf a) a.userId).Ends env w
      (fun target w' => ∃ m, Written (.remove m) a m a.userId target w.db w'.db)
      fun _ w' => SameMembers w.db w'.db ∧ SameLog w.db w'.db := by
  refine Call.ends_bind.mpr (Call.ends_readOnly ?_ ?_ fun _ w' hdb => sameLog_of_db hdb)
  · exact readOnly_requireMember.bind fun _ => readOnly_departureGuard.bind fun _ => trivial
  · intro target w₁ hrun hdb
    obtain ⟨target', w₂, h₁, h₂⟩ := Tx.run_bind_ok hrun
    obtain ⟨hdb₂, m, hm, hw, hu, hof⟩ := run_requireMember_ok h₁
    obtain ⟨_, w₃, h₃, h₄⟩ := Tx.run_bind_ok h₂
    have hguard := run_departureGuard_ok hw hof h₃
    simp only [Tx.pure_eq, Tx.run_ret, Prod.mk.injEq, Except.ok.injEq] at h₄
    obtain ⟨rfl, rfl⟩ := h₄
    rw [hdb₂] at hguard
    -- the membership that leaves is the one the request is made with
    obtain rfl : m = a := hd m hm a ha hw hu
    refine Call.ends_bind.mpr (ends_memberWrite ?_)
    refine (hauth.leaveOrganization env w₃ m.userId m.workspaceId (hdb ▸ hd) m (hdb ▸ hm) rfl
      rfl).mono ?_ ?_
    · intro _ w' h
      rw [hdb] at h
      exact ⟨m, hm, hw, hu, hof, ⟨hm, hw, fun hrole => ⟨hrole, hguard hrole⟩⟩, h.1, h.2⟩
    · intro _ w' h
      rwa [hdb] at h

/-- Up to its write a request has done what it is permitted to, or thrown and changed nothing. -/
theorem upToWrite_ends (env : Env kurul) (rq : MemberRequest) (hauth : Performs auth)
    (hd : Distinct w.db) :
    (rq.upToWrite auth).Ends env w
      (fun done w' => ∃ a m, a ∈ rows WorkspaceMemberRow w.db ∧ a.workspaceId = rq.workspaceId ∧
        a.userId = rq.userId ∧ done.1 = actorOf a ∧
        Written (rq.write m) a m rq.targetUserId done.2 w.db w'.db)
      fun _ w' => SameMembers w.db w'.db ∧ SameLog w.db w'.db := by
  refine Call.ends_bind.mpr
    (Call.ends_readOnly readOnly_guards ?_ fun _ w' hdb => sameLog_of_db hdb)
  intro actor w₁ hrun hdb
  obtain ⟨_, a, ha, hw, hu, rfl⟩ := run_guards_ok hrun
  rw [← hdb] at hd ha ⊢
  have hdone : ∀ {p : Call kurul MemberRow},
      p.Ends env w₁ (fun target w' => ∃ m, Written (rq.write m) a m rq.targetUserId target w₁.db w'.db)
        (fun _ w' => SameMembers w₁.db w'.db ∧ SameLog w₁.db w'.db) →
      (p >>= fun target => pure (actorOf a, target)).Ends env w₁
        (fun done w' => ∃ a m, a ∈ rows WorkspaceMemberRow w₁.db ∧ a.workspaceId = rq.workspaceId ∧
          a.userId = rq.userId ∧ done.1 = actorOf a ∧
          Written (rq.write m) a m rq.targetUserId done.2 w₁.db w'.db)
        fun _ w' => SameMembers w₁.db w'.db ∧ SameLog w₁.db w'.db := by
    intro p h
    refine Call.ends_bind.mpr (h.mono ?_ fun _ _ h => h)
    intro target w' h
    obtain ⟨m, hm⟩ := h
    exact ⟨a, m, ha, hw, hu, rfl, hm⟩
  obtain ⟨userId, workspaceId, action⟩ := rq
  subst hw hu
  cases action with
  | remove targetUserId => exact hdone (removeMemberWrite_ends hauth ha)
  | updateRole targetUserId dto => exact hdone (updateMemberRoleWrite_ends hauth)
  | leave => exact hdone (leaveWrite_ends hauth hd ha)

end Writing

/-! ## The entry -/

/-- `payload->>name` of an activity. -/
def payloadText (name : String) (v : ActivityRow) : Option JsString :=
  match v.payload with
  | .obj members => match Json.member (js name) members with
    | some (.str s) => some s
    | _ => none
  | _ => none

theorem MemberRole.text_inj {role role' : MemberRole} (h : role.text = role'.text) :
    role = role' := by
  cases role <;> cases role' <;> first | rfl | (revert h; decide)

/-- An entry is about a membership, with the role it has. -/
def Names (v : ActivityRow) (m : WorkspaceMemberRow) : Prop :=
  v.workspaceId = m.workspaceId ∧ payloadText "targetUserId" v = some m.userId ∧
    payloadText "previousRole" v = some m.role.text

/-- An entry says which write was done. -/
def Describes (v : ActivityRow) : MemberWrite → Prop
  | .none => False
  | .remove m => (v.type = .memberRemoved ∨ v.type = .memberLeft) ∧ Names v m
  | .setRole m role => v.type = .memberRoleChanged ∧ Names v m ∧
      payloadText "newRole" v = some role.text

theorem payloadText_of_member {v : ActivityRow} {name : String} {members : List (JsString × Json)}
    {value : JsString} (hv : v.payload = .obj members)
    (h : Json.member (js name) members = some (.str value)) : payloadText name v = some value := by
  simp only [payloadText, hv, h]

section Finish

variable {auth : OrganizationApi} {env : Env kurul} {w : World kurul} {db : Db}
  {a m : WorkspaceMemberRow} {rq : MemberRequest} {target : MemberRow}

/-- Memberships as they were, and no entry but those that describe the write. -/
def Finished (write : MemberWrite) (db db' : Db) : Prop :=
  SameMembers db db' ∧
    ∀ v ∈ rows ActivityRow db', v ∉ rows ActivityRow db → Describes v write

theorem finished_of_db {write : MemberWrite} {db db' : Db} (h : db' = db) :
    Finished write db db' := by
  subst h
  exact ⟨fun _ => Iff.rfl, fun v hv hnew => absurd hv hnew⟩

/-- The entry a request writes is the only new one. -/
theorem ends_entry {write : MemberWrite} {input : RecordActivityInput} {rest : Call kurul Unit}
    (hrest : ∀ w', (rest.run env w').2.db = w'.db)
    (h : ∀ v : ActivityRow, v.workspaceId = input.workspaceId → v.type = input.type →
      v.payload = .obj input.payload → Describes v write) :
    (Call.auto (ActivityService.record input) >>= fun _ => rest).Ends env w
      (fun _ w' => Finished write w.db w'.db) fun _ w' => Finished write w.db w'.db := by
  refine Call.ends_bind.mpr (ends_record ?_ fun _ _ hdb => finished_of_db hdb)
  intro v w₁ hws _ htype hpayload _ hdb
  have hdone : ∀ w' : World kurul, w'.db = w₁.db → Finished write w.db w'.db := by
    intro w' hw'
    rw [hw', hdb]
    refine ⟨fun m => ?_, fun v' hv' hnew => ?_⟩
    · have htable : (Row.activity v).key.table ≠ Model.table WorkspaceMemberRow :=
        show Table.activity ≠ .workspaceMember by decide
      rw [rows_put_of_ne htable]
    · rcases mem_rows_put.mp hv' with rfl | hold
      · exact h v' hws htype hpayload
      · exact absurd hold.1 hnew
  have hend := hrest w₁
  unfold Call.Ends
  rcases hr : rest.run env w₁ with ⟨r, w'⟩
  rw [hr] at hend
  cases r with
  | ok u => exact hdone w' hend
  | error e => exact hdone w' hend

theorem finish_ends (env : Env kurul) (w : World kurul) (hw : m.workspaceId = a.workspaceId)
    (hrq : a.workspaceId = rq.workspaceId)
    (hu : a.userId = rq.userId) (huser : m.userId = rq.targetUserId) (hof : target.Of m) :
    (rq.finish (actorOf a, target)).Ends env w
      (fun _ w' => Finished (rq.write m) w.db w'.db) fun _ w' => Finished (rq.write m) w.db w'.db := by
  obtain ⟨userId, workspaceId, action⟩ := rq
  subst hrq hu
  cases action with
  | remove targetUserId =>
    refine ends_entry (fun _ => rfl) fun v hws htype hpayload => ⟨.inl htype, hws.trans hw.symm, ?_, ?_⟩
    · exact huser ▸ payloadText_of_member hpayload rfl
    · exact hof.2.2.2 ▸ payloadText_of_member hpayload rfl
  | updateRole targetUserId dto =>
    simp only [MemberRequest.finish, MemberRequest.write, hof.2.2.2]
    split
    · exact finished_of_db rfl
    · refine ends_entry (fun _ => rfl) fun v hws htype hpayload =>
        ⟨htype, ⟨hws.trans hw.symm, ?_, ?_⟩, payloadText_of_member hpayload rfl⟩
      · exact huser ▸ payloadText_of_member hpayload rfl
      · exact hof.2.2.2 ▸ payloadText_of_member hpayload rfl
  | leave =>
    refine ends_entry (fun _ => rfl) fun v hws htype hpayload => ⟨.inr htype, hws.trans hw.symm, ?_, ?_⟩
    · exact huser ▸ payloadText_of_member hpayload rfl
    · exact hof.2.2.2 ▸ payloadText_of_member hpayload rfl

end Finish

/-! ## Requests one after another -/

/-- The states after some requests, served one after another. -/
inductive Served (auth : OrganizationApi) (env : Env kurul) (w₀ : World kurul) : World kurul → Prop where
  | start : Served auth env w₀ w₀
  | next {w w' : World kurul} {rq : MemberRequest} {r : Except ApiError Unit}
      (h : Served auth env w₀ w) (hr : (rq.serve auth).run env w = (r, w')) : Served auth env w₀ w'

/-- A new entry names the role that was removed or replaced, and a change of role is one. -/
def AuditTrue (v : ActivityRow) (db db' : Db) : Prop :=
  ∃ m ∈ rows WorkspaceMemberRow db, Names v m ∧
    ((v.type = .memberRemoved ∨ v.type = .memberLeft) ∧
        (∀ m' ∈ rows WorkspaceMemberRow db', m'.id ≠ m.id) ∨
      v.type = .memberRoleChanged ∧ ∃ role, { m with role } ∈ rows WorkspaceMemberRow db' ∧
        payloadText "newRole" v = some role.text ∧
        payloadText "previousRole" v ≠ payloadText "newRole" v)

section Requests

variable {auth : OrganizationApi} {env : Env kurul} {w w' : World kurul} {rq : MemberRequest}
  {r : Except ApiError Unit}

theorem performed_trans {write : MemberWrite} {db db₁ db' : Db} (h : write.Performed db db₁)
    (hsame : SameMembers db₁ db') : write.Performed db db' := by
  cases write with
  | none => exact fun m => (hsame m).trans (h m)
  | remove m => exact fun m' => (hsame m').trans (h m')
  | setRole m role => exact fun m' => (hsame m').trans (h m')

theorem auditTrue_of_describes {write : MemberWrite} {a : WorkspaceMemberRow} {v : ActivityRow}
    {db db' : Db} (h : Describes v write) (hperm : write.Permitted db a)
    (hdone : write.Performed db db') : AuditTrue v db db' := by
  cases write with
  | none => exact h.elim
  | remove m =>
    exact ⟨m, hperm.1, h.2, .inl ⟨h.1, fun m' hm' => ((hdone m').mp hm').2⟩⟩
  | setRole m role =>
    refine ⟨m, hperm.1, h.2.1, .inr ⟨h.1, role, (hdone _).mpr ⟨m, hperm.1, by rw [if_pos rfl]⟩,
      h.2.2, fun heq => ?_⟩⟩
    rw [h.2.1.2.2, h.2.2] at heq
    exact hperm.2.2.1 (MemberRole.text_inj (Option.some.inj heq))

/-- One request: a permitted write of a membership of the caller, or none, and the entry that
describes it, or none. -/
theorem serve_cases (hauth : Performs auth) (hd : Distinct w.db)
    (hr : (rq.serve auth).run env w = (r, w')) :
    (∃ e w₁, (rq.upToWrite auth).run env w = (.error e, w₁) ∧ r = .error e ∧ w' = w₁ ∧
      SameMembers w.db w'.db ∧ SameLog w.db w'.db) ∨
    ∃ done w₁ write a, (rq.upToWrite auth).run env w = (.ok done, w₁) ∧
      a ∈ rows WorkspaceMemberRow w.db ∧ a.userId = rq.userId ∧ write.Permitted w.db a ∧
      write.Performed w.db w'.db ∧
      ∀ v ∈ rows ActivityRow w'.db, v ∉ rows ActivityRow w.db → Describes v write := by
  have hwrite := upToWrite_ends env rq hauth hd
  rw [serve_eq, Call.run_bind] at hr
  rcases hrun : (rq.upToWrite auth).run env w with ⟨res, w₁⟩
  rw [hrun] at hr
  cases res with
  | error e =>
    simp only [Prod.mk.injEq] at hr
    obtain ⟨rfl, rfl⟩ := hr
    exact .inl ⟨e, w₁, rfl, rfl, rfl, hwrite.of_error hrun⟩
  | ok done =>
    obtain ⟨a, m, ha, haw, hau, hactor, hm⟩ := hwrite.of_ok hrun
    have hfinish := finish_ends env w₁ hm.workspace haw hau hm.user hm.of
    have hend : Finished (rq.write m) w₁.db w'.db := by
      have heq : done = (actorOf a, done.2) := Prod.ext hactor rfl
      rw [heq] at hr
      cases r with
      | ok u => exact hfinish.of_ok hr
      | error e => exact hfinish.of_error hr
    refine .inr ⟨done, w₁, rq.write m, a, rfl, ha, hau, hm.permitted,
      performed_trans hm.performed hend.1, fun v hv hnew => hend.2 v hv fun hold => ?_⟩
    exact hnew ((hm.log v).mp hold)

/-- The memberships stay distinct, and every workspace with an owner keeps one. -/
theorem serve_keeps (hauth : Performs auth) (hd : Distinct w.db)
    (hr : (rq.serve auth).run env w = (r, w')) :
    Distinct w'.db ∧ ∀ workspaceId, (∃ userId, IsOwner w.db workspaceId userId) →
      ∃ userId, IsOwner w'.db workspaceId userId := by
  rcases serve_cases hauth hd hr with ⟨_, _, _, _, _, hsame, _⟩ |
    ⟨_, _, write, a, _, _, _, hperm, hdone, _⟩
  · have hnone : MemberWrite.none.Performed w.db w'.db := hsame
    refine ⟨distinct_of_performed hnone hd, fun workspaceId howner => ?_⟩
    simpa only [isOwner_congr hsame] using howner
  · exact ⟨distinct_of_performed hdone hd, fun workspaceId howner =>
      owner_of_performed hperm hdone howner⟩

theorem Served.distinct {w₀ : World kurul} (hauth : Performs auth) (hd : Distinct w₀.db)
    (h : Served auth env w₀ w) : Distinct w.db ∧
      ∀ workspaceId, (∃ userId, IsOwner w₀.db workspaceId userId) →
        ∃ userId, IsOwner w.db workspaceId userId := by
  induction h with
  | start => exact ⟨hd, fun _ howner => howner⟩
  | next _ hr ih =>
    have hstep := serve_keeps hauth ih.1 hr
    exact ⟨hstep.1, fun workspaceId howner => hstep.2 workspaceId (ih.2 workspaceId howner)⟩

end Requests

/-- Along every sequence of requests: a workspace that had an owner has one; who does not own a
workspace leaves its owners as they are; a request that throws up to its write changes nothing; and
every entry names the role that was removed or replaced. -/
theorem ownership_kept {auth : OrganizationApi} (hauth : Performs auth) {env : Env kurul}
    {w₀ w : World kurul} (hd : Distinct w₀.db) (h : Served auth env w₀ w) :
    (∀ workspaceId, (∃ userId, IsOwner w₀.db workspaceId userId) →
      ∃ userId, IsOwner w.db workspaceId userId) ∧
    ∀ (rq : MemberRequest) r w', (rq.serve auth).run env w = (r, w') →
      (∀ workspaceId, ¬ IsOwner w.db workspaceId rq.userId →
        ∀ userId, IsOwner w'.db workspaceId userId ↔ IsOwner w.db workspaceId userId) ∧
      (∀ e w₁, (rq.upToWrite auth).run env w = (.error e, w₁) →
        r = .error e ∧ w' = w₁ ∧ SameMembers w.db w'.db ∧ SameLog w.db w'.db) ∧
      ∀ v ∈ rows ActivityRow w'.db, v ∉ rows ActivityRow w.db → AuditTrue v w.db w'.db := by
  have hrun := h.distinct hauth hd
  refine ⟨hrun.2, fun rq r w' hr => ?_⟩
  rcases serve_cases hauth hrun.1 hr with ⟨e, w₁, hupto, rfl, rfl, hsame, hlog⟩ |
    ⟨done, w₁, write, a, hupto, ha, hau, hperm, hdone, hentry⟩
  · refine ⟨fun _ _ _ => isOwner_congr hsame, fun e' w₂ hupto' => ?_, ?_⟩
    · rw [hupto, Prod.mk.injEq] at hupto'
      obtain ⟨he, rfl⟩ := hupto'
      exact ⟨congrArg Except.error (Except.error.inj he), rfl, hsame, hlog⟩
    · exact fun v hv hnew => absurd ((hlog v).mp hv) hnew
  · refine ⟨fun workspaceId hnot userId => ?_, fun e' w₂ hupto' => ?_, fun v hv hnew => ?_⟩
    · exact isOwner_of_performed ha hperm hdone (hau ▸ hnot)
    · rw [hupto] at hupto'
      cases hupto'
    · exact auditTrue_of_describes (hentry v hv hnew) hperm hdone

/-! ## A plugin that does what it is asked for -/

/-- The writes of the plugin, as statements. -/
def plainPlugin : OrganizationApi where
  removeMember _ memberId _ := Call.exec
    ⟨.delete .workspaceMember, fun _ => .ok ⟨(), [.del ⟨.workspaceMember, memberId⟩], []⟩⟩
  updateMemberRole _ memberId role _ := Call.exec ⟨.update .workspaceMember, fun db =>
    match byId WorkspaceMemberRow db memberId with
    | none => .error .p2025
    | some m => .ok ⟨(), [.put (.workspaceMember { m with role })], []⟩⟩
  leaveOrganization sessionUserId organizationId := Call.exec ⟨.delete .workspaceMember, fun db =>
    match (rows WorkspaceMemberRow db).find? (memberWhere organizationId sessionUserId) with
    | none => .error .p2025
    | some m => .ok ⟨(), [.del ⟨.workspaceMember, m.id⟩], []⟩⟩

theorem removed_erase {db : Db} {m : WorkspaceMemberRow} :
    (MemberWrite.remove m).Performed db (db.erase ⟨.workspaceMember, m.id⟩) ∧
      SameLog db (db.erase ⟨.workspaceMember, m.id⟩) := by
  have htable : (Write.del ⟨.workspaceMember, m.id⟩ : Write Key Row).key.table ≠ Model.table ActivityRow :=
    show Table.workspaceMember ≠ .activity by decide
  refine ⟨fun m' => mem_rows_erase (R := WorkspaceMemberRow), fun v => ?_⟩
  exact iff_of_eq (congrArg (v ∈ ·) (rows_apply_of_ne htable))

theorem plainPlugin_performs : Performs plainPlugin where
  removeMember env w _ _ m hm _ := by
    refine Call.ends_exec (fun e w' he hdb => ?_) fun _ _ hdb => sameLog_of_db hdb
    rw [← Except.ok.inj he] at hdb
    rw [hdb]
    exact removed_erase
  updateMemberRole env w _ _ role m hm _ := by
    refine Call.ends_exec (fun e w' he hdb => ?_) fun _ _ hdb => sameLog_of_db hdb
    have hfound : byId WorkspaceMemberRow w.db m.id = some m := byId_eq_some.mpr ⟨hm, rfl⟩
    simp only [hfound] at he
    rw [← Except.ok.inj he] at hdb
    rw [hdb]
    refine ⟨fun m' => (mem_rows_put (r := { m with role })).trans ?_, fun v => ?_⟩
    · constructor
      · intro h
        rcases h with rfl | ⟨hm', hne⟩
        · exact ⟨m, hm, by rw [if_pos rfl]⟩
        · exact ⟨m', hm', (if_neg hne).symm⟩
      · intro h
        obtain ⟨m₀, hm₀, hset⟩ := h
        by_cases heq : m₀.id = m.id
        · obtain rfl := eq_of_id hm₀ hm heq
          exact .inl (hset.trans (if_pos rfl))
        · rw [if_neg heq] at hset
          exact .inr (hset ▸ ⟨hm₀, heq⟩)
    · have htable : (Row.workspaceMember { m with role }).key.table ≠ Model.table ActivityRow :=
        show Table.workspaceMember ≠ .activity by decide
      exact iff_of_eq (congrArg (v ∈ ·) (rows_put_of_ne htable))
  leaveOrganization env w sessionUserId organizationId hd m hm hw hu := by
    refine Call.ends_exec (fun e w' he hdb => ?_) fun _ _ hdb => sameLog_of_db hdb
    simp only at he
    split at he
    · cases he
    · rename_i m' hfound
      obtain ⟨hw', hu'⟩ := memberWhere_iff.mp (List.find?_some hfound)
      obtain rfl := hd m' (List.mem_of_find?_eq_some hfound) m hm (hw'.trans hw.symm)
        (hu'.trans hu.symm)
      rw [← Except.ok.inj he] at hdb
      rw [hdb]
      exact removed_erase

/-- An owner and a member. -/
def twoMembers : Db where
  rows := [
    .user ⟨js "ada", js "ada@example.org", js "Ada", true, none, none, none⟩,
    .user ⟨js "bo", js "bo@example.org", js "Bo", true, none, none, none⟩,
    .workspace ⟨js "w", js "Workspace", js "workspace"⟩,
    .workspaceMember ⟨js "m", js "w", js "ada", .owner⟩,
    .workspaceMember ⟨js "n", js "w", js "bo", .member⟩]
  nodup := by simp [Row.key, js]

/-- The owner hands ownership on, and leaves. -/
def handOver : List MemberRequest :=
  [⟨js "ada", js "w", .updateRole (js "bo") ⟨.owner⟩⟩, ⟨js "ada", js "w", .leave⟩]

/-- The state after some requests. -/
def serveAll (auth : OrganizationApi) (env : Env kurul) (w : World kurul) : List MemberRequest → World kurul
  | [] => w
  | rq :: rest => serveAll auth env ((rq.serve auth).run env w).2 rest

theorem served_serveAll {auth : OrganizationApi} {env : Env kurul} {w₀ : World kurul} :
    ∀ {rqs : List MemberRequest} {w : World kurul}, Served auth env w₀ w →
      Served auth env w₀ (serveAll auth env w rqs) := by
  intro rqs
  induction rqs with
  | nil => intro w h; exact h
  | cons rq rest ih => intro w h; exact ih (h.next rfl)

theorem ownership_kept_hand_over :
    (rows WorkspaceMemberRow (serveAll plainPlugin calm (.start twoMembers) handOver).db).map
        WorkspaceMemberRow.userId = [js "bo"] ∧
      ∃ userId, IsOwner (serveAll plainPlugin calm (.start twoMembers) handOver).db (js "w") userId := by
  have hd : Distinct twoMembers := by
    intro m hm m' hm' _ hu
    have hm : m ∈ [⟨js "m", js "w", js "ada", .owner⟩, ⟨js "n", js "w", js "bo", .member⟩] := hm
    have hm' : m' ∈ [⟨js "m", js "w", js "ada", .owner⟩, ⟨js "n", js "w", js "bo", .member⟩] := hm'
    simp only [List.mem_cons, List.not_mem_nil, or_false] at hm hm'
    rcases hm with rfl | rfl <;> rcases hm' with rfl | rfl
    · rfl
    · exact absurd hu (by decide)
    · exact absurd hu (by decide)
    · rfl
  have hserved : Served plainPlugin calm (.start twoMembers)
      (serveAll plainPlugin calm (.start twoMembers) handOver) := served_serveAll .start
  refine ⟨by decide +kernel, (ownership_kept plainPlugin_performs hd hserved).1 (js "w") ?_⟩
  exact ⟨js "ada", ⟨js "m", js "w", js "ada", .owner⟩, List.mem_cons_self, rfl, rfl, rfl⟩

end WorkspaceMemberService
end Kurul
