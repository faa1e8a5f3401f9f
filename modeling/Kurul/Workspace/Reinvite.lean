import Mathlib.Data.Int.ConditionallyCompleteOrder
import Kurul.Workspace.WorkspaceInvitation

/-!
# Kurul.Workspace.Reinvite

What a call of `createInvitation` leaves of the pending invitations of an address, wherever it throws.

* `Reissues`          — the organization plugin does the write it is asked for, or throws.
* `clearPending_ends` — all of the pending invitations are withdrawn, or none.
* `reinvited`         — a call that returns leaves the address with invitations at the role asked for;
  one that throws has withdrawn some of them, or lacks its entry.
-/

namespace Kurul

open Sql

namespace WorkspaceInvitationService

open WorkspaceMemberService (SameLog)

/-! ## Writes to the invitations -/

def SameInvitations (db db' : Db) : Prop :=
  ∀ i, i ∈ rows WorkspaceInvitationRow db' ↔ i ∈ rows WorkspaceInvitationRow db

/-- Those under these ids are withdrawn. -/
def Canceled (ids : List Id) (db db' : Db) : Prop :=
  ∀ i, i ∈ rows WorkspaceInvitationRow db' ↔ ∃ i₀ ∈ rows WorkspaceInvitationRow db,
    i = if i₀.id ∈ ids then { i₀ with status := js "canceled" } else i₀

/-- An invitation is written, over the one with its id if there is one. -/
def Issued (v : WorkspaceInvitationRow) (db db' : Db) : Prop :=
  ∀ i, i ∈ rows WorkspaceInvitationRow db' ↔
    i = v ∨ i ∈ rows WorkspaceInvitationRow db ∧ i.id ≠ v.id

/-- A pending, unexpired invitation of the address. -/
def Pending (workspaceId : Id) (email : JsString) (now : Instant) (db : Db)
    (i : WorkspaceInvitationRow) : Prop :=
  i ∈ rows WorkspaceInvitationRow db ∧ live workspaceId now i = true ∧ i.email = email

section Writes

variable {db db₁ db' : Db} {ids : List Id} {i v : WorkspaceInvitationRow} {workspaceId : Id}
  {email : JsString} {now : Instant}

theorem live_iff : live workspaceId now i = true ↔
    i.workspaceId = workspaceId ∧ i.status = js "pending" ∧ now < i.expiresAt := by
  simp [live, and_assoc]

theorem canceled_nil : Canceled [] db db' ↔ SameInvitations db db' := by
  simp [Canceled, SameInvitations]

/-- One more is withdrawn. -/
theorem Canceled.cons {id : Id} (h : Canceled [id] db db₁) (h' : Canceled ids db₁ db') :
    Canceled (id :: ids) db db' := by
  intro i
  rw [h']
  constructor
  · intro hi
    obtain ⟨i₁, hi₁, rfl⟩ := hi
    obtain ⟨i₀, hi₀, rfl⟩ := (h i₁).mp hi₁
    refine ⟨i₀, hi₀, ?_⟩
    by_cases hid : i₀.id = id <;> simp [hid]
  · intro hi
    obtain ⟨i₀, hi₀, rfl⟩ := hi
    refine ⟨_, (h _).mpr ⟨i₀, hi₀, rfl⟩, ?_⟩
    by_cases hid : i₀.id = id <;> simp [hid]

/-- Of the pending ones those are left that were not withdrawn. -/
theorem Canceled.pending (h : Canceled ids db db') :
    Pending workspaceId email now db' i ↔ Pending workspaceId email now db i ∧ i.id ∉ ids := by
  constructor
  · intro hp
    obtain ⟨hi, hlive, hemail⟩ := hp
    obtain ⟨i₀, hi₀, rfl⟩ := (h i).mp hi
    by_cases hid : i₀.id ∈ ids
    · rw [if_pos hid] at hlive
      have hstatus : js "canceled" = js "pending" := (live_iff.mp hlive).2.1
      exact absurd hstatus (by decide)
    · rw [if_neg hid] at hlive hemail ⊢
      exact ⟨⟨hi₀, hlive, hemail⟩, hid⟩
  · intro hp
    obtain ⟨⟨hi, hlive, hemail⟩, hid⟩ := hp
    exact ⟨(h i).mpr ⟨i, hi, (if_neg hid).symm⟩, hlive, hemail⟩

theorem Issued.pending (h : Issued v db db') :
    Pending workspaceId email now db' i ↔
      i = v ∧ live workspaceId now v = true ∧ v.email = email ∨
        Pending workspaceId email now db i ∧ i.id ≠ v.id := by
  unfold Pending
  rw [h i]
  constructor
  · intro hp
    obtain ⟨rfl | ⟨hi, hne⟩, hlive, hemail⟩ := hp
    · exact .inl ⟨rfl, hlive, hemail⟩
    · exact .inr ⟨⟨hi, hlive, hemail⟩, hne⟩
  · intro hp
    rcases hp with ⟨rfl, hlive, hemail⟩ | ⟨⟨hi, hlive, hemail⟩, hne⟩
    · exact ⟨.inl rfl, hlive, hemail⟩
    · exact ⟨.inr ⟨hi, hne⟩, hlive, hemail⟩

theorem pending_congr (h : SameInvitations db db') :
    Pending workspaceId email now db' i ↔ Pending workspaceId email now db i := by
  rw [Pending, h i, Pending]

end Writes

/-! ## The plugin -/

/-- As the plugin answers a row. -/
def answered (v : WorkspaceInvitationRow) : PluginInvitation :=
  ⟨v.id, v.email, v.role, v.status, some v.expiresAt⟩

/-- Not expired at any time the clock has been read. -/
def Unexpired (env : Env kurul) (w : World kurul) (expiresAt : Instant) : Prop :=
  ∀ n < w.ticks, env.time n < expiresAt

/-- The plugin withdraws the pending invitation it is asked to, or throws and leaves it. -/
def Cancels (auth : InvitationApi) : Prop :=
  ∀ env w sessionUserId, ∀ i ∈ rows WorkspaceInvitationRow w.db, i.status = js "pending" →
    (auth.cancelInvitation sessionUserId i.id).Ends env w
      (fun _ w' => Canceled [i.id] w.db w'.db ∧ SameLog w.db w'.db)
      fun _ w' => SameInvitations w.db w'.db ∧ SameLog w.db w'.db

/-- For an address the plugin has refreshed a pending invitation, or inserted one at the role asked
for. -/
def Reissued (env : Env kurul) (email : JsString) (role : MemberRole) (organizationId : Id)
    (v : WorkspaceInvitationRow) (w w' : World kurul) : Prop :=
  SameLog w.db w'.db ∧ Issued v w.db w'.db ∧ v.workspaceId = organizationId ∧ v.email = email ∧
    v.status = js "pending" ∧ Unexpired env w v.expiresAt ∧
    ((∃ v₀ ∈ rows WorkspaceInvitationRow w.db, v = { v₀ with expiresAt := v.expiresAt } ∧
        Unexpired env w v₀.expiresAt) ∨
      v.role = some role.text ∧ ∀ i ∈ rows WorkspaceInvitationRow w.db, i.id ≠ v.id)

/-- And it answers that one; or it throws and leaves all of them. It writes no activity. -/
structure Reissues (auth : InvitationApi) : Prop where
  cancelInvitation : Cancels auth
  createInvitation : ∀ env w sessionUserId email role organizationId, Monotone env.time →
    (auth.createInvitation sessionUserId email role organizationId).Ends env w
      (fun answer w' => ∃ v, answer.1 = some (answered v) ∧ Reissued env email role organizationId v w w')
      fun _ w' => SameInvitations w.db w'.db ∧ SameLog w.db w'.db

/-! ## A call -/

section Calls

variable {auth : InvitationApi} {rt : Runtime} {env : Env kurul} {w w' : World kurul}
  {workspaceId actorId sessionUserId : Id} {email webAppUrl : JsString} {role : MemberRole}
  {dto : CreateInvitationDto} {found : List WorkspaceInvitationRow}

theorem log_trans {db db₁ db' : Db} (h : SameLog db db₁) (h' : SameLog db₁ db') : SameLog db db' :=
  fun a => (h' a).trans (h a)

theorem log_refl (db : Db) : SameLog db db := fun _ => Iff.rfl

/-- The invitations are withdrawn from the first on, as far as the plugin goes along. -/
theorem cancelAll_ends (hcancel : Cancels auth) (hnd : (found.map WorkspaceInvitationRow.id).Nodup)
    (hfound : ∀ i ∈ found, i ∈ rows WorkspaceInvitationRow w.db ∧ i.status = js "pending") :
    (cancelAll auth sessionUserId found).Ends env w
      (fun _ w' => Canceled (found.map WorkspaceInvitationRow.id) w.db w'.db ∧ SameLog w.db w'.db)
      fun _ w' => SameLog w.db w'.db ∧ ∃ ids, Canceled ids w.db w'.db := by
  induction found generalizing w with
  | nil => exact ⟨canceled_nil.mpr fun _ => Iff.rfl, log_refl _⟩
  | cons i found ih =>
    obtain ⟨hi, hpending⟩ := hfound i List.mem_cons_self
    rw [List.map_cons, List.nodup_cons] at hnd
    simp only [cancelAll, Call.ends_bind, Call.ends_tryCatch]
    refine (hcancel env w sessionUserId i hi hpending).mono (fun _ w₁ h => ?_) fun e w₁ h => ?_
    · obtain ⟨hcanceled, hlog⟩ := h
      -- the rest of them are as they were
      have hrest : ∀ i' ∈ found, i' ∈ rows WorkspaceInvitationRow w₁.db ∧ i'.status = js "pending" := by
        intro i' hi'
        obtain ⟨hmem, hpending'⟩ := hfound i' (List.mem_cons_of_mem _ hi')
        refine ⟨(hcanceled i').mpr ⟨i', hmem, (if_neg ?_).symm⟩, hpending'⟩
        intro hid
        rw [List.mem_singleton] at hid
        exact hnd.1 (hid ▸ List.mem_map_of_mem hi')
      refine (ih hnd.2 hrest).mono (fun _ w₂ h₂ => ?_) fun e w₂ h₂ => ?_
      · exact ⟨hcanceled.cons h₂.1, log_trans hlog h₂.2⟩
      · obtain ⟨hlog₂, ids, hcanceled₂⟩ := h₂
        exact ⟨log_trans hlog hlog₂, i.id :: ids, hcanceled.cons hcanceled₂⟩
    · exact ⟨h.2, [], canceled_nil.mpr h.1⟩

/-- The pending invitations of the address at the time of the call. -/
def pendingRows (workspaceId : Id) (email : JsString) (now : Instant) (db : Db) :
    List WorkspaceInvitationRow :=
  (rows WorkspaceInvitationRow db).filter fun i => live workspaceId now i && i.email = email

theorem mem_pendingRows {now : Instant} {db : Db} {i : WorkspaceInvitationRow} :
    i ∈ pendingRows workspaceId email now db ↔ Pending workspaceId email now db i := by
  simp [pendingRows, Pending]

theorem nodup_pendingRows {now : Instant} {db : Db} :
    ((pendingRows workspaceId email now db).map WorkspaceInvitationRow.id).Nodup :=
  (nodup_ids WorkspaceInvitationRow db).sublist (List.filter_sublist.map _)

theorem run_findPending_ok
    (h : (findPendingInvitations workspaceId email).run env w = (.ok found, w')) :
    found = pendingRows workspaceId email (env.time w.ticks) w.db ∧ w'.db = w.db ∧
      w'.ticks = w.ticks + 1 := by
  obtain ⟨now, w₁, hnow, h⟩ := Tx.run_bind_ok h
  simp only [Tx.now, Tx.run, Prod.mk.injEq, Except.ok.injEq] at hnow
  obtain ⟨rfl, rfl⟩ := hnow
  obtain ⟨rfl, rfl⟩ := run_query_ok h
  exact ⟨rfl, rfl, rfl⟩

/-- None has gone, and all are at the role; or one was at another, and all have gone. -/
def Cleared (env : Env kurul) (workspaceId : Id) (email : JsString) (role : MemberRole)
    (w w' : World kurul) : Prop :=
  w.ticks < w'.ticks ∧ SameLog w.db w'.db ∧ ∃ ids, Canceled ids w.db w'.db ∧
    (ids = [] ∧ (∀ i, Pending workspaceId email (env.time w.ticks) w.db i → i.role = some role.text) ∨
      (∃ i, Pending workspaceId email (env.time w.ticks) w.db i ∧ i.role ≠ some role.text) ∧
        ∀ i, ¬ Pending workspaceId email (env.time w.ticks) w'.db i)

/-- Some have gone, if one was at another role. -/
def PartlyCleared (env : Env kurul) (workspaceId : Id) (email : JsString) (role : MemberRole)
    (w w' : World kurul) : Prop :=
  SameLog w.db w'.db ∧ ∃ ids, Canceled ids w.db w'.db ∧
    (ids ≠ [] → ∃ i, Pending workspaceId email (env.time w.ticks) w.db i ∧ i.role ≠ some role.text)

theorem PartlyCleared.of_db (h : w'.db = w.db) : PartlyCleared env workspaceId email role w w' := by
  rw [PartlyCleared, h]
  exact ⟨log_refl _, [], canceled_nil.mpr fun _ => Iff.rfl, fun h => absurd rfl h⟩

theorem Cleared.partly (h : Cleared env workspaceId email role w w') :
    PartlyCleared env workspaceId email role w w' := by
  obtain ⟨_, hlog, ids, hcanceled, hwhich⟩ := h
  refine ⟨hlog, ids, hcanceled, fun hne => ?_⟩
  rcases hwhich with ⟨hnil, _⟩ | ⟨hother, _⟩
  · exact absurd hnil hne
  · exact hother

/-- What is left is at the role. -/
theorem Cleared.pending (h : Cleared env workspaceId email role w w') {i : WorkspaceInvitationRow}
    (hi : Pending workspaceId email (env.time w.ticks) w'.db i) : i.role = some role.text := by
  obtain ⟨_, _, ids, hcanceled, hwhich⟩ := h
  rcases hwhich with ⟨_, hall⟩ | ⟨_, hnone⟩
  · exact hall i (hcanceled.pending.mp hi).1
  · exact absurd hi (hnone i)

theorem clearPending_ends (hcancel : Cancels auth) :
    (clearPending auth workspaceId email role sessionUserId).Ends env w
      (fun _ w' => Cleared env workspaceId email role w w')
      fun _ w' => PartlyCleared env workspaceId email role w w' := by
  simp only [clearPending, Call.ends_bind]
  refine Call.ends_readOnly (fun _ => readOnly_query _) (fun found w₁ hrun hdb => ?_)
    fun _ _ hdb => .of_db hdb
  obtain ⟨rfl, _, hticks⟩ := run_findPending_ok hrun
  split
  · rename_i hany
    obtain ⟨i, hi, hrole⟩ := List.any_eq_true.mp hany
    have hother : ∃ i, Pending workspaceId email (env.time w.ticks) w.db i ∧
        i.role ≠ some role.text := ⟨i, mem_pendingRows.mp hi, of_decide_eq_true hrole⟩
    have hpending : ∀ i ∈ pendingRows workspaceId email (env.time w.ticks) w.db,
        i ∈ rows WorkspaceInvitationRow w₁.db ∧ i.status = js "pending" := by
      intro i hi
      rw [hdb]
      obtain ⟨hmem, hlive, _⟩ := mem_pendingRows.mp hi
      exact ⟨hmem, (live_iff.mp hlive).2.1⟩
    have hends : (cancelAll auth sessionUserId _).Ends env w₁ _ _ :=
      cancelAll_ends hcancel nodup_pendingRows hpending
    rw [hdb] at hends
    refine hends.ticks.mono (fun _ w₂ h => ?_) fun e w₂ h => ?_
    · obtain ⟨hticks', hcanceled, hlog⟩ := h
      refine ⟨by omega, hlog, _, hcanceled, .inr ⟨hother, fun i hi => ?_⟩⟩
      obtain ⟨hold, hid⟩ := hcanceled.pending.mp hi
      exact hid (List.mem_map_of_mem (mem_pendingRows.mpr hold))
    · obtain ⟨_, hlog, ids, hcanceled⟩ := h
      exact ⟨hlog, ids, hcanceled, fun _ => hother⟩
  · rename_i hnot
    have hlog : SameLog w.db w₁.db ∧ Canceled [] w.db w₁.db := by
      rw [hdb]
      exact ⟨log_refl _, canceled_nil.mpr fun _ => Iff.rfl⟩
    refine ⟨by omega, hlog.1, [], hlog.2, .inl ⟨rfl, fun i hi => ?_⟩⟩
    by_contra hrole
    exact hnot (List.any_eq_true.mpr ⟨i, mem_pendingRows.mpr hi, decide_eq_true hrole⟩)

/-- The address has invitations at this role only, one of them under the id. -/
def Held (workspaceId : Id) (email : JsString) (now : Instant) (role : MemberRole) (id : Id)
    (db : Db) : Prop :=
  (∀ i, Pending workspaceId email now db i → i.role = some role.text) ∧
    ∃ i, Pending workspaceId email now db i ∧ i.id = id

/-- One entry has been written, and it is this one. -/
def Logged (input : RecordActivityInput) (db db' : Db) : Prop :=
  ∃ a : ActivityRow, a.workspaceId = input.workspaceId ∧ a.userId = input.userId ∧
    a.type = input.type ∧ a.payload = .obj input.payload ∧ a ∉ rows ActivityRow db ∧
    ∀ b, b ∈ rows ActivityRow db' ↔ b ∈ rows ActivityRow db ∨ b = a

theorem logged_put {input : RecordActivityInput} {db : Db} {a : ActivityRow}
    (hw : a.workspaceId = input.workspaceId) (hu : a.userId = input.userId)
    (htype : a.type = input.type) (hpayload : a.payload = .obj input.payload)
    (hnew : insertRefusal (.activity a) db = none) : Logged input db (db.put (.activity a)) := by
  have hid : ∀ b ∈ rows ActivityRow db, b.id ≠ a.id := not_mem_of_insertRefusal (R := ActivityRow) hnew
  refine ⟨a, hw, hu, htype, hpayload, fun hmem => hid a hmem rfl, fun b => ?_⟩
  refine (mem_rows_put (R := ActivityRow)).trans ?_
  constructor
  · intro h
    rcases h with rfl | ⟨hb, _⟩
    · exact .inr rfl
    · exact .inl hb
  · intro h
    rcases h with hb | rfl
    · exact .inr ⟨hb, hid b hb⟩
    · exact .inl rfl

/-- What follows on an answer writes the entry, or nothing. -/
theorem issued_ends {v : WorkspaceInvitationRow} {delivery : Option MailDeliveryStatus} :
    (Call.auto (issued webAppUrl workspaceId actorId dto (some (answered v), delivery))).Ends env w
      (fun res w' => res.id = v.id ∧ res.role = dto.role.text ∧
        Logged (invitationCreated workspaceId actorId dto.role v.id delivery) w.db w'.db ∧
        SameInvitations w.db w'.db)
      fun _ w' => w'.db = w.db := by
  simp only [issued, requireWhole, answered]
  split
  · exact rfl
  · simp only [Tx.pure_eq, Tx.ret_bind, Call.auto_bind, Call.ends_bind]
    refine Call.ends_readOnly (WorkspaceMemberService.readOnly_throwIf _ _) (fun _ w₁ _ hdb => ?_)
      fun _ _ hdb => hdb
    rw [← hdb]
    refine ends_record (fun a w₂ hw hu htype hpayload hnew hdb₂ => ⟨rfl, rfl, ?_, ?_⟩) fun _ _ hdb₂ => hdb₂
    · rw [hdb₂]
      exact logged_put hw hu htype hpayload hnew
    · have htable : (Row.activity a).key.table ≠ Model.table WorkspaceInvitationRow :=
        show Table.activity ≠ .workspaceInvitation by decide
      intro i
      rw [hdb₂]
      exact iff_of_eq (congrArg (i ∈ ·) (rows_put_of_ne htable))

/-- The plugin's answer: the address is held at the role, if what was pending is at it. -/
theorem held_of_issued {db db' : Db} {v : WorkspaceInvitationRow} (hissued : Issued v db db')
    (hw : v.workspaceId = workspaceId) (hemail : v.email = email) (hstatus : v.status = js "pending")
    (hexpires : Unexpired env w v.expiresAt) {n : Nat} (hn : n < w.ticks)
    (hbefore : ∀ i, Pending workspaceId email (env.time n) db i → i.role = some role.text)
    (hfrom : (∃ v₀ ∈ rows WorkspaceInvitationRow db, v = { v₀ with expiresAt := v.expiresAt } ∧
        Unexpired env w v₀.expiresAt) ∨ v.role = some role.text) :
    Held workspaceId email (env.time n) role v.id db' := by
  have hlive : live workspaceId (env.time n) v = true := live_iff.mpr ⟨hw, hstatus, hexpires n hn⟩
  have hrole : v.role = some role.text := by
    rcases hfrom with ⟨v₀, hv₀, heq, hunexpired⟩ | hrole
    · have hpending : Pending workspaceId email (env.time n) db v₀ := by
        rw [heq] at hw hemail hstatus
        exact ⟨hv₀, live_iff.mpr ⟨hw, hstatus, hunexpired n hn⟩, hemail⟩
      rw [heq]
      exact hbefore v₀ hpending
    · exact hrole
  refine ⟨fun i hi => ?_, v, hissued.pending.mpr (.inl ⟨rfl, hlive, hemail⟩), rfl⟩
  rcases hissued.pending.mp hi with ⟨rfl, _⟩ | ⟨hi, _⟩
  · exact hrole
  · exact hbefore i hi

/-- A call, whatever the plugin makes of an invitation: it clears, the plugin issues, and an entry is
written. It may throw at each of these. -/
theorem createInvitation_ends (hcancel : Cancels auth)
    {Q : WorkspaceInvitationRow → World kurul → World kurul → Prop}
    {E : World kurul → World kurul → Prop}
    (hcreate : ∀ w₁, (auth.createInvitation sessionUserId (rt.toLowerCase dto.email) dto.role
      workspaceId).Ends env w₁ (fun answer w₂ => ∃ v, answer.1 = some (answered v) ∧ Q v w₁ w₂)
        fun _ w₂ => E w₁ w₂) :
    (createInvitation rt auth webAppUrl workspaceId actorId dto sessionUserId).Ends env w
      (fun res w' => dto.role ≠ .owner ∧ res.role = dto.role.text ∧ ∃ w₁ v w₂ delivery,
        Cleared env workspaceId (rt.toLowerCase dto.email) dto.role w w₁ ∧ Q v w₁ w₂ ∧ res.id = v.id ∧
        Logged (invitationCreated workspaceId actorId dto.role v.id delivery) w₂.db w'.db ∧
        SameInvitations w₂.db w'.db)
      fun _ w' => PartlyCleared env workspaceId (rt.toLowerCase dto.email) dto.role w w' ∨
        ∃ w₁, Cleared env workspaceId (rt.toLowerCase dto.email) dto.role w w₁ ∧
          (E w₁ w' ∨ ∃ v w₂, Q v w₁ w₂ ∧ w'.db = w₂.db) := by
  simp only [createInvitation, Call.ends_bind, Call.ends_tryCatch]
  refine Call.ends_readOnly (WorkspaceMemberService.readOnly_throwIf _ _) (fun _ w₀ hrun _ => ?_)
    fun _ _ hdb => .inl (.of_db hdb)
  obtain ⟨howner, rfl⟩ := run_throwIf_ok hrun
  refine (clearPending_ends hcancel).mono (fun _ w₁ hcleared => ?_) fun _ w₁ h => .inl h
  refine (hcreate w₁).mono (fun answer w₂ h₂ => ?_) fun _ w₂ h₂ => .inr ⟨w₁, hcleared, .inl h₂⟩
  obtain ⟨v, hanswer, hv⟩ := h₂
  obtain ⟨invitation, delivery⟩ := answer
  obtain rfl : invitation = some (answered v) := hanswer
  refine issued_ends.mono (fun res w₃ h₃ => ?_) fun _ w₃ hdb => .inr ⟨w₁, hcleared, .inr ⟨v, w₂, hv, hdb⟩⟩
  obtain ⟨hid, hrole, hlogged, hinvitations⟩ := h₃
  exact ⟨of_decide_eq_false howner, hrole, w₁, v, w₂, delivery, hcleared, hv, hid, hlogged, hinvitations⟩

/-- A call that returns leaves the address with invitations at the role asked for, the one it returns
among them, and one entry for it. A call that throws leaves no entry; it has issued nothing, and
withdrawn some of the pending invitations, if one of them was at another role; or it has issued the
invitation, and failed behind that. -/
theorem reinvited (hauth : Reissues auth) (rt : Runtime) (env : Env kurul)
    (hclock : Monotone env.time) (w : World kurul) (webAppUrl : JsString)
    (workspaceId actorId sessionUserId : Id) (dto : CreateInvitationDto) :
    (createInvitation rt auth webAppUrl workspaceId actorId dto sessionUserId).Ends env w
      (fun res w' => dto.role ≠ .owner ∧ res.role = dto.role.text ∧
        Held workspaceId (rt.toLowerCase dto.email) (env.time w.ticks) dto.role res.id w'.db ∧
        ∃ delivery, Logged (invitationCreated workspaceId actorId dto.role res.id delivery) w.db w'.db)
      fun _ w' => SameLog w.db w'.db ∧
        ((∃ ids : List Id,
            (ids ≠ [] → ∃ i, Pending workspaceId (rt.toLowerCase dto.email) (env.time w.ticks) w.db i ∧
              i.role ≠ some dto.role.text) ∧
            ∀ i, Pending workspaceId (rt.toLowerCase dto.email) (env.time w.ticks) w'.db i ↔
              Pending workspaceId (rt.toLowerCase dto.email) (env.time w.ticks) w.db i ∧ i.id ∉ ids) ∨
          ∃ id, Held workspaceId (rt.toLowerCase dto.email) (env.time w.ticks) dto.role id w'.db) := by
  set email := rt.toLowerCase dto.email
  have hpartly : ∀ {w'}, PartlyCleared env workspaceId email dto.role w w' →
      SameLog w.db w'.db ∧ ∃ ids : List Id,
        (ids ≠ [] → ∃ i, Pending workspaceId email (env.time w.ticks) w.db i ∧
          i.role ≠ some dto.role.text) ∧
        ∀ i, Pending workspaceId email (env.time w.ticks) w'.db i ↔
          Pending workspaceId email (env.time w.ticks) w.db i ∧ i.id ∉ ids := by
    intro w' h
    obtain ⟨hlog, ids, hcanceled, hother⟩ := h
    exact ⟨hlog, ids, hother, fun i => hcanceled.pending⟩
  -- what the plugin has issued
  have hheld : ∀ {w₁ w₂ v}, Cleared env workspaceId email dto.role w w₁ →
      Reissued env email dto.role workspaceId v w₁ w₂ → SameLog w.db w₂.db ∧
        Held workspaceId email (env.time w.ticks) dto.role v.id w₂.db := by
    intro w₁ w₂ v hcleared hv
    obtain ⟨hlog, hissued, hw, hemail, hstatus, hexpires, hfrom⟩ := hv
    exact ⟨log_trans hcleared.2.1 hlog, held_of_issued hissued hw hemail hstatus hexpires hcleared.1
      (fun i hi => hcleared.pending hi) (hfrom.imp id And.left)⟩
  refine (createInvitation_ends hauth.cancelInvitation
    fun w₁ => hauth.createInvitation env w₁ _ _ _ _ hclock).mono (fun res w' h => ?_) fun _ w' h => ?_
  · obtain ⟨howner, hrole, w₁, v, w₂, delivery, hcleared, hv, hid, hlogged, hinvitations⟩ := h
    obtain ⟨hlog, hall, i, hi, heq⟩ := hheld hcleared hv
    refine ⟨howner, hrole, ⟨fun i hi => hall i ((pending_congr hinvitations).mp hi), i, ?_, ?_⟩,
      delivery, ?_⟩
    · exact (pending_congr hinvitations).mpr hi
    · rw [heq, hid]
    · obtain ⟨a, haw, hau, htype, hpayload, hnew, hwritten⟩ := hlogged
      rw [hid]
      exact ⟨a, haw, hau, htype, hpayload, fun hmem => hnew ((hlog a).mpr hmem),
        fun b => (hwritten b).trans (or_congr_left (hlog b))⟩
  · rcases h with hcleared | ⟨w₁, hcleared, ⟨hsame, hlog⟩ | ⟨v, w₂, hv, hdb⟩⟩
    · exact ⟨(hpartly hcleared).1, .inl (hpartly hcleared).2⟩
    · obtain ⟨hlog₁, ids, hother, hids⟩ := hpartly hcleared.partly
      exact ⟨log_trans hlog₁ hlog, .inl ⟨ids, hother, fun i => (pending_congr hsame).trans (hids i)⟩⟩
    · rw [hdb]
      exact ⟨(hheld hcleared hv).1, .inr ⟨v.id, (hheld hcleared hv).2⟩⟩

end Calls

/-! ## The plugin, plainly -/

def twoDays : Int := 48 * 60 * 60 * 1000

/-- The writes of the plugin, as statements. It may refuse every invitation, and refuses one whose id is
not after those there are. -/
def plainInvitations (refuses : Bool) : InvitationApi where
  cancelInvitation _ invitationId := Call.exec ⟨.update .workspaceInvitation, fun db =>
    match byId WorkspaceInvitationRow db invitationId with
    | none => .error .p2025
    | some i => .ok ⟨(), [.put (.workspaceInvitation { i with status := js "canceled" })], []⟩⟩
  createInvitation sessionUserId email role organizationId :=
    if refuses then .throw (.betterAuth 403 none)
    else .clock fun now => .draw fun id => Call.exec ⟨.insert .workspaceInvitation, fun db =>
      let answer (i : WorkspaceInvitationRow) := (some (answered i), some MailDeliveryStatus.notConfigured)
      match (pendingRows organizationId email now db).head? with
      | some i =>
        let i := { i with expiresAt := now + twoDays }
        .ok ⟨answer i, [.put (.workspaceInvitation i)], []⟩
      | none =>
        let i := ⟨id, email, sessionUserId, organizationId, some role.text, js "pending", now + twoDays⟩
        if ∀ i' ∈ rows WorkspaceInvitationRow db, i'.id < id then
          .ok ⟨answer i, [.put (.workspaceInvitation i)], []⟩
        else .error .unavailable⟩

theorem log_put {db : Db} {v : WorkspaceInvitationRow} :
    SameLog db (db.put (.workspaceInvitation v)) := by
  have htable : (Row.workspaceInvitation v).key.table ≠ Model.table ActivityRow :=
    show Table.workspaceInvitation ≠ .activity by decide
  exact fun a => iff_of_eq (congrArg (a ∈ ·) (rows_put_of_ne htable))

theorem same_of_db {db db' : Db} (h : db' = db) : SameInvitations db db' ∧ SameLog db db' := by
  subst h
  exact ⟨fun _ => Iff.rfl, log_refl _⟩

theorem plainInvitations_reissues (refuses : Bool) : Reissues (plainInvitations refuses) where
  cancelInvitation env w _ i hi hpending := by
    refine Call.ends_exec (fun e w' he hdb => ?_) fun _ _ hdb => same_of_db hdb
    have hfound : byId WorkspaceInvitationRow w.db i.id = some i := byId_eq_some.mpr ⟨hi, rfl⟩
    simp only [hfound] at he
    rw [← Except.ok.inj he] at hdb
    rw [hdb]
    refine ⟨fun i' => (mem_rows_put (r := { i with status := js "canceled" })).trans ?_, log_put⟩
    constructor
    · intro h
      rcases h with rfl | ⟨hi', hne⟩
      · exact ⟨i, hi, by simp⟩
      · refine ⟨i', hi', (if_neg fun hmem => hne ?_).symm⟩
        exact List.mem_singleton.mp hmem
    · intro h
      obtain ⟨i₀, hi₀, hset⟩ := h
      by_cases heq : i₀.id = i.id
      · obtain rfl := eq_of_id hi₀ hi heq
        exact .inl (hset.trans (if_pos List.mem_cons_self))
      · rw [if_neg fun hmem => heq (List.mem_singleton.mp hmem)] at hset
        exact .inr (hset ▸ ⟨hi₀, heq⟩)
  createInvitation env w sessionUserId email role organizationId hclock := by
    cases refuses with
    | true => exact same_of_db rfl
    | false =>
      have hlate : ∀ {e : Instant}, env.time w.ticks < e → Unexpired env w e := fun hlt n hn =>
        lt_of_le_of_lt (hclock (Nat.le_of_lt hn)) hlt
      have hnew : Unexpired env w (env.time w.ticks + twoDays) :=
        hlate (Int.lt_add_of_pos_right _ (by decide))
      refine Call.ends_exec (w := { w with ticks := w.ticks + 1, ids := w.ids + 1 }) (fun e w' he hdb => ?_)
        fun _ _ hdb => same_of_db hdb
      dsimp only at he
      split at he
      · rename_i i hhead
        obtain ⟨hi, hlive, hemail⟩ := mem_pendingRows.mp (List.mem_of_head? hhead)
        obtain ⟨hw, hstatus, hexpires⟩ := live_iff.mp hlive
        rw [← Except.ok.inj he] at hdb ⊢
        refine ⟨_, rfl, ?_⟩
        rw [Reissued, hdb]
        exact ⟨log_put, fun i' => mem_rows_put (R := WorkspaceInvitationRow), hw, hemail, hstatus, hnew,
          .inl ⟨i, hi, rfl, hlate hexpires⟩⟩
      · split at he
        · rename_i hafter
          rw [← Except.ok.inj he] at hdb ⊢
          refine ⟨_, rfl, ?_⟩
          rw [Reissued, hdb]
          exact ⟨log_put, fun i' => mem_rows_put (R := WorkspaceInvitationRow), rfl, rfl, rfl, hnew,
            .inr ⟨rfl, fun i' hi' => ne_of_lt (hafter i' hi')⟩⟩
        · cases he

/-- A member is invited. -/
def oneInvited : Db where
  rows := [
    .user ⟨js "ada", js "ada@example.org", js "Ada", true, none, none, none⟩,
    .workspace ⟨js "w", js "Workspace", js "workspace"⟩,
    .workspaceMember ⟨js "m", js "w", js "ada", .owner⟩,
    .workspaceInvitation ⟨js "i", js "bo@example.org", js "ada", js "w", some (js "MEMBER"),
      js "pending", 1⟩]
  nodup := by simp [Row.key, js]

/-- And is invited again, as an admin. -/
def asAdmin (refuses : Bool) : Call kurul InvitationDto :=
  createInvitation .bare (plainInvitations refuses) (js "https://kurul.example") (js "w") (js "ada")
    ⟨js "bo@example.org", .admin⟩ (js "ada")

theorem reinvited_as_admin : ∃ res w', (asAdmin false).run calm (.start oneInvited) = (.ok res, w') ∧
    res.role = js "ADMIN" ∧ Held (js "w") (js "bo@example.org") 0 .admin res.id w'.db := by
  obtain ⟨res, w', h⟩ := Call.run_isOk calm (.start oneInvited) (show ((asAdmin false).run calm
    (.start oneInvited)).1.isOk = true by decide +kernel)
  have hends := (reinvited (plainInvitations_reissues false) .bare calm (fun _ _ _ => le_rfl)
    (.start oneInvited) (js "https://kurul.example") (js "w") (js "ada") (js "ada")
    ⟨js "bo@example.org", .admin⟩).of_ok h
  exact ⟨res, w', h, hends.2.1, hends.2.2.1⟩

/-- The pending invitation is withdrawn, and the plugin refuses the new one: the address has none. -/
theorem withdrawn_and_refused : ¬ ∀ (auth : InvitationApi), Reissues auth →
    ∀ (rt : Runtime) (env : Env kurul), Monotone env.time → ∀ (w : World kurul)
      (webAppUrl : JsString) (workspaceId actorId sessionUserId : Id) (dto : CreateInvitationDto),
      (createInvitation rt auth webAppUrl workspaceId actorId dto sessionUserId).Ends env w
        (fun _ _ => True)
        fun _ w' => ∀ i, Pending workspaceId (rt.toLowerCase dto.email) (env.time w.ticks) w'.db i ↔
          Pending workspaceId (rt.toLowerCase dto.email) (env.time w.ticks) w.db i := by
  intro h
  have hends := h _ (plainInvitations_reissues true) .bare calm (fun _ _ _ => le_rfl)
    (.start oneInvited) (js "https://kurul.example") (js "w") (js "ada") (js "ada")
    ⟨js "bo@example.org", .admin⟩
  have hthrew : ((asAdmin true).run calm (.start oneInvited)).1.isOk = false ∧
      (pendingRows (js "w") (js "bo@example.org") 0
        ((asAdmin true).run calm (.start oneInvited)).2.db).length = 0 ∧
      (pendingRows (js "w") (js "bo@example.org") 0 oneInvited).length = 1 := by decide +kernel
  rcases hrun : (asAdmin true).run calm (.start oneInvited) with ⟨res, w'⟩
  rw [hrun] at hthrew
  obtain ⟨hres, hafter, hbefore⟩ := hthrew
  cases res with
  | ok res => cases hres
  | error e =>
    have hsame := hends.of_error hrun
    obtain ⟨i, hi⟩ : ∃ i, i ∈ pendingRows (js "w") (js "bo@example.org") 0 oneInvited :=
      List.exists_mem_of_length_pos (by omega)
    have hlost := mem_pendingRows.mpr ((hsame i).mpr (mem_pendingRows.mp hi))
    have hlost : i ∈ pendingRows (js "w") (js "bo@example.org") 0 w'.db := hlost
    rw [List.eq_nil_of_length_eq_zero hafter] at hlost
    cases hlost

end WorkspaceInvitationService
end Kurul
