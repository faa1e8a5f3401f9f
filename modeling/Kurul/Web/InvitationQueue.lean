import Kurul.Lts
import Kurul.Workspace.Reinvite

/-!
# Kurul.Web.InvitationQueue

The invitation queue on the members screen: `onInvited` puts what the server answered at its end,
`onRevoked` takes an invitation out, and nothing is read again.

* `next`          — one call after another, each answered by the server before the next.
* `AtEnd`         — the invited address has no pending invitation at another role, and none before the
  end of the queue.
* `queue_in_sync` — the queue shown is the server's along every run of such calls, and a call that is
  none makes it another.
-/

namespace Kurul
namespace MembersSettings

open Sql Lts WorkspaceInvitationService

/-- An admin at the members screen of a workspace. -/
structure Session where
  rt : Runtime
  auth : InvitationApi
  env : Env kurul
  webAppUrl : JsString
  workspaceId : Id
  userId : Id

structure Screen where
  /-- The server. -/
  world : World kurul
  /-- `roster.invitations`. -/
  invitations : List InvitationDto

def onInvited (invitation : InvitationDto) (current : List InvitationDto) : List InvitationDto :=
  current.filter (fun item => item.id ≠ invitation.id) ++ [invitation]

def onRevoked (invitationId : Id) (current : List InvitationDto) : List InvitationDto :=
  current.filter fun item => item.id ≠ invitationId

inductive Act where
  | invite (email : JsString) (role : MemberRole)
  | revoke (invitationId : Id)

/-- What is asked of the server, and what is made of its answer. -/
def Session.call (c : Session) : Act → Call kurul (List InvitationDto → List InvitationDto)
  | .invite email role => do
    let invitation ← createInvitation c.rt c.auth c.webAppUrl c.workspaceId c.userId
      ⟨trim email, role⟩ c.userId
    return onInvited invitation
  | .revoke invitationId => do
    revokeInvitation c.auth c.workspaceId c.userId invitationId c.userId
    return onRevoked invitationId

/-- An invitation is revoked from its row. -/
def Act.available (s : Screen) : Act → Bool
  | .invite _ _ => true
  | .revoke invitationId => s.invitations.any fun item => item.id = invitationId

def next (c : Session) (a : Act) (s : Screen) : Option Screen :=
  if a.available s then
    match (c.call a).run c.env s.world with
    | (.ok update, w) => some ⟨w, update s.invitations⟩
    | (.error _, w) => some ⟨w, s.invitations⟩
  else none

/-- Ids and roles, as the server would list them now. -/
def queue (c : Session) (w : World kurul) : List (Id × JsString) :=
  (listPendingInvitations c.webAppUrl c.workspaceId (c.env.time w.ticks) w.db).map fun d => (d.id, d.role)

/-- As they are shown. -/
def shown (s : Screen) : List (Id × JsString) := s.invitations.map fun d => (d.id, d.role)

def InSync (c : Session) (s : Screen) : Prop := shown s = queue c s.world

/-- No pending invitation of the address is at another role, or before the end of the queue. -/
def AtEnd (c : Session) (w : World kurul) (email : JsString) (role : MemberRole) : Prop :=
  ∀ i, Pending c.workspaceId (c.rt.toLowerCase (trim email)) (c.env.time w.ticks) w.db i →
    i.role = some role.text ∧ ∀ x ∈ queue c w, x.1 ≤ i.id

def Acknowledged (c : Session) (s : Screen) (a : Act) : Prop :=
  ((c.call a).run c.env s.world).1.isOk = true

/-- A call that throws has written no invitation, and one that returns was of an address at the end. -/
def Orderly (c : Session) (s : Screen) (a : Act) : Prop :=
  (¬ Acknowledged c s a →
    SameInvitations s.world.db ((c.call a).run c.env s.world).2.db) ∧
  (Acknowledged c s a → match a with
    | .invite email role => AtEnd c s.world email role
    | .revoke _ => True)

/-! ## The plugin and the clock -/

/-- For an address the plugin has refreshed the pending invitation, or inserted one behind all others,
since there was none. -/
def Resent (env : Env kurul) (email : JsString) (role : MemberRole) (organizationId : Id)
    (v : WorkspaceInvitationRow) (w w' : World kurul) : Prop :=
  Issued v w.db w'.db ∧ v.workspaceId = organizationId ∧ v.email = email ∧ v.status = js "pending" ∧
    (∀ n, env.time n < v.expiresAt) ∧
    ((∃ v₀, Pending organizationId email (env.time w.ticks) w.db v₀ ∧
        v = { v₀ with expiresAt := v.expiresAt }) ∨
      (∀ i, ¬ Pending organizationId email (env.time w.ticks) w.db i) ∧ v.role = some role.text ∧
        ∀ i ∈ rows WorkspaceInvitationRow w.db, i.id < v.id)

/-- Ids grow, and what the plugin writes does not expire in the run. -/
structure Resends (auth : InvitationApi) (env : Env kurul) : Prop where
  cancelInvitation : Cancels auth
  createInvitation : ∀ w sessionUserId email role organizationId,
    (auth.createInvitation sessionUserId email role organizationId).Ends env w
      (fun answer w' => ∃ v, answer.1 = some (answered v) ∧ Resent env email role organizationId v w w')
      fun _ _ => True

/-- No pending invitation expires in the run. -/
def NoExpiry (env : Env kurul) (db : Db) : Prop :=
  ∀ i ∈ rows WorkspaceInvitationRow db, i.status = js "pending" →
    (∀ n, env.time n < i.expiresAt) ∨ ∀ n, i.expiresAt ≤ env.time n

section Queue

variable {c : Session} {env : Env kurul} {db db' : Db} {w w' : World kurul} {workspaceId : Id}
  {i v : WorkspaceInvitationRow} {email : JsString} {role : MemberRole} {ids : List Id} {m n : Nat}
  {x : Id × JsString}

theorem NoExpiry.live (h : NoExpiry env db) (hi : i ∈ rows WorkspaceInvitationRow db) :
    live workspaceId (env.time m) i = true ↔ live workspaceId (env.time n) i = true := by
  simp only [live_iff]
  refine and_congr_right fun _ => and_congr_right fun hstatus => ?_
  rcases h i hi hstatus with hlive | hdead
  · exact iff_of_true (hlive m) (hlive n)
  · exact iff_of_false (not_lt.mpr (hdead m)) (not_lt.mpr (hdead n))

theorem NoExpiry.pending (h : NoExpiry env db) :
    Pending workspaceId email (env.time m) db i ↔ Pending workspaceId email (env.time n) db i :=
  and_congr_right fun hi => and_congr_left fun _ => h.live hi

theorem NoExpiry.same (h : NoExpiry env db) (hsame : SameInvitations db db') : NoExpiry env db' :=
  fun i hi => h i ((hsame i).mp hi)

theorem NoExpiry.canceled (h : NoExpiry env db) (hcanceled : Canceled ids db db') : NoExpiry env db' := by
  intro i hi hstatus
  obtain ⟨i₀, hi₀, rfl⟩ := (hcanceled i).mp hi
  by_cases hid : i₀.id ∈ ids
  · rw [if_pos hid] at hstatus
    have hstatus : js "canceled" = js "pending" := hstatus
    exact absurd hstatus (by decide)
  · rw [if_neg hid] at hstatus ⊢
    exact h i₀ hi₀ hstatus

theorem NoExpiry.issued (h : NoExpiry env db) (hissued : Issued v db db')
    (hexpires : ∀ n, env.time n < v.expiresAt) : NoExpiry env db' := by
  intro i hi hstatus
  rcases (hissued i).mp hi with rfl | ⟨hi, _⟩
  · exact .inl hexpires
  · exact h i hi hstatus

/-- An entry of the queue. -/
def entry (i : WorkspaceInvitationRow) : Id × JsString := (i.id, i.role.getD MemberRole.guest.text)

theorem queue_eq : queue c w = (sortBy WorkspaceInvitationRow.id ((rows WorkspaceInvitationRow w.db).filter
    fun i => live c.workspaceId (c.env.time w.ticks) i)).map entry := by
  rw [queue, listPendingInvitations, List.map_map]
  rfl

theorem mem_queue : x ∈ queue c w ↔ ∃ i ∈ rows WorkspaceInvitationRow w.db,
    live c.workspaceId (c.env.time w.ticks) i = true ∧ entry i = x := by
  simp [queue_eq, and_assoc]

theorem queue_lt : (queue c w).Pairwise fun x y => x.1 < y.1 := by
  rw [queue_eq]
  refine List.pairwise_map.mpr (sortBy_lt ?_)
  exact (nodup_ids WorkspaceInvitationRow w.db).sublist (List.filter_sublist.map _)

/-- A queue whose entries are known. -/
theorem queue_eq_of_mem {l : List (Id × JsString)} (hl : l.Pairwise fun x y => x.1 < y.1)
    (h : ∀ x, x ∈ l ↔ x ∈ queue c w) : l = queue c w := eq_of_mem_iff hl queue_lt h

/-- Nothing is written: the queue is what it was. -/
theorem queue_same (h : NoExpiry c.env w.db) (hsame : SameInvitations w.db w'.db) :
    queue c w = queue c w' := by
  refine queue_eq_of_mem queue_lt fun x => ?_
  simp only [mem_queue, hsame _]
  refine exists_congr fun i => and_congr_right fun hi => and_congr_left fun _ => h.live hi

/-- One is withdrawn. -/
theorem queue_canceled (h : NoExpiry c.env w.db) {id : Id} (hcanceled : Canceled [id] w.db w'.db) :
    (queue c w).filter (fun x => x.1 ≠ id) = queue c w' := by
  have hlive : ∀ i, (i ∈ rows WorkspaceInvitationRow w'.db ∧
      live c.workspaceId (c.env.time w'.ticks) i = true) ↔
      (i ∈ rows WorkspaceInvitationRow w.db ∧ live c.workspaceId (c.env.time w.ticks) i = true) ∧
        i.id ≠ id := by
    intro i
    have hp : Pending c.workspaceId i.email (c.env.time w'.ticks) w'.db i ↔
        Pending c.workspaceId i.email (c.env.time w.ticks) w.db i ∧ i.id ∉ [id] :=
      hcanceled.pending.trans (and_congr_left fun _ => h.pending)
    simpa [Pending] using hp
  refine queue_eq_of_mem (queue_lt.filter _) fun x => ?_
  rw [List.mem_filter, mem_queue, mem_queue]
  constructor
  · intro hx
    obtain ⟨⟨i, hi, hl, rfl⟩, hne⟩ := hx
    obtain ⟨hi', hl'⟩ := (hlive i).mpr ⟨⟨hi, hl⟩, of_decide_eq_true hne⟩
    exact ⟨i, hi', hl', rfl⟩
  · intro hx
    obtain ⟨i, hi, hl, rfl⟩ := hx
    obtain ⟨⟨hi', hl'⟩, hne⟩ := (hlive i).mp ⟨hi, hl⟩
    exact ⟨⟨i, hi', hl', rfl⟩, decide_eq_true hne⟩

/-- One is written. -/
theorem mem_queue_issued (h : NoExpiry c.env w.db) (hissued : Issued v w.db w'.db)
    (hlive : live c.workspaceId (c.env.time w'.ticks) v = true) :
    x ∈ queue c w' ↔ x = entry v ∨ x ∈ queue c w ∧ x.1 ≠ v.id := by
  rw [mem_queue, mem_queue]
  constructor
  · intro hx
    obtain ⟨i, hi, hl, rfl⟩ := hx
    rcases (hissued i).mp hi with rfl | ⟨hi, hne⟩
    · exact .inl rfl
    · exact .inr ⟨⟨i, hi, (h.live hi).mp hl, rfl⟩, hne⟩
  · intro hx
    rcases hx with rfl | ⟨⟨i, hi, hl, rfl⟩, hne⟩
    · exact ⟨v, (hissued v).mpr (.inl rfl), hlive, rfl⟩
    · exact ⟨i, (hissued i).mpr (.inr ⟨hi, hne⟩), (h.live hi).mp hl, rfl⟩

/-- One is written behind all others. -/
theorem queue_issued (h : NoExpiry c.env w.db) (hissued : Issued v w.db w'.db)
    (hlive : live c.workspaceId (c.env.time w'.ticks) v = true) (hlast : ∀ x ∈ queue c w, x.1 ≤ v.id) :
    (queue c w).filter (fun x => x.1 ≠ v.id) ++ [entry v] = queue c w' := by
  refine queue_eq_of_mem ?_ fun x => ?_
  · refine List.pairwise_append.mpr ⟨queue_lt.filter _, List.pairwise_singleton _ _, fun x hx y hy => ?_⟩
    rw [List.mem_singleton.mp hy]
    obtain ⟨hx, hne⟩ := List.mem_filter.mp hx
    exact lt_of_le_of_ne (hlast x hx) (of_decide_eq_true hne)
  · rw [mem_queue_issued h hissued hlive, List.mem_append, List.mem_filter, List.mem_singleton,
      decide_eq_true_iff]
    exact Or.comm

end Queue

/-! ## One call -/

section Calls

variable {c : Session} {w w' w₀ : World kurul} {s s' s₀ : Screen} {email : JsString} {role : MemberRole}
  {v : WorkspaceInvitationRow} {a : Act} {invitationId : Id}

/-- What an invitation that was answered has come to. -/
inductive Written (c : Session) (w : World kurul) (email : JsString) (role : MemberRole)
    (v : WorkspaceInvitationRow) (w' : World kurul) : Prop where
  | kept (hissued : Issued v w.db w'.db)
      (hall : ∀ i, Pending c.workspaceId email (c.env.time w.ticks) w.db i → i.role = some role.text)
      (hfrom : (∃ v₀, Pending c.workspaceId email (c.env.time w.ticks) w.db v₀ ∧ v₀.id = v.id) ∨
        (∀ i, ¬ Pending c.workspaceId email (c.env.time w.ticks) w.db i) ∧
          ∀ i ∈ rows WorkspaceInvitationRow w.db, i.id < v.id)
  /-- An invitation at another role is withdrawn. -/
  | replaced (i : WorkspaceInvitationRow)
      (hi : Pending c.workspaceId email (c.env.time w.ticks) w.db i) (hrole : i.role ≠ some role.text)
      (hgone : ∀ x ∈ queue c w', x.1 ≠ i.id) (hid : v.id ≠ i.id)

theorem invite_ends (hauth : Resends c.auth c.env) (hexpiry : NoExpiry c.env w.db) :
    (c.call (.invite email role)).Ends c.env w
      (fun update w' => NoExpiry c.env w'.db ∧ ∃ d v, update = onInvited d ∧ (d.id, d.role) = entry v ∧
        live c.workspaceId (c.env.time w'.ticks) v = true ∧
        Written c w (c.rt.toLowerCase (trim email)) role v w')
      fun _ _ => True := by
  simp only [Session.call, Call.pure_eq, Call.ends_bind]
  refine (createInvitation_ends hauth.cancelInvitation
    fun w₁ => hauth.createInvitation w₁ _ _ _ _).mono (fun d w' h => ?_) fun _ _ _ => trivial
  obtain ⟨_, hrole, w₁, v, w₂, _, ⟨hticks, hlog, ids, hcanceled, hwhich⟩, hv, hid, _, hsame⟩ := h
  have hcleared : Cleared c.env c.workspaceId (c.rt.toLowerCase (trim email)) role w w₁ :=
    ⟨hticks, hlog, ids, hcanceled, hwhich⟩
  obtain ⟨hissued, hw, hemail, hstatus, hexpires, hfrom⟩ := hv
  have hexpiry₁ : NoExpiry c.env w₁.db := hexpiry.canceled hcanceled
  have hissued' : Issued v w₁.db w'.db := fun i => (hsame i).trans (hissued i)
  have hexpiry' : NoExpiry c.env w'.db := hexpiry₁.issued hissued' hexpires
  have hlive : ∀ n, live c.workspaceId (c.env.time n) v = true := fun n =>
    live_iff.mpr ⟨hw, hstatus, hexpires n⟩
  -- what the plugin refreshes is at the role
  have hvrole : v.role = some role.text := by
    rcases hfrom with ⟨v₀, hv₀, heq⟩ | ⟨_, hnew, _⟩
    · have hrole₀ : v.role = v₀.role := by rw [heq]
      rw [hrole₀]
      exact hcleared.pending (hexpiry₁.pending.mp hv₀)
    · exact hnew
  refine ⟨hexpiry', d, v, rfl, ?_, hlive _, ?_⟩
  · rw [entry, hvrole, hid, hrole]
    rfl
  · rcases hwhich with ⟨rfl, hall⟩ | ⟨⟨i, hi, hother⟩, hnone⟩
    · have hsame₁ := canceled_nil.mp hcanceled
      refine .kept (fun i => (hissued' i).trans (or_congr_right (and_congr_left fun _ => hsame₁ i))) hall ?_
      rcases hfrom with ⟨v₀, hv₀, heq⟩ | ⟨hno, _, hafter⟩
      · exact .inl ⟨v₀, (pending_congr hsame₁).mp (hexpiry₁.pending.mp hv₀),
          by rw [heq]⟩
      · refine .inr ⟨fun i hi => hno i ?_, fun i hi => hafter i ((hsame₁ i).mpr hi)⟩
        exact hexpiry₁.pending.mp ((pending_congr hsame₁).mpr hi)
    · -- it was withdrawn: no pending invitation is under its id
      have hgone : ∀ j ∈ rows WorkspaceInvitationRow w₁.db,
          live c.workspaceId (c.env.time w'.ticks) j = true → j.id ≠ i.id := by
        intro j hj hjlive heq
        obtain ⟨j₀, hj₀, hj'⟩ := (hcanceled j).mp hj
        have hj₀id : j₀.id = i.id := by
          rw [hj'] at heq
          split at heq <;> exact heq
        obtain rfl := eq_of_id hj₀ hi.1 hj₀id
        have hlive' : live c.workspaceId (c.env.time w.ticks) j = true := (hexpiry₁.live hj).mp hjlive
        have hjj : j = j₀ := by
          rw [hj']
          by_cases hmem : j₀.id ∈ ids
          · rw [hj', if_pos hmem] at hlive'
            have hstatus' : js "canceled" = js "pending" := (live_iff.mp hlive').2.1
            exact absurd hstatus' (by decide)
          · exact if_neg hmem
        exact hnone j ⟨hj, hlive', by rw [hjj]; exact hi.2.2⟩
      have hno : ∀ i, ¬ Pending c.workspaceId (c.rt.toLowerCase (trim email)) (c.env.time w₁.ticks)
          w₁.db i := fun i hi => hnone i (hexpiry₁.pending.mp hi)
      rcases hfrom with ⟨v₀, hv₀, _⟩ | ⟨_, _, hafter⟩
      · exact absurd hv₀ (hno v₀)
      · -- its row is still there, and the new one is behind it
        have hvid : v.id ≠ i.id := by
          have hrow := (hcanceled _).mpr ⟨i, hi.1, rfl⟩
          have hlt := hafter _ hrow
          split at hlt <;> exact (ne_of_lt hlt).symm
        refine .replaced i hi hother (fun x hx => ?_) hvid
        obtain ⟨j, hj, hjlive, rfl⟩ := mem_queue.mp hx
        rcases (hissued' j).mp hj with rfl | ⟨hj, _⟩
        · exact hvid
        · exact hgone j hj hjlive

theorem revoke_ends (hcancel : Cancels c.auth) {i : WorkspaceInvitationRow}
    (hi : i ∈ rows WorkspaceInvitationRow w.db)
    (hstatus : i.status = js "pending") :
    (c.call (.revoke i.id)).Ends c.env w
      (fun update w' => update = onRevoked i.id ∧ Canceled [i.id] w.db w'.db) fun _ _ => True := by
  simp only [Session.call, revokeInvitation, Call.pure_eq, Call.bind_assoc, Call.ends_bind,
    Call.ends_tryCatch]
  refine Call.ends_readOnly ((readOnly_query _).bind fun _ => readOnly_orThrow _ _) (fun i' w₁ _ hdb => ?_)
    fun _ _ _ => trivial
  rw [← hdb] at hi
  refine (hcancel c.env w₁ c.userId i hi hstatus).mono (fun _ w₂ h => ?_) fun _ _ _ => trivial
  refine ends_record (fun a w₃ _ _ _ _ _ hdb₃ => ⟨rfl, fun j => ?_⟩) fun _ _ _ => trivial
  have htable : (Row.activity a).key.table ≠ Model.table WorkspaceInvitationRow :=
    show Table.activity ≠ .workspaceInvitation by decide
  rw [hdb₃, ← hdb]
  exact (iff_of_eq (congrArg (j ∈ ·) (rows_put_of_ne htable))).trans (h.1 j)

theorem shown_onInvited (d : InvitationDto) :
    shown ⟨w, onInvited d s.invitations⟩ = (shown s).filter (fun x => x.1 ≠ d.id) ++ [(d.id, d.role)] := by
  simp [shown, onInvited, List.filter_map, Function.comp_def]

theorem shown_onRevoked : shown ⟨w, onRevoked invitationId s.invitations⟩ =
    (shown s).filter fun x => x.1 ≠ invitationId := by
  simp [shown, onRevoked, List.filter_map, Function.comp_def]

/-- What a call comes to, answered or not. -/
theorem next_cases (hs : next c a s = some s') : a.available s = true ∧
    ((∃ update, (c.call a).run c.env s.world = (.ok update, s'.world) ∧
      s'.invitations = update s.invitations) ∨
    (∃ e, (c.call a).run c.env s.world = (.error e, s'.world)) ∧ s'.invitations = s.invitations) := by
  unfold next at hs
  split at hs
  · rename_i havailable
    refine ⟨havailable, ?_⟩
    rcases hrun : (c.call a).run c.env s.world with ⟨res, w⟩
    rw [hrun] at hs
    cases res with
    | ok update =>
      cases hs
      exact .inl ⟨update, rfl, rfl⟩
    | error e =>
      cases hs
      exact .inr ⟨⟨e, rfl⟩, rfl⟩
  · cases hs

/-- What holds between two calls. -/
def Settled (c : Session) (s : Screen) : Prop := InSync c s ∧ NoExpiry c.env s.world.db

/-- The written invitation is behind all others. -/
theorem Written.last (h : Written c w (c.rt.toLowerCase (trim email)) role v w')
    (hend : AtEnd c w email role) : Issued v w.db w'.db ∧ ∀ x ∈ queue c w, x.1 ≤ v.id := by
  cases h with
  | kept hissued _ hfrom =>
    refine ⟨hissued, fun x hx => ?_⟩
    rcases hfrom with ⟨v₀, hv₀, hid⟩ | ⟨_, hafter⟩
    · rw [← hid]
      exact (hend v₀ hv₀).2 x hx
    · obtain ⟨i, hi, _, rfl⟩ := mem_queue.mp hx
      exact le_of_lt (hafter i hi)
  | replaced i hi hrole => exact absurd (hend i hi).1 hrole

/-- A revoked invitation is one of the queue. -/
theorem row_of_shown (h : Settled c s) (hany : (s.invitations.any fun item => item.id = invitationId) = true) :
    ∃ i ∈ rows WorkspaceInvitationRow s.world.db, i.status = js "pending" ∧ i.id = invitationId := by
  obtain ⟨d, hd, hid⟩ := List.any_eq_true.mp hany
  have hmem : (d.id, d.role) ∈ shown s := List.mem_map_of_mem hd
  rw [h.1] at hmem
  obtain ⟨i, hi, hlive, heq⟩ := mem_queue.mp hmem
  exact ⟨i, hi, (live_iff.mp hlive).2.1, (congrArg Prod.fst heq).trans (of_decide_eq_true hid)⟩

theorem Settled.next (hauth : Resends c.auth c.env) (h : Settled c s) (hok : Orderly c s a)
    (hs : next c a s = some s') : Settled c s' := by
  obtain ⟨hsync, hexpiry⟩ := h
  obtain ⟨hany, hcases⟩ := next_cases hs
  rcases hcases with ⟨update, hrun, hshown⟩ | ⟨⟨e, hrun⟩, hshown⟩
  · have hack : Acknowledged c s a := by rw [Acknowledged, hrun]; rfl
    obtain ⟨w', invitations⟩ := s'
    obtain rfl : invitations = update s.invitations := hshown
    cases a with
    | invite email role =>
      obtain ⟨hexpiry', d, v, rfl, hd, hlive, hwritten⟩ :=
        (invite_ends hauth hexpiry).of_ok hrun
      obtain ⟨hissued, hlast⟩ := hwritten.last (hok.2 hack)
      refine ⟨?_, hexpiry'⟩
      have hdid : d.id = v.id := congrArg Prod.fst hd
      rw [InSync, shown_onInvited, hsync, hd, hdid]
      exact queue_issued hexpiry hissued hlive hlast
    | revoke invitationId =>
      obtain ⟨i, hi, hstatus, rfl⟩ := row_of_shown ⟨hsync, hexpiry⟩ hany
      obtain ⟨rfl, hcanceled⟩ := (revoke_ends hauth.cancelInvitation hi hstatus).of_ok hrun
      refine ⟨?_, hexpiry.canceled hcanceled⟩
      rw [InSync, shown_onRevoked, hsync]
      exact queue_canceled hexpiry hcanceled
  · have hsame : SameInvitations s.world.db s'.world.db := by
      have hthrew : ¬ Acknowledged c s a := by
        rw [Acknowledged, hrun]
        exact Bool.false_ne_true
      have := hok.1 hthrew
      rwa [hrun] at this
    refine ⟨?_, hexpiry.same hsame⟩
    rw [InSync, shown, hshown]
    exact hsync.trans (queue_same hexpiry hsame)

/-- The address has no two pending invitations. -/
def OneEach (c : Session) (w : World kurul) (email : JsString) : Prop :=
  ∀ i j, Pending c.workspaceId (c.rt.toLowerCase (trim email)) (c.env.time w.ticks) w.db i →
    Pending c.workspaceId (c.rt.toLowerCase (trim email)) (c.env.time w.ticks) w.db j → i = j

/-- Only an invitation at the end leaves the queue in order. -/
theorem atEnd_of_inSync (hauth : Resends c.auth c.env) (h : Settled c s)
    (hs : next c (.invite email role) s = some s') (hack : Acknowledged c s (.invite email role))
    (hone : OneEach c s.world email) (hsync' : InSync c s') : AtEnd c s.world email role := by
  obtain ⟨hsync, hexpiry⟩ := h
  rcases (next_cases hs).2 with ⟨update, hrun, hshown⟩ | ⟨⟨e, hrun⟩, _⟩
  · obtain ⟨w', invitations⟩ := s'
    obtain rfl : invitations = update s.invitations := hshown
    obtain ⟨_, d, v, rfl, hd, hlive, hwritten⟩ :=
      (invite_ends hauth hexpiry).of_ok hrun
    have hdid : d.id = v.id := congrArg Prod.fst hd
    rw [InSync, shown_onInvited, hsync, hd, hdid] at hsync'
    intro i hi
    cases hwritten with
    | kept hissued hall hfrom =>
      refine ⟨hall i hi, fun x hx => ?_⟩
      rcases hfrom with ⟨v₀, hv₀, hid⟩ | ⟨hno, _⟩
      · rw [hone i v₀ hi hv₀, hid]
        by_cases hxv : x.1 = v.id
        · exact le_of_eq hxv
        · -- it stands before the last entry
          have hlt : ((queue c s.world).filter (fun x => x.1 ≠ v.id) ++ [entry v]).Pairwise
              fun x y => x.1 < y.1 := by
            rw [hsync']
            exact queue_lt
          have hmem : x ∈ (queue c s.world).filter fun x => x.1 ≠ v.id :=
            List.mem_filter.mpr ⟨hx, decide_eq_true hxv⟩
          exact le_of_lt ((List.pairwise_append.mp hlt).2.2 x hmem _ List.mem_cons_self)
      · exact absurd hi (hno i)
    | replaced i' hi' hrole hgone hid =>
      -- what was withdrawn is shown still
      have hold : entry i' ∈ queue c s.world := mem_queue.mpr ⟨i', hi'.1, hi'.2.1, rfl⟩
      have hmem : entry i' ∈ queue c w' := by
        rw [← hsync']
        exact List.mem_append_left _ (List.mem_filter.mpr ⟨hold, decide_eq_true hid.symm⟩)
      exact absurd rfl (hgone _ hmem)
  · rw [Acknowledged, hrun] at hack
    cases hack

/-- The queue shown is the server's along every run of orderly calls; and whatever call is answered in
such a run, of an address with one pending invitation at most, it stays so if and only if the address
has none at another role and none before the end of the queue. -/
theorem queue_in_sync (c : Session) (hauth : Resends c.auth c.env) {s₀ : Screen}
    (hsync : InSync c s₀) (hexpiry : NoExpiry c.env s₀.world.db) :
    (∀ s, Reach (next c) (Orderly c) s₀ s → InSync c s) ∧
      ∀ s email role s', Reach (next c) (Orderly c) s₀ s → next c (.invite email role) s = some s' →
        Acknowledged c s (.invite email role) → OneEach c s.world email →
        (InSync c s' ↔ AtEnd c s.world email role) := by
  have hsettled : ∀ s, Reach (next c) (Orderly c) s₀ s → Settled c s := fun s hrun =>
    hrun.inv ⟨hsync, hexpiry⟩ fun s a s' h hok hs => h.next hauth hok hs
  refine ⟨fun s hrun => (hsettled s hrun).1, fun s email role s' hrun hs hack hone => ⟨fun hsync' => ?_,
    fun hend => ?_⟩⟩
  · exact atEnd_of_inSync hauth (hsettled s hrun) hs hack hone hsync'
  · exact ((hsettled s hrun).next hauth ⟨fun hnot => absurd hack hnot, fun _ => hend⟩ hs).1

theorem plainInvitations_resends : Resends (plainInvitations false) calm where
  cancelInvitation := (plainInvitations_reissues false).cancelInvitation
  createInvitation w sessionUserId email role organizationId := by
    refine Call.ends_exec (w := { w with ticks := w.ticks + 1, ids := w.ids + 1 }) (fun e w' he hdb => ?_)
      fun _ _ _ => trivial
    dsimp only at he
    have hlong : ∀ n, calm.time n < (0 : Instant) + twoDays := fun _ =>
      (show (0 : Instant) < 0 + twoDays by decide)
    split at he
    · rename_i i hhead
      have hi := mem_pendingRows.mp (List.mem_of_head? hhead)
      obtain ⟨hw, hstatus, _⟩ := live_iff.mp hi.2.1
      rw [← Except.ok.inj he] at hdb ⊢
      refine ⟨_, rfl, ?_⟩
      rw [Resent, hdb]
      exact ⟨fun i' => mem_rows_put (R := WorkspaceInvitationRow), hw, hi.2.2, hstatus, hlong,
        .inl ⟨i, hi, rfl⟩⟩
    · rename_i hhead
      split at he
      · rename_i hafter
        rw [← Except.ok.inj he] at hdb ⊢
        refine ⟨_, rfl, ?_⟩
        rw [Resent, hdb]
        refine ⟨fun i' => mem_rows_put (R := WorkspaceInvitationRow), rfl, rfl, rfl, hlong,
          .inr ⟨fun i hi => ?_, rfl, hafter⟩⟩
        have hmem := mem_pendingRows.mpr hi
        rw [List.head?_eq_none_iff.mp hhead] at hmem
        cases hmem
      · cases he

/-- Ada, at the members screen. -/
def ada : Session :=
  ⟨.bare, plainInvitations false, calm, js "https://kurul.example", js "w", js "ada"⟩

/-- With the one invitation there is. -/
def oneShown : Screen where
  world := .start oneInvited
  invitations := listPendingInvitations (js "https://kurul.example") (js "w") 0 oneInvited

instance : Decidable (InSync c s) := inferInstanceAs (Decidable (shown s = queue c s.world))

theorem oneShown_settled : InSync ada oneShown ∧ NoExpiry ada.env oneShown.world.db := by
  refine ⟨by decide +kernel, fun i hi _ => .inl fun n => ?_⟩
  have hall : ∀ i ∈ rows WorkspaceInvitationRow oneInvited, (0 : Instant) < i.expiresAt := by
    decide +kernel
  exact hall i hi

/-- A test of `Orderly`, for calls that are answered. -/
def orderly (c : Session) (s : Screen) (a : Act) : Bool :=
  ((c.call a).run c.env s.world).1.isOk && match a with
    | .invite email role =>
      (pendingRows c.workspaceId (c.rt.toLowerCase (trim email)) (c.env.time s.world.ticks)
        s.world.db).all fun i =>
          decide (i.role = some role.text) && (queue c s.world).all fun x => decide (x.1 ≤ i.id)
    | .revoke _ => true

theorem orderly_ok (h : orderly c s a = true) : Orderly c s a := by
  obtain ⟨hack, htest⟩ := Bool.and_eq_true_iff.mp h
  refine ⟨fun hnot => absurd hack hnot, fun _ => ?_⟩
  cases a with
  | revoke invitationId => trivial
  | invite email role =>
    intro i hi
    obtain ⟨hrole, hlast⟩ := Bool.and_eq_true_iff.mp
      (List.all_eq_true.mp htest i (mem_pendingRows.mpr hi))
    exact ⟨of_decide_eq_true hrole, fun x hx => of_decide_eq_true (List.all_eq_true.mp hlast x hx)⟩

/-- Somebody else is invited, and the first is revoked. -/
theorem invited_and_revoked : ∃ s, Reach (next ada) (Orderly ada) oneShown s ∧
    s.invitations.map InvitationDto.email = [js "cy@example.org"] ∧ InSync ada s := by
  let acts : List Act := [.invite (js " cy@example.org ") .member, .revoke (js "i")]
  have hrun : Reach (next ada) (Orderly ada) oneShown (after (next ada) (orderly ada) acts oneShown) :=
    reach_after (fun _ _ => orderly_ok) (by decide +kernel)
  exact ⟨_, hrun, by decide +kernel, (queue_in_sync ada plainInvitations_resends oneShown_settled.1
    oneShown_settled.2).1 _ hrun⟩

/-- Bo is invited as a member, and now as an admin: both are shown. -/
theorem both_shown : ¬ ∀ (c : Session) (s₀ s : Screen), Resends c.auth c.env → InSync c s₀ →
    NoExpiry c.env s₀.world.db → Reach (next c) (fun _ _ => True) s₀ s → InSync c s := by
  intro h
  let acts : List Act := [.invite (js "bo@example.org") .admin]
  have hrun : Reach (next ada) (fun _ _ => True) oneShown (after (next ada) (fun _ _ => true) acts oneShown) :=
    reach_after (fun _ _ _ => trivial) (by decide +kernel)
  have hsync := h ada oneShown _ plainInvitations_resends oneShown_settled.1 oneShown_settled.2 hrun
  have hlengths : (shown (after (next ada) (fun _ _ => true) acts oneShown)).length = 2 ∧
      (queue ada (after (next ada) (fun _ _ => true) acts oneShown).world).length = 1 := by
    decide +kernel
  rw [InSync] at hsync
  rw [hsync] at hlengths
  omega

end Calls

end MembersSettings
end Kurul
