import Mathlib.Logic.Function.Basic
import Kurul.Lts
import Kurul.Realtime.RoomState

/-!
# Kurul.Realtime.Eviction

A member is removed and then evicted from the workspace's rooms, while any number of sockets connect,
join and leave. A join handler reads the membership first, enters the room later, and writes the room
down later still; the eviction takes a socket out of the rooms it finds written down.

* `Admitted`       — a handler that was let in before the removal and can still put its socket in.
* `GatewayInv`     — the invariant.
* `eviction_final` — where no such handler is under way when the eviction comes by, no socket of the
  user stays in a room of the workspace.
-/

namespace Kurul

open Lts

inductive JoinStage where
  | reading
  /-- The read has answered, with the workspace of the room. -/
  | entering (workspaceId : Id)
  | recording (workspaceId : Id)
  deriving DecidableEq

/-- `onBoardJoin` or `onNotificationsJoin` under way. -/
structure JoinHandler where
  socket : Nat
  userId : Id
  target : JoinTarget
  stage : JoinStage
  deriving DecidableEq

/-- The removal of one member: the row goes, then `evictUserFromWorkspace` fetches the sockets and
walks over them without a pause. -/
inductive Removal where
  | member
  | removed
  | fetched (sockets : Nat → Bool)
  | evicted

structure Gateway where
  /-- The connected sockets. An id is used once. -/
  sockets : Nat → Option SocketState
  nextSocket : Nat
  handlers : List JoinHandler
  /-- The boards that exist. -/
  boards : Id → Bool
  /-- Who is in which workspace. -/
  members : Id → Id → Bool
  removal : Removal

inductive GatewayAct where
  | connect
  /-- The session lookup of `handleConnection` has answered. -/
  | authenticate (socket : Nat) (userId : Id)
  | disconnect (socket : Nat)
  | onJoin (socket : Nat) (target : JoinTarget)
  | read (handler : Nat)
  | enter (handler : Nat)
  | record (handler : Nat)
  | onLeave (socket : Nat) (target : JoinTarget)
  | setBoard (boardId : Id) (present : Bool)
  | setMember (workspaceId userId : Id) (present : Bool)
  | remove
  | fetchSockets
  | walk

section Model

-- the workspace each board is in; the member who is removed, and from where
variable (workspaceOf : Id → Id) (workspaceId userId : Id)

def JoinTarget.workspace : JoinTarget → Id
  | .board boardId => workspaceOf boardId
  | .notifications workspaceId => workspaceId

namespace Gateway

/-- The membership read of a join: the workspace of the room, if the user is let in. -/
def admits (g : Gateway) (h : JoinHandler) : Option Id :=
  let w := h.target.workspace workspaceOf
  match h.target with
  | .board boardId => if g.boards boardId && g.members w h.userId then some w else none
  | .notifications _ => if g.members w h.userId then some w else none

def update (g : Gateway) (socket : Nat) (f : SocketState → SocketState) : Gateway :=
  { g with sockets := Function.update g.sockets socket ((g.sockets socket).map f) }

def next : GatewayAct → Gateway → Option Gateway
  | .connect, g => some { g with
      sockets := Function.update g.sockets g.nextSocket (some .fresh)
      nextSocket := g.nextSocket + 1 }
  | .authenticate socket user, g =>
    match g.sockets socket with
    | none => none
    | some s => if s.userId = none then some (g.update socket fun s => { s with userId := some user }) else none
  | .disconnect socket, g => some { g with sockets := Function.update g.sockets socket none }
  | .onJoin socket target, g =>
    match g.sockets socket with
    | none => none
    | some s =>
      match s.userId with
      | none => some g
      | some user =>
        if target.isEmpty then some g
        else some { g with handlers := g.handlers ++ [⟨socket, user, target, .reading⟩] }
  | .read i, g =>
    match g.handlers[i]? with
    | some h =>
      match h.stage, g.admits workspaceOf h with
      | .reading, none => some { g with handlers := g.handlers.eraseIdx i }
      | .reading, some w => some { g with handlers := g.handlers.set i { h with stage := .entering w } }
      | _, _ => none
    | none => none
  | .enter i, g =>
    match g.handlers[i]? with
    | some h =>
      match h.stage with
      | .entering w => some { g.update h.socket (.join (h.target.room h.userId)) with
          handlers := g.handlers.set i { h with stage := .recording w } }
      | _ => none
    | none => none
  | .record i, g =>
    match g.handlers[i]? with
    | some h =>
      match h.stage with
      | .recording w => some { g.update h.socket (.record h.target w) with
          handlers := g.handlers.eraseIdx i }
      | _ => none
    | none => none
  | .onLeave socket target, g => some (g.update socket (.onLeave target))
  | .setBoard boardId present, g => some { g with boards := Function.update g.boards boardId present }
  | .setMember w u present, g =>
    -- the membership in question changes by the removal alone
    if w = workspaceId ∧ u = userId then none
    else some { g with
      members := fun w' u' => if w' = w ∧ u' = u then present else g.members w' u' }
  | .remove, g =>
    match g.removal with
    | .member => some { g with
        members := fun w u => if w = workspaceId ∧ u = userId then false else g.members w u
        removal := .removed }
    | _ => none
  | .fetchSockets, g =>
    match g.removal with
    | .removed => some { g with removal := .fetched fun i => (g.sockets i).isSome }
    | _ => none
  | .walk, g =>
    match g.removal with
    | .fetched sockets => some { g with
        sockets := fun i =>
          if sockets i then (g.sockets i).map (.evict workspaceId userId) else g.sockets i
        removal := .evicted }
    | _ => none

/-- Before any connection. -/
def start (boards : Id → Bool) (members : Id → Id → Bool) : Gateway :=
  ⟨fun _ => none, 0, [], boards, members, .member⟩

end Gateway

/-- A room of the workspace: the user's own, or that of one of its boards. -/
def Room.OfWorkspace : Room → Prop
  | .board boardId => workspaceOf boardId = workspaceId
  | .user w u => w = workspaceId ∧ u = userId

instance (r : Room) : Decidable (r.OfWorkspace workspaceOf workspaceId userId) := by
  cases r <;> unfold Room.OfWorkspace <;> infer_instance

/-- The handler was let into the workspace, and the eviction cannot undo what it is about to do: it has
yet to enter the room, or to write down the board it entered. -/
def JoinHandler.Admitted (h : JoinHandler) : Prop :=
  h.userId = userId ∧
    match h.stage, h.target with
    | .entering w, _ => w = workspaceId
    | .recording w, .board _ => w = workspaceId
    | _, _ => False

instance (h : JoinHandler) : Decidable (h.Admitted workspaceId userId) := by
  unfold JoinHandler.Admitted
  split <;> infer_instance

/-- The condition on the walk: no handler that was let in before is still under way. -/
def NoneAdmitted (g : Gateway) : GatewayAct → Prop
  | .walk => ∀ h ∈ g.handlers, h.Admitted workspaceId userId → g.sockets h.socket = none
  | _ => True

instance (g : Gateway) (a : GatewayAct) : Decidable (NoneAdmitted workspaceId userId g a) := by
  cases a <;> unfold NoneAdmitted <;> infer_instance

/-! ## The invariant -/

/-- The sockets an eviction under way will not see any more. -/
def Removal.swept : Removal → Nat → Bool
  | .fetched sockets, i => !sockets i
  | .evicted, _ => true
  | _, _ => false

/-- What holds of one socket. -/
structure SocketInv (handlers : List JoinHandler) (swept : Bool) (i : Nat) (s : SocketState) :
    Prop where
  user : ∀ h ∈ handlers, h.socket = i → s.userId = some h.userId
  /-- Nobody is in a room before the session lookup. -/
  authenticated : s.userId = none → s.rooms = []
  /-- A board room held is written down, or about to be. -/
  recorded : ∀ b, .board b ∈ s.rooms → s.boardWorkspaces.get b = some (workspaceOf b) ∨
    ∃ h ∈ handlers, h.socket = i ∧ h.target = .board b ∧ h.stage = .recording (workspaceOf b)
  clean : swept = true → s.userId = some userId →
    ∀ r ∈ s.rooms, ¬ r.OfWorkspace workspaceOf workspaceId userId
  denied : swept = true → ∀ h ∈ handlers, h.socket = i → ¬ h.Admitted workspaceId userId

structure GatewayInv (g : Gateway) : Prop where
  issued : ∀ i s, g.sockets i = some s → i < g.nextSocket
  socket_lt : ∀ h ∈ g.handlers, h.socket < g.nextSocket
  workspace : ∀ h ∈ g.handlers, ∀ w, h.stage = .entering w ∨ h.stage = .recording w →
    w = h.target.workspace workspaceOf
  removed : g.removal ≠ .member → g.members workspaceId userId = false
  sockets : ∀ i s, g.sockets i = some s →
    SocketInv workspaceOf workspaceId userId g.handlers (g.removal.swept i) i s

variable {workspaceOf workspaceId userId} {g g' : Gateway} {handlers handlers' : List JoinHandler}
  {swept : Bool} {i j : Nat} {s : SocketState} {h h' : JoinHandler}

theorem start_inv (boards : Id → Bool) (members : Id → Id → Bool) :
    GatewayInv workspaceOf workspaceId userId (.start boards members) where
  issued := by simp [Gateway.start]
  socket_lt := by simp [Gateway.start]
  workspace := by simp [Gateway.start]
  removed := by simp [Gateway.start]
  sockets := by simp [Gateway.start]

namespace SocketInv

/-- The other handlers go on: those in `handlers'` were there, apart from one that has moved on
without being admitted, and none that was writing a room down is lost. -/
theorem onHandlers (hs : SocketInv workspaceOf workspaceId userId handlers swept i s)
    (hnew : ∀ h ∈ handlers', h ∈ handlers ∨
      (h.socket = i → s.userId = some h.userId ∧ (swept = true → ¬ h.Admitted workspaceId userId)))
    (hold : ∀ h ∈ handlers, ∀ w, h.stage = .recording w → h ∈ handlers') :
    SocketInv workspaceOf workspaceId userId handlers' swept i s where
  user h hh hi := (hnew h hh).elim (hs.user h · hi) fun hh => (hh hi).1
  authenticated := hs.authenticated
  recorded b hb := (hs.recorded b hb).imp_right fun ⟨h, hh, hi, ht, hst⟩ =>
    ⟨h, hold h hh _ hst, hi, ht, hst⟩
  clean := hs.clean
  denied hsw h hh hi := (hnew h hh).elim (hs.denied hsw h · hi) fun hh => (hh hi).2 hsw

theorem unswept (hs : SocketInv workspaceOf workspaceId userId handlers swept i s) :
    SocketInv workspaceOf workspaceId userId handlers false i s where
  user := hs.user
  authenticated := hs.authenticated
  recorded := hs.recorded
  clean h := by cases h
  denied h := by cases h

/-- Evicted while no handler that was let in is under way: every room of the workspace is left. -/
theorem evict (hs : SocketInv workspaceOf workspaceId userId handlers swept i s)
    (hdenied : ∀ h ∈ handlers, h.socket = i → ¬ h.Admitted workspaceId userId) :
    SocketInv workspaceOf workspaceId userId handlers true i (s.evict workspaceId userId) where
  user h hh hi := by rw [SocketState.userId_evict]; exact hs.user h hh hi
  authenticated hnone := by
    rw [SocketState.userId_evict] at hnone
    refine List.eq_nil_iff_forall_not_mem.mpr fun r hr => ?_
    have := SocketState.mem_of_mem_evict hr
    rw [hs.authenticated hnone] at this
    cases this
  recorded b hb := by
    refine (hs.recorded b (SocketState.mem_of_mem_evict hb)).imp_left fun hget => ?_
    unfold SocketState.evict at hb ⊢
    split at hb
    · rename_i h; rw [if_pos h]; exact hget
    · rename_i h
      rw [if_neg h]
      have := (List.mem_filter.mp hb).2
      simp_all
  clean _ hu r hr hof := by
    rw [SocketState.userId_evict] at hu
    have hmem := SocketState.mem_of_mem_evict hr
    simp only [SocketState.evict, hu, ne_eq, not_true_eq_false, if_false] at hr
    have hkept := (List.mem_filter.mp hr).2
    cases r with
    | user w u => simp_all [Room.OfWorkspace]
    | board b =>
      have hof : workspaceOf b = workspaceId := hof
      rcases hs.recorded b hmem with hget | ⟨h, hh, hi, ht, hst⟩
      · simp [hget, hof] at hkept
      · refine hdenied h hh hi ⟨?_, ?_⟩
        · have := hs.user h hh hi
          rw [hu] at this
          exact (Option.some.inj this).symm
        · simp [hst, ht, hof]
  denied _ := hdenied

end SocketInv

theorem update_sockets {f : SocketState → SocketState} {s' : SocketState}
    (h : (g.update j f).sockets i = some s') :
    (i = j ∧ ∃ s, g.sockets j = some s ∧ s' = f s) ∨ (i ≠ j ∧ g.sockets i = some s') := by
  simp only [Gateway.update, Function.update_apply] at h
  split at h
  · rename_i hij
    obtain ⟨s, hs, rfl⟩ := Option.map_eq_some_iff.mp h
    exact .inl ⟨hij, s, hs, rfl⟩
  · rename_i hij
    exact .inr ⟨hij, h⟩

theorem update_issued (hg : GatewayInv workspaceOf workspaceId userId g)
    {f : SocketState → SocketState} (i : Nat) (s : SocketState)
    (h : (g.update j f).sockets i = some s) : i < g.nextSocket := by
  rcases update_sockets h with ⟨rfl, s, hs, rfl⟩ | ⟨_, hs⟩
  · exact hg.issued i s hs
  · exact hg.issued i s hs

variable (hg : GatewayInv workspaceOf workspaceId userId g)

include hg

theorem connect_inv (hs : Gateway.next workspaceOf workspaceId userId .connect g = some g') :
    GatewayInv workspaceOf workspaceId userId g' := by
  cases hs
  refine ⟨fun i s hi => ?_, fun h hh => (hg.socket_lt h hh).trans (Nat.lt_succ_self _), hg.workspace,
    hg.removed, fun i s hi => ?_⟩
  all_goals
    simp only [Function.update_apply] at hi
    split at hi
  · rename_i heq
    exact heq ▸ Nat.lt_succ_self _
  · exact (hg.issued i s hi).trans (Nat.lt_succ_self _)
  · rename_i heq
    cases hi
    -- the id is new: no handler is on it
    have hnone : ∀ h ∈ g.handlers, h.socket ≠ i := fun h hh => heq ▸ (hg.socket_lt h hh).ne
    refine ⟨fun h hh hi => absurd hi (hnone h hh), fun _ => rfl, fun b hb => ?_, fun _ hu => ?_,
      fun _ h hh hi => absurd hi (hnone h hh)⟩
    · cases hb
    · cases hu
  · exact hg.sockets i s hi

theorem authenticate_inv {user : Id}
    (hs : Gateway.next workspaceOf workspaceId userId (.authenticate j user) g = some g') :
    GatewayInv workspaceOf workspaceId userId g' := by
  simp only [Gateway.next] at hs
  split at hs
  · cases hs
  · rename_i s₀ hs₀
    split at hs
    · rename_i hnone
      cases hs
      refine ⟨update_issued hg, hg.socket_lt, hg.workspace, hg.removed, fun i s hi => ?_⟩
      rcases update_sockets hi with ⟨rfl, s₁, hs₁, rfl⟩ | ⟨_, hi⟩
      · -- until now the socket was in no room and had no handler
        rw [hs₀] at hs₁
        cases hs₁
        have hinv := hg.sockets i s₀ hs₀
        have hrooms := hinv.authenticated hnone
        have hhandler : ∀ h ∈ g.handlers, h.socket ≠ i := by
          intro h hh hi
          have := hinv.user h hh hi
          rw [hnone] at this
          cases this
        refine ⟨fun h hh hi => absurd hi (hhandler h hh), fun h => ?_, fun b hb => ?_, fun _ _ r hr => ?_,
          fun _ h hh hi => absurd hi (hhandler h hh)⟩
        · cases h
        · rw [show SocketState.rooms _ = s₀.rooms from rfl, hrooms] at hb
          cases hb
        · rw [show SocketState.rooms _ = s₀.rooms from rfl, hrooms] at hr
          cases hr
      · exact hg.sockets i s hi
    · cases hs

theorem disconnect_inv (hs : Gateway.next workspaceOf workspaceId userId (.disconnect j) g = some g') :
    GatewayInv workspaceOf workspaceId userId g' := by
  cases hs
  refine ⟨fun i s hi => ?_, hg.socket_lt, hg.workspace, hg.removed, fun i s hi => ?_⟩
  all_goals
    simp only [Function.update_apply] at hi
    split at hi
  · cases hi
  · exact hg.issued i s hi
  · cases hi
  · exact hg.sockets i s hi

theorem onJoin_inv {target : JoinTarget}
    (hs : Gateway.next workspaceOf workspaceId userId (.onJoin j target) g = some g') :
    GatewayInv workspaceOf workspaceId userId g' := by
  simp only [Gateway.next] at hs
  split at hs
  · cases hs
  · rename_i s₀ hs₀
    split at hs
    · cases hs; exact hg
    · rename_i user huser
      split at hs
      · cases hs; exact hg
      · cases hs
        have hmem : ∀ h ∈ g.handlers ++ [⟨j, user, target, .reading⟩],
            h ∈ g.handlers ∨ h = ⟨j, user, target, .reading⟩ := by simp
        refine ⟨hg.issued, fun h hh => ?_, fun h hh w hw => ?_, hg.removed, fun i s hi => ?_⟩
        · rcases hmem h hh with hh | rfl
          · exact hg.socket_lt h hh
          · exact hg.issued j s₀ hs₀
        · rcases hmem h hh with hh | rfl
          · exact hg.workspace h hh w hw
          · simp at hw
        · refine (hg.sockets i s hi).onHandlers (fun h hh => ?_)
            fun h hh w _ => List.mem_append_left _ hh
          rcases hmem h hh with hh | rfl
          · exact .inl hh
          · refine .inr fun hij => ⟨?_, fun _ => by simp [JoinHandler.Admitted]⟩
            cases hij
            rw [hs₀] at hi
            cases hi
            exact huser

theorem read_inv {k : Nat} (hs : Gateway.next workspaceOf workspaceId userId (.read k) g = some g') :
    GatewayInv workspaceOf workspaceId userId g' := by
  simp only [Gateway.next] at hs
  split at hs
  · rename_i h₀ hk
    have hh₀ := List.mem_of_getElem? hk
    split at hs
    · -- denied
      rename_i hst _
      cases hs
      have hsub : ∀ h ∈ g.handlers.eraseIdx k, h ∈ g.handlers := fun h hh => List.mem_of_mem_eraseIdx hh
      refine ⟨hg.issued, fun h hh => hg.socket_lt h (hsub h hh),
        fun h hh => hg.workspace h (hsub h hh), hg.removed, fun i s hi =>
          (hg.sockets i s hi).onHandlers (fun h hh => .inl (hsub h hh)) fun h hh w hw => ?_⟩
      exact (mem_or_mem_eraseIdx hk hh).resolve_left (by rintro rfl; rw [hst] at hw; cases hw)
    · rename_i w hst hadmits
      cases hs
      have hmem : ∀ h ∈ g.handlers.set k { h₀ with stage := .entering w },
          h ∈ g.handlers ∨ h = { h₀ with stage := .entering w } := fun h hh => List.mem_or_eq_of_mem_set hh
      have hw : w = h₀.target.workspace workspaceOf ∧ g.members w h₀.userId = true := by
        simp only [Gateway.admits] at hadmits
        split at hadmits
        · simp only [Option.ite_none_right_eq_some, Bool.and_eq_true, Option.some.injEq] at hadmits
          exact ⟨hadmits.2.symm, hadmits.2 ▸ hadmits.1.2⟩
        · simp only [Option.ite_none_right_eq_some, Option.some.injEq] at hadmits
          exact ⟨hadmits.2.symm, hadmits.2 ▸ hadmits.1⟩
      refine ⟨hg.issued, fun h hh => ?_, fun h hh w' hw' => ?_, hg.removed, fun i s hi => ?_⟩
      · rcases hmem h hh with hh | rfl
        · exact hg.socket_lt h hh
        · exact hg.socket_lt h₀ hh₀
      · rcases hmem h hh with hh | rfl
        · exact hg.workspace h hh w' hw'
        · simp only [JoinStage.entering.injEq, reduceCtorEq, or_false] at hw'
          exact hw' ▸ hw.1
      · refine (hg.sockets i s hi).onHandlers (fun h hh => ?_) fun h hh w' hw' => ?_
        · rcases hmem h hh with hh | rfl
          · exact .inl hh
          · refine .inr fun hij => ⟨(hg.sockets i s hi).user h₀ hh₀ hij, fun hsw hadm => ?_⟩
            -- the membership has gone before anything was swept
            have hgone : g.members workspaceId userId = false := by
              refine hg.removed fun heq => ?_
              rw [heq] at hsw
              cases hsw
            obtain ⟨hu, hst⟩ := hadm
            simp only at hst hu
            rw [← hst, ← hu, hw.2] at hgone
            cases hgone
        · exact (mem_or_mem_set hk hh).resolve_left (by rintro rfl; rw [hst] at hw'; cases hw')
    · cases hs
  · cases hs

theorem enter_inv {k : Nat} (hs : Gateway.next workspaceOf workspaceId userId (.enter k) g = some g') :
    GatewayInv workspaceOf workspaceId userId g' := by
  simp only [Gateway.next] at hs
  split at hs
  · rename_i h₀ hk
    have hh₀ := List.mem_of_getElem? hk
    split at hs
    · rename_i w hst
      cases hs
      have hw := hg.workspace h₀ hh₀ w (.inl hst)
      have hmem : ∀ h ∈ g.handlers.set k { h₀ with stage := .recording w },
          h ∈ g.handlers ∨ h = { h₀ with stage := .recording w } := fun h hh => List.mem_or_eq_of_mem_set hh
      have hself : { h₀ with stage := .recording w } ∈ g.handlers.set k { h₀ with stage := .recording w } :=
        List.mem_set (List.getElem?_eq_some_iff.mp hk).1 _
      have hlater : ∀ i s, g.sockets i = some s → SocketInv workspaceOf workspaceId userId
          (g.handlers.set k { h₀ with stage := .recording w }) (g.removal.swept i) i s := by
        intro i s hi
        refine (hg.sockets i s hi).onHandlers (fun h hh => ?_) fun h hh w' hw' => ?_
        · rcases hmem h hh with hh | rfl
          · exact .inl hh
          · refine .inr fun hij => ⟨(hg.sockets i s hi).user h₀ hh₀ hij, fun hsw hadm => ?_⟩
            refine (hg.sockets i s hi).denied hsw h₀ hh₀ hij ⟨hadm.1, ?_⟩
            have hst' := hadm.2
            rw [hst]
            cases ht : h₀.target <;> simp_all
        · exact (mem_or_mem_set hk hh).resolve_left (by rintro rfl; rw [hst] at hw'; cases hw')
      refine ⟨update_issued hg, fun h hh => ?_, fun h hh w' hw' => ?_, hg.removed, fun i s hi => ?_⟩
      · rcases hmem h hh with hh | rfl
        · exact hg.socket_lt h hh
        · exact hg.socket_lt h₀ hh₀
      · rcases hmem h hh with hh | rfl
        · exact hg.workspace h hh w' hw'
        · simp only [JoinStage.recording.injEq, reduceCtorEq, false_or] at hw'
          exact hw' ▸ hw
      · rcases update_sockets hi with ⟨rfl, s, hs, rfl⟩ | ⟨_, hi⟩
        · have hinv := hlater _ s hs
          refine ⟨hinv.user, fun hnone => ?_, fun b hb => ?_, fun hsw hu r hr => ?_, hinv.denied⟩
          · have := (hg.sockets _ s hs).user h₀ hh₀ rfl
            rw [SocketState.userId_join, this] at hnone
            cases hnone
          · rcases SocketState.mem_join.mp hb with hb | hb
            · refine .inr ⟨_, hself, rfl, ?_, ?_⟩
              · cases ht : h₀.target <;> simp_all [JoinTarget.room]
              · cases ht : h₀.target <;> simp_all [JoinTarget.room, JoinTarget.workspace]
            · exact hinv.recorded b hb
          · rcases SocketState.mem_join.mp hr with rfl | hr
            · -- the handler was let in, but not into this workspace
              intro hof
              refine (hg.sockets _ s hs).denied hsw h₀ hh₀ rfl ⟨?_, ?_⟩
              · have := (hg.sockets _ s hs).user h₀ hh₀ rfl
                rw [SocketState.userId_join, this] at hu
                exact Option.some.inj hu
              · rw [hst]
                cases ht : h₀.target <;> simp_all [JoinTarget.room, JoinTarget.workspace, Room.OfWorkspace]
            · exact hinv.clean hsw hu r hr
        · exact hlater i s hi
    · cases hs
  · cases hs

theorem record_inv {k : Nat} (hs : Gateway.next workspaceOf workspaceId userId (.record k) g = some g') :
    GatewayInv workspaceOf workspaceId userId g' := by
  simp only [Gateway.next] at hs
  split at hs
  · rename_i h₀ hk
    have hh₀ := List.mem_of_getElem? hk
    split at hs
    · rename_i w hst
      cases hs
      have hw := hg.workspace h₀ hh₀ w (.inr hst)
      have hsub : ∀ h ∈ g.handlers.eraseIdx k, h ∈ g.handlers := fun h hh => List.mem_of_mem_eraseIdx hh
      refine ⟨update_issued hg, fun h hh => hg.socket_lt h (hsub h hh),
        fun h hh => hg.workspace h (hsub h hh), hg.removed, fun i s hi => ?_⟩
      have hinv : ∀ s, g.sockets i = some s → ∀ s', s'.rooms = s.rooms → s'.userId = s.userId →
          (∀ b, .board b ∈ s'.rooms → s'.boardWorkspaces.get b = some (workspaceOf b) ∨
            (s'.boardWorkspaces.get b = s.boardWorkspaces.get b ∧
              ¬ (h₀.socket = i ∧ h₀.target = .board b))) →
          SocketInv workspaceOf workspaceId userId (g.handlers.eraseIdx k) (g.removal.swept i) i s' := by
        intro s hs s' hrooms huser hrec
        have old := hg.sockets i s hs
        refine ⟨fun h hh hi => huser ▸ old.user h (hsub h hh) hi, fun h => ?_, fun b hb => ?_,
          fun hsw hu => ?_, fun hsw h hh => old.denied hsw h (hsub h hh)⟩
        · rw [hrooms]
          exact old.authenticated (huser ▸ h)
        · rcases hrec b hb with h | ⟨hget, hne⟩
          · exact .inl h
          · rw [hget]
            refine (old.recorded b (hrooms ▸ hb)).imp_right ?_
            rintro ⟨h, hh, hsock, ht, hst'⟩
            refine ⟨h, (mem_or_mem_eraseIdx hk hh).resolve_left ?_, hsock, ht, hst'⟩
            rintro rfl
            exact hne ⟨hsock, ht⟩
        · rw [hrooms]
          exact old.clean hsw (huser ▸ hu)
      rcases update_sockets hi with ⟨rfl, s, hs, rfl⟩ | ⟨hne, hi⟩
      · refine hinv s hs _ (by simp) (by simp) fun b hb => ?_
        cases ht : h₀.target with
        | board b' =>
          by_cases hb' : b = b'
          · subst hb'
            refine .inl ?_
            simp [SocketState.record, hw, ht, JoinTarget.workspace]
          · refine .inr ⟨by simp [SocketState.record, hb'], ?_⟩
            rintro ⟨_, hb''⟩
            exact hb' (JoinTarget.board.inj hb'').symm
        | notifications w' =>
          refine .inr ⟨?_, by simp⟩
          simp only [SocketState.record]
          split <;> rfl
      · exact hinv s hi s rfl rfl fun b hb => .inr ⟨rfl, fun h => hne h.1.symm⟩
    · cases hs
  · cases hs

theorem onLeave_inv {target : JoinTarget}
    (hs : Gateway.next workspaceOf workspaceId userId (.onLeave j target) g = some g') :
    GatewayInv workspaceOf workspaceId userId g' := by
  cases hs
  refine ⟨update_issued hg, hg.socket_lt, hg.workspace, hg.removed, fun i s hi => ?_⟩
  rcases update_sockets hi with ⟨rfl, s, hs, rfl⟩ | ⟨_, hi⟩
  · have old := hg.sockets i s hs
    refine ⟨fun h hh hi => ?_, fun hnone => ?_, fun b hb => ?_, fun hsw hu r hr => ?_, old.denied⟩
    · rw [SocketState.userId_onLeave]
      exact old.user h hh hi
    · rw [SocketState.userId_onLeave] at hnone
      have hrooms := old.authenticated hnone
      refine List.eq_nil_iff_forall_not_mem.mpr fun r hr => ?_
      have := SocketState.mem_of_mem_onLeave hr
      rw [hrooms] at this
      cases this
    · -- leaving one board forgets that board
      refine (old.recorded b (SocketState.mem_of_mem_onLeave hb)).imp_left fun hget => ?_
      cases target with
      | board b' =>
        simp only [SocketState.onLeave] at hb ⊢
        split at hb
        · rename_i h; rw [if_pos h]; exact hget
        · rename_i h
          rw [if_neg h]
          have hne : b ≠ b' := by
            rintro rfl
            exact (SocketState.mem_leave.mp hb).2 rfl
          simp [hne, hget]
      | notifications w =>
        simp only [SocketState.onLeave]
        split
        · exact hget
        · split <;> exact hget
    · rw [SocketState.userId_onLeave] at hu
      exact old.clean hsw hu r (SocketState.mem_of_mem_onLeave hr)
  · exact hg.sockets i s hi

theorem members_inv {w u : Id} {present : Bool}
    (hs : Gateway.next workspaceOf workspaceId userId (.setMember w u present) g = some g') :
    GatewayInv workspaceOf workspaceId userId g' := by
  simp only [Gateway.next] at hs
  split at hs
  · cases hs
  · rename_i hne
    cases hs
    refine ⟨hg.issued, hg.socket_lt, hg.workspace, fun h => ?_, hg.sockets⟩
    show (if workspaceId = w ∧ userId = u then present else g.members workspaceId userId) = false
    rw [if_neg fun h => hne ⟨h.1.symm, h.2.symm⟩]
    exact hg.removed h

theorem removal_inv {a : GatewayAct} (ha : a = .remove ∨ a = .fetchSockets ∨ a = .walk)
    (hok : NoneAdmitted workspaceId userId g a)
    (hs : Gateway.next workspaceOf workspaceId userId a g = some g') :
    GatewayInv workspaceOf workspaceId userId g' := by
  rcases ha with rfl | rfl | rfl
  · simp only [Gateway.next] at hs
    split at hs
    · rename_i hrem
      cases hs
      refine ⟨hg.issued, hg.socket_lt, hg.workspace, fun _ => by simp, fun i s hi => ?_⟩
      have old := hg.sockets i s hi
      exact old.unswept
    · cases hs
  · simp only [Gateway.next] at hs
    split at hs
    · rename_i hrem
      cases hs
      refine ⟨hg.issued, hg.socket_lt, hg.workspace, fun _ => hg.removed (by rw [hrem]; simp),
        fun i s hi => ?_⟩
      have old := hg.sockets i s hi
      -- every socket there is has been fetched
      have hsw : Removal.swept (.fetched fun i => (g.sockets i).isSome) i = false := by
        simp only [Removal.swept]
        rw [show g.sockets i = some s from hi]
        rfl
      rw [hsw]
      exact old.unswept
    · cases hs
  · simp only [Gateway.next] at hs
    split at hs
    · rename_i sockets hrem
      cases hs
      have hissued : ∀ i s, (if sockets i then (g.sockets i).map (.evict workspaceId userId)
          else g.sockets i) = some s → ∃ s₀, g.sockets i = some s₀ ∧
            (s = s₀.evict workspaceId userId ∨ (s = s₀ ∧ sockets i = false)) := by
        intro i s hi
        split at hi
        · obtain ⟨s₀, hs₀, rfl⟩ := Option.map_eq_some_iff.mp hi
          exact ⟨s₀, hs₀, .inl rfl⟩
        · rename_i hf
          exact ⟨s, hi, .inr ⟨rfl, by simpa using hf⟩⟩
      refine ⟨fun i s hi => ?_, hg.socket_lt, hg.workspace, fun _ => hg.removed (by rw [hrem]; simp),
        fun i s hi => ?_⟩
      · obtain ⟨s₀, hs₀, _⟩ := hissued i s hi
        exact hg.issued i s₀ hs₀
      · obtain ⟨s₀, hs₀, hcase⟩ := hissued i s hi
        have old := hg.sockets i s₀ hs₀
        have hdenied : ∀ h ∈ g.handlers, h.socket = i → ¬ h.Admitted workspaceId userId := by
          rintro h hh rfl hadm
          have := hok h hh hadm
          rw [hs₀] at this
          cases this
        rcases hcase with rfl | ⟨rfl, hf⟩
        · exact old.evict hdenied
        · rw [hrem] at old
          exact ⟨old.user, old.authenticated, old.recorded, fun _ => old.clean (by simp [Removal.swept, hf]),
            fun _ => hdenied⟩
    · cases hs

theorem gateway_step {a : GatewayAct} (hok : NoneAdmitted workspaceId userId g a)
    (hs : Gateway.next workspaceOf workspaceId userId a g = some g') :
    GatewayInv workspaceOf workspaceId userId g' := by
  cases a with
  | connect => exact connect_inv hg hs
  | authenticate socket user => exact authenticate_inv hg hs
  | disconnect socket => exact disconnect_inv hg hs
  | onJoin socket target => exact onJoin_inv hg hs
  | read k => exact read_inv hg hs
  | enter k => exact enter_inv hg hs
  | record k => exact record_inv hg hs
  | onLeave socket target => exact onLeave_inv hg hs
  | setBoard boardId present =>
    cases hs
    exact ⟨hg.issued, hg.socket_lt, hg.workspace, hg.removed, hg.sockets⟩
  | setMember w u present => exact members_inv hg hs
  | remove => exact removal_inv hg (.inl rfl) hok hs
  | fetchSockets => exact removal_inv hg (.inr (.inl rfl)) hok hs
  | walk => exact removal_inv hg (.inr (.inr rfl)) hok hs

omit hg

variable (workspaceOf workspaceId userId) in
/-- Where no join that was let in is under way when the eviction walks the sockets, no socket of the
removed user is in a room of the workspace from then on. -/
theorem eviction_final {boards : Id → Bool} {members : Id → Id → Bool} {g : Gateway}
    (hrun : Reach (Gateway.next workspaceOf workspaceId userId) (NoneAdmitted workspaceId userId)
      (.start boards members) g) (hevicted : g.removal = .evicted) :
    ∀ i s, g.sockets i = some s → s.userId = some userId →
      ∀ r ∈ s.rooms, ¬ r.OfWorkspace workspaceOf workspaceId userId := by
  have hinv := hrun.inv (start_inv boards members) fun g a g' hg hok hs => gateway_step hg hok hs
  intro i s hi
  exact (hinv.sockets i s hi).clean (by rw [hevicted]; rfl)

end Model

/-! ## Runs -/

/-- One socket of user `u` asks for a board of workspace `w` and for `w`'s notifications; the member
is removed and evicted before either handler has entered its room. -/
def joinAcrossEviction : List GatewayAct :=
  [.connect, .authenticate 0 (js "u"), .onJoin 0 (.board (js "b")),
    .onJoin 0 (.notifications (js "w")), .read 0, .read 1, .remove, .fetchSockets, .walk,
    .enter 0, .enter 1, .record 0, .record 0]

/-- The same, the eviction last. -/
def joinBeforeEviction : List GatewayAct :=
  [.connect, .authenticate 0 (js "u"), .onJoin 0 (.board (js "b")), .onJoin 0 (.notifications (js "w")),
    .read 0, .enter 0, .record 0, .read 0, .enter 0, .record 0, .remove, .fetchSockets, .walk]

abbrev oneWorkspace : GatewayAct → Gateway → Option Gateway :=
  Gateway.next (fun _ => js "w") (js "w") (js "u")

abbrev everyone : Gateway := .start (fun _ => true) fun _ _ => true

/-- The handlers are through when the eviction comes by: the socket keeps no room. -/
theorem eviction_final_quiet :
    let g := after oneWorkspace (fun g a => decide (NoneAdmitted (js "w") (js "u") g a))
      joinBeforeEviction everyone
    (∃ s, g.sockets 0 = some s ∧ s.userId = some (js "u")) ∧
      ∀ i s, g.sockets i = some s → s.userId = some (js "u") →
        ∀ r ∈ s.rooms, ¬ r.OfWorkspace (fun _ => js "w") (js "w") (js "u") := by
  refine ⟨⟨_, rfl, rfl⟩, eviction_final (fun _ => js "w") (js "w") (js "u")
    (reach_after (fun _ _ => of_decide_eq_true) ?_) rfl⟩
  decide +kernel

/-- Two joins that read the membership before the removal enter their rooms after the eviction, and
stay there. -/
theorem eviction_overtaken :
    let g := after oneWorkspace (fun _ _ => true) joinAcrossEviction everyone
    Reach oneWorkspace (fun _ _ => True) everyone g ∧
    g.removal = .evicted ∧ g.handlers = [] ∧ g.members (js "w") (js "u") = false ∧
    ∃ s, g.sockets 0 = some s ∧ s.userId = some (js "u") ∧ .board (js "b") ∈ s.rooms ∧
      .user (js "w") (js "u") ∈ s.rooms := by
  refine ⟨reach_after (fun _ _ _ => trivial) ?_, rfl, rfl, by decide +kernel, _, rfl, rfl, ?_, ?_⟩
  all_goals decide +kernel

end Kurul
