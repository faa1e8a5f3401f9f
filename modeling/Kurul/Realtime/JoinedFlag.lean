import Kurul.Lts
import Kurul.Realtime.RoomState

/-!
# Kurul.Realtime.JoinedFlag

The `connected` a mounted `useBoardSocket` or `useNotificationSocket` returns. One state cell is
shared by every run of the hook's effect, and the callback of a join writes it whenever the
acknowledgement comes: also after the effect that sent the join has been torn down, and after the
connection it was sent on has gone.

* `Truthful`      — what a returned `connected` promises.
* `Own`           — the steps along which the promise is kept: no acknowledgement of an earlier
  effect or connection raises the flag.
* `returned_truthful` — along every run of such steps.
-/

namespace Kurul

/-- Which of the two hooks. -/
inductive SocketHook where
  | board
  | notifications
  deriving DecidableEq

/-- The arguments a render passes: the board's or the workspace's id, and `enabled`. -/
structure HookProps where
  id : Option Id
  enabled : Bool
  deriving DecidableEq

/-- A join the hook has emitted: by which run of the effect, and on which connection. -/
structure HookJoin where
  target : JoinTarget
  effect : Nat
  connection : Nat
  deriving DecidableEq

/-- What reaches the hook's owner, in order. -/
inductive HookLog where
  /-- The server acknowledged a join with `ok`. -/
  | acknowledged (join : HookJoin)
  /-- `onResync()`. -/
  | resynced
  deriving DecidableEq

structure HookState where
  /-- The arguments of the last render. -/
  props : HookProps
  /-- The arguments the effect last ran with: its subscription is to their target. -/
  held : HookProps
  /-- How often the effect has run. -/
  effect : Nat
  /-- How many connections there have been. -/
  connection : Nat
  /-- `socket.connected`. -/
  up : Bool
  /-- The `connected` cell. -/
  connected : Bool
  /-- The joins without an acknowledgement. -/
  joins : List HookJoin
  log : List HookLog
  deriving DecidableEq

inductive HookAct where
  | connect
  | disconnect
  | render (props : HookProps)
  /-- The effect runs, after a render. -/
  | runEffect
  /-- The acknowledgement of a join arrives. -/
  | acknowledge (join : Nat) (ok : Bool)
  deriving DecidableEq

namespace SocketHook

/-- A hook that has not rendered yet. -/
def init : HookState := ⟨⟨none, false⟩, ⟨none, false⟩, 0, 0, false, false, [], []⟩

variable (hook : SocketHook)

/-- What the effect subscribes to: nothing if it is disabled, or without an id. -/
def target (props : HookProps) : Option JoinTarget :=
  match props.id with
  | none => none
  | some id =>
    if props.enabled = true ∧ id ≠ [] then
      some (match hook with
        | board => .board id
        | notifications => .notifications id)
    else none

/-- Whether what is returned is the cell: `useNotificationSocket` answers `false` while it is
disabled or has no workspace, `useBoardSocket` answers the cell. -/
def shows (props : HookProps) : Bool :=
  match hook with
  | board => true
  | notifications => props.enabled && props.id.isSome

/-- The `connected` of the last render. -/
def returned (s : HookState) : Bool := hook.shows s.props && s.connected

/-- The target of the subscription. -/
def subscribed (s : HookState) : Option JoinTarget := hook.target s.held

/-- `onConnect`: the join of what is subscribed to. -/
def onConnect (s : HookState) : HookState :=
  match hook.subscribed s with
  | none => s
  | some t => { s with joins := s.joins ++ [⟨t, s.effect, s.connection⟩] }

/-- `setConnected(false)`, in the clean-up and on `disconnect`: an effect that returned early has
neither the clean-up nor the listener. -/
def lower (s : HookState) : HookState :=
  if (hook.subscribed s).isSome then { s with connected := false } else s

/-- The effect itself, with the arguments of the last render. -/
def setup (s : HookState) : HookState :=
  let s := { s with held := s.props, effect := s.effect + 1 }
  if s.up then hook.onConnect s else s

def next : HookAct → HookState → Option HookState
  | .connect, s =>
    if s.up then none
    else some (hook.onConnect { s with up := true, connection := s.connection + 1 })
  | .disconnect, s =>
    if s.up then some (hook.lower { s with up := false }) else none
  | .render props, s => some { s with props := props }
  | .runEffect, s => if s.props = s.held then none else some (hook.setup (hook.lower s))
  | .acknowledge k ok, s =>
    match s.joins[k]? with
    | none => none
    | some j =>
      let s := { s with joins := s.joins.eraseIdx k }
      if ok then
        some { s with connected := true, log := s.log ++ [.acknowledged j, .resynced] }
      else some s

/-- The join of the subscription on the connection there is. -/
def IsCurrent (s : HookState) (j : HookJoin) : Prop :=
  s.up = true ∧ hook.subscribed s = some j.target ∧ j.effect = s.effect ∧
    j.connection = s.connection

/-- That join was acknowledged with `ok`, and `onResync` called after. -/
def Joined (s : HookState) : Prop :=
  ∃ j before after, hook.IsCurrent s j ∧ s.log = before ++ .acknowledged j :: after ∧
    .resynced ∈ after

/-- What a returned `connected` promises. -/
def Truthful (s : HookState) : Prop := hook.returned s = true → hook.Joined s

/-- The steps that leave the flag to the joins of the subscription: while the flag is returned, an
acknowledgement that raises it is the current join's, unless that one has been acknowledged
already; and no render takes up a flag that an acknowledgement raised while nothing was
subscribed to. -/
def Own (s : HookState) : HookAct → Prop
  | .render props => hook.shows props = true → s.connected = true → hook.Joined s
  | .acknowledge k true =>
    hook.shows s.props = true → (∃ j, s.joins[k]? = some j ∧ hook.IsCurrent s j) ∨ hook.Joined s
  | _ => True

section Steps

variable {hook : SocketHook} {s s' : HookState} {a : HookAct} {j : HookJoin}

instance : Decidable (hook.IsCurrent s j) :=
  inferInstanceAs (Decidable (_ ∧ _))

@[simp] theorem returned_onConnect : hook.returned (hook.onConnect s) = hook.returned s := by
  unfold onConnect
  split <;> rfl

@[simp] theorem returned_setup : hook.returned (hook.setup s) = hook.returned s := by
  simp only [setup]
  split
  · rw [returned_onConnect]
    rfl
  · rfl

/-- The clean-up of a subscription lowers the flag; without one there is nothing to lower. -/
theorem returned_lower (h : hook.returned (hook.lower s) = true) :
    hook.returned s = true ∧ hook.subscribed s = none := by
  unfold lower at h
  split at h
  · simp [returned] at h
  · rename_i hnone
    exact ⟨h, by simpa using hnone⟩

@[simp] theorem log_onConnect : (hook.onConnect s).log = s.log := by
  unfold onConnect
  split <;> rfl

@[simp] theorem log_lower : (hook.lower s).log = s.log := by
  unfold lower
  split <;> rfl

theorem Joined.up (h : hook.Joined s) : s.up = true := by
  obtain ⟨j, _, _, hj, _⟩ := h
  exact hj.1

theorem Joined.subscribed (h : hook.Joined s) : hook.subscribed s ≠ none := by
  obtain ⟨j, _, _, ⟨_, hj, _⟩, _⟩ := h
  rw [hj]
  exact Option.some_ne_none _

/-- Arguments not taken up yet, a flag and joins in flight do not change what was joined. -/
theorem joined_congr {props : HookProps} {connected : Bool} {joins : List HookJoin} :
    hook.Joined { s with props := props, connected := connected, joins := joins } ↔
      hook.Joined s := Iff.rfl

/-- Every acknowledgement written down has the call of `onResync` behind it. -/
def Paired (log : List HookLog) : Prop :=
  ∀ j before after, log = before ++ .acknowledged j :: after → .resynced ∈ after

theorem paired_append {log : List HookLog} (h : Paired log) (j : HookJoin) :
    Paired (log ++ [.acknowledged j, .resynced]) := by
  intro j' before after heq
  rcases List.append_eq_append_iff.mp heq with ⟨rest, _, hrest⟩ | ⟨rest, hlog, hrest⟩
  · -- the acknowledgement is among the two entries just added
    cases rest with
    | nil =>
      rw [← (List.cons.inj hrest).2]
      exact List.mem_singleton_self _
    | cons r rest => cases rest <;> simp_all
  · cases rest with
    | nil => simp_all
    | cons r rest =>
      obtain ⟨hr, hafter⟩ := List.cons.inj hrest
      have hold := h j' before rest (by rw [hlog, hr])
      rw [hafter]
      exact List.mem_append_left _ hold

theorem paired_step (h : Paired s.log) (hs : hook.next a s = some s') : Paired s'.log := by
  cases a with
  | connect =>
    simp only [next] at hs
    split at hs
    · cases hs
    · cases hs
      rwa [log_onConnect]
  | disconnect =>
    simp only [next] at hs
    split at hs
    · cases hs
      rwa [log_lower]
    · cases hs
  | render props =>
    cases hs
    exact h
  | runEffect =>
    simp only [next] at hs
    split at hs
    · cases hs
    · cases hs
      simp only [setup]
      split
      · rwa [log_onConnect, log_lower]
      · rwa [log_lower]
  | acknowledge k ok =>
    simp only [next] at hs
    split at hs
    · cases hs
    · split at hs
      · cases hs
        exact paired_append h _
      · cases hs
        exact h

/-- The step that raises the flag keeps the promise exactly where `Own` says. -/
theorem joined_acknowledge (hp : Paired s.log) :
    hook.Joined { s with
        connected := true, log := s.log ++ [.acknowledged j, .resynced] } ↔
      hook.IsCurrent s j ∨ hook.Joined s := by
  constructor
  · intro h
    obtain ⟨j', before, after, hj', hlog, _⟩ := h
    rcases List.append_eq_append_iff.mp hlog with ⟨rest, _, hrest⟩ | ⟨rest, hbefore, hrest⟩
    · cases rest with
      | nil =>
        have hjj : j = j' := by simpa using (List.cons.inj hrest).1
        exact .inl (hjj ▸ hj')
      | cons r rest => cases rest <;> simp_all
    · cases rest with
      | nil =>
        have hjj : j' = j := by simpa using (List.cons.inj hrest).1
        exact .inl (hjj ▸ hj')
      | cons r rest =>
        obtain ⟨hr, _⟩ := List.cons.inj hrest
        have hold : s.log = before ++ .acknowledged j' :: rest := by rw [hbefore, hr]
        exact .inr ⟨j', before, rest, hj', hold, hp j' before rest hold⟩
  · intro h
    rcases h with hcur | ⟨j', before, after, hj', hlog, hafter⟩
    · exact ⟨j, s.log, [.resynced], hcur, rfl, List.mem_singleton_self _⟩
    · refine ⟨j', before, after ++ [.acknowledged j, .resynced], hj', ?_, ?_⟩
      · simp only [hlog, List.append_assoc, List.cons_append]
      · exact List.mem_append_left _ hafter

/-- One step: a promise that was kept is kept exactly if the step leaves the flag to the
subscription's own joins. -/
theorem truthful_step (hp : Paired s.log) (ht : hook.Truthful s) (hs : hook.next a s = some s') :
    hook.Truthful s' ↔ hook.Own s a := by
  cases a with
  | connect =>
    refine iff_of_true ?_ trivial
    simp only [next] at hs
    split at hs
    · cases hs
    · rename_i hdown
      cases hs
      intro hret
      rw [returned_onConnect] at hret
      exact absurd (ht hret).up hdown
  | disconnect =>
    refine iff_of_true ?_ trivial
    simp only [next] at hs
    split at hs
    · cases hs
      intro hret
      obtain ⟨hret, hnone⟩ := returned_lower hret
      exact absurd hnone (ht hret).subscribed
    · cases hs
  | render props =>
    cases hs
    constructor
    · intro h hshows hup
      exact h (by simp [returned, hshows, hup])
    · intro h hret
      obtain ⟨hshows, hup⟩ := Bool.and_eq_true_iff.mp hret
      exact h hshows hup
  | runEffect =>
    refine iff_of_true ?_ trivial
    simp only [next] at hs
    split at hs
    · cases hs
    · cases hs
      intro hret
      rw [returned_setup] at hret
      obtain ⟨hret, hnone⟩ := returned_lower hret
      exact absurd hnone (ht hret).subscribed
  | acknowledge k ok =>
    simp only [next] at hs
    split at hs
    · cases hs
    · rename_i j hj
      split at hs
      · rename_i hok
        cases hs
        subst hok
        have hjoined := @joined_acknowledge hook s j hp
        constructor
        · intro h hshows
          have hnew := hjoined.mp (h (by simp [returned, hshows]))
          exact hnew.imp (fun hcur => ⟨j, hj, hcur⟩) id
        · intro h hret
          have hshows : hook.shows s.props = true := by simpa [returned] using hret
          refine hjoined.mpr ((h hshows).imp (fun hcur => ?_) id)
          obtain ⟨j', hj', hcur⟩ := hcur
          rw [hj] at hj'
          exact Option.some.inj hj' ▸ hcur
      · rename_i hok
        cases hs
        simp only [Bool.not_eq_true] at hok
        subst hok
        exact iff_of_true ht trivial

end Steps

open Lts

/-- While the flag is left to the subscription's own joins, a returned `connected` is true, and the
first step that lets another join raise it makes it a lie. -/
theorem returned_truthful (hook : SocketHook) {s : HookState}
    (h : Reach hook.next hook.Own init s) :
    hook.Truthful s ∧
      ∀ a s', hook.next a s = some s' → (hook.Truthful s' ↔ hook.Own s a) := by
  have hinv : Paired s.log ∧ hook.Truthful s := by
    refine Reach.inv (I := fun s => Paired s.log ∧ hook.Truthful s) ⟨?_, ?_⟩ ?_ h
    · intro j before after heq
      cases before <;> cases heq
    · intro hret
      simp [returned, init] at hret
    · intro s a s' hi hown hs
      exact ⟨paired_step hi.1 hs, (truthful_step hi.1 hi.2 hs).mpr hown⟩
  exact ⟨hinv.2, fun a s' hs => truthful_step hinv.1 hinv.2 hs⟩


/-- A hook that joins its workspace, and moves on to the next. -/
theorem returned_truthful_joined :
    ∃ s, Reach notifications.next (Own notifications) init s ∧ notifications.returned s = true ∧
      notifications.Joined s := by
  let ok : HookState → HookAct → Bool := fun s a =>
    match a with
    | .render _ => !s.connected
    | .acknowledge k true => (s.joins[k]?).any fun j => notifications.IsCurrent s j
    | _ => true
  have hok : ∀ s a, ok s a = true → notifications.Own s a := by
    intro s a h
    cases a with
    | render props =>
      intro _ hup
      simp [ok, hup] at h
    | acknowledge k success =>
      cases success with
      | true =>
        obtain ⟨j, hj, hcur⟩ := (Option.any_eq_true _ _).mp h
        exact fun _ => .inl ⟨j, hj, of_decide_eq_true hcur⟩
      | false => trivial
    | _ => trivial
  let acts : List HookAct :=
    [.connect, .render ⟨some (js "a"), true⟩, .runEffect, .acknowledge 0 true]
  have hrun : Reach notifications.next (Own notifications) init
      (after notifications.next ok acts init) := reach_after hok (by decide)
  exact ⟨_, hrun, by decide, (returned_truthful notifications hrun).1 (by decide)⟩

/-- A hook that moves from one id to another while its first join is on the way: the answer to the
first join comes after that of the second, which was a refusal. -/
def lateAcknowledgement : List HookAct :=
  [.connect, .render ⟨some (js "a"), true⟩, .runEffect, .render ⟨some (js "b"), true⟩, .runEffect,
    .acknowledge 1 false, .acknowledge 0 true]

/-- The flag can be up with the room refused. -/
theorem returned_while_refused :
    (¬ ∀ s, Reach board.next (fun _ _ => True) init s → board.Truthful s) ∧
      ¬ ∀ s, Reach notifications.next (fun _ _ => True) init s → notifications.Truthful s := by
  have hend : ∀ hook : SocketHook,
      ¬ ∀ s, Reach hook.next (fun _ _ => True) init s → hook.Truthful s := by
    intro hook h
    have hrun : (play hook.next (fun _ _ => true) lateAcknowledgement init).isSome = true := by
      cases hook <;> decide
    have hreturned :
        hook.returned (after hook.next (fun _ _ => true) lateAcknowledgement init) = true := by
      cases hook <;> decide
    obtain ⟨j, _, _, ⟨_, _, heffect, _⟩, hlog, _⟩ :=
      h _ (reach_after (fun _ _ _ => trivial) hrun) hreturned
    have hfirst : HookLog.acknowledged j ∈
        [.acknowledged ⟨(hook.target ⟨some (js "a"), true⟩).getD (.board []), 1, 1⟩, .resynced] := by
      have hmem : HookLog.acknowledged j ∈
          (after hook.next (fun _ _ => true) lateAcknowledgement init).log := by
        rw [hlog]
        simp
      cases hook <;> exact hmem
    have hone : j.effect = 1 := by
      simp only [List.mem_cons, HookLog.acknowledged.injEq, List.not_mem_nil, or_false,
        reduceCtorEq] at hfirst
      rw [hfirst]
    have htwo : (after hook.next (fun _ _ => true) lateAcknowledgement init).effect = 2 := by
      cases hook <;> decide
    omega
  exact ⟨hend board, hend notifications⟩

end SocketHook
end Kurul
