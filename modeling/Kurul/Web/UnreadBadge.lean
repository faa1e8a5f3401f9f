import Kurul.JsString
import Kurul.Lts

/-!
# Kurul.Web.UnreadBadge

The number on the bell: `useNotificationUnread` reads it again on every signal, and
`useNotificationMenu` corrects it on the spot when its own requests are answered. The server signals a
change of the count before it answers the request that made it; the signal and the answer come in any
order.

* `Settled`     — what the badge owes: with no signal and no refetch outstanding it is the server's
  count.
* `Timely`      — the steps along which it is kept: no correction comes after the refetch.
* `badge_exact` — along every run of such steps, and no longer.
-/

namespace Kurul
namespace Web

/-- A notification of the user, in the workspace of the bell. -/
structure Notice where
  id : Id
  /-- `readAt` is set. -/
  read : Bool
  deriving DecidableEq

/-- `unreadCount`. -/
def unreadCount (notices : List Notice) : Nat := (notices.filter fun n => !n.read).length

def setRead (id : Id) (notices : List Notice) : List Notice :=
  notices.map fun n => if n.id = id then { n with read := true } else n

inductive BadgeRequest where
  | markRead (id : Id)
  | markAllRead
  deriving DecidableEq

/-- What the server makes of a request: the rows after it, and the answer; `false` is `404`. -/
def BadgeRequest.serve (notices : List Notice) : BadgeRequest → List Notice × Bool
  | .markRead id =>
    match notices.find? fun n => n.id = id with
    | none => (notices, false)
    | some existing => if existing.read then (notices, true) else (setRead id notices, true)
  | .markAllRead => (notices.map fun n => { n with read := true }, true)

structure PendingBadgeRequest where
  request : BadgeRequest
  answer : Option Bool
  deriving DecidableEq

structure Bell where
  /-- The rows of the server. -/
  notices : List Notice
  /-- Signals on their way. -/
  signals : Nat
  requests : List PendingBadgeRequest
  /-- The refetch that no newer one has aborted, with what the server answered. -/
  refetch : Option (Option Nat)
  /-- The badge. -/
  count : Nat
  deriving DecidableEq

inductive BellAct where
  /-- Another notification for the user. -/
  | arrive (id : Id)
  /-- A request of another tab. -/
  | elsewhere (request : BadgeRequest)
  /-- A notification goes with what it is about. -/
  | remove (id : Id)
  /-- `openNotification` or `markAllRead` sends its request. -/
  | send (request : BadgeRequest)
  /-- The server answers a request. -/
  | serve (request : Nat)
  /-- A request, or its answer, is lost. -/
  | lose (request : Nat)
  /-- An answer arrives; `found` is whether the lookup of the board it leads to went through. -/
  | settle (request : Nat) (found : Bool)
  /-- A signal arrives. -/
  | signal
  /-- The server answers the refetch. -/
  | count
  /-- Its answer arrives. -/
  | load
  deriving DecidableEq

namespace Bell

def unread (s : Bell) : Nat := unreadCount s.notices

/-- The server's rows change: it signals if the count does. -/
def commit (notices : List Notice) (s : Bell) : Bell :=
  { s with
    notices
    signals := if unreadCount notices = s.unread then s.signals else s.signals + 1 }

/-- `setUnreadCount` when a request was answered: `Math.max(0, count - 1)`, or zero. -/
def correct (request : BadgeRequest) (s : Bell) : Bell :=
  { s with
    count := match request with
      | .markRead _ => s.count - 1
      | .markAllRead => 0 }

/-- Whether an answer is followed by a correction: a refusal is reported instead, and so is a lookup
that throws. -/
def corrects (request : BadgeRequest) (ok found : Bool) : Bool :=
  ok && (found || request = .markAllRead)

def next : BellAct → Bell → Option Bell
  | .arrive id, s =>
    if s.notices.any fun n => n.id = id then none
    else some (s.commit (s.notices ++ [⟨id, false⟩]))
  | .elsewhere request, s => some (s.commit (request.serve s.notices).1)
  | .remove id, s => some (s.commit (s.notices.filter fun n => n.id ≠ id))
  | .send request, s => some { s with requests := s.requests ++ [⟨request, none⟩] }
  | .serve k, s =>
    match s.requests[k]? with
    | some ⟨request, none⟩ =>
      let done := request.serve s.notices
      some { s.commit done.1 with requests := s.requests.set k ⟨request, some done.2⟩ }
    | _ => none
  | .lose k, s => some { s with requests := s.requests.eraseIdx k }
  | .settle k found, s =>
    match s.requests[k]? with
    | some ⟨request, some ok⟩ =>
      let s := { s with requests := s.requests.eraseIdx k }
      if corrects request ok found then some (s.correct request) else some s
    | _ => none
  | .signal, s => if s.signals = 0 then none else
      some { s with signals := s.signals - 1, refetch := some none }
  | .count, s =>
    match s.refetch with
    | some none => some { s with refetch := some (some s.unread) }
    | _ => none
  | .load, s =>
    match s.refetch with
    | some (some n) => some { s with count := n, refetch := none }
    | _ => none

/-- A bell that has just joined its room: the refetch of the join is under way. -/
def start (notices : List Notice) : Bell := ⟨notices, 0, [], some none, 0⟩

/-- Nothing is in flight. -/
def AtRest (s : Bell) : Prop := s.signals = 0 ∧ s.requests = [] ∧ s.refetch = none

instance (s : Bell) : Decidable s.AtRest := inferInstanceAs (Decidable (_ ∧ _))

/-- A signal or a refetch is outstanding. -/
def Coming (s : Bell) : Prop := s.signals ≠ 0 ∨ s.refetch ≠ none

/-- What the badge owes, if nothing is to come that sets it. -/
def Settled (s : Bell) : Prop := ¬ s.Coming → s.count = s.unread

/-- With no signal outstanding, a refetch that is answered has the server's count. -/
def Fresh (s : Bell) : Prop := s.signals = 0 → ∀ n, s.refetch = some (some n) → n = s.unread

/-- A correction is made while a refetch is to come that sets the badge anew, or has nothing to take
away. -/
def Timely (s : Bell) : BellAct → Prop
  | .settle k found => ∀ request ok, s.requests[k]? = some ⟨request, some ok⟩ →
      corrects request ok found = true → s.Coming ∨ s.count = 0
  | _ => True

section Steps

variable {s s' : Bell} {a : BellAct} {notices : List Notice} {request : BadgeRequest}
  {requests : List PendingBadgeRequest}

/-- A change of the rows signals, or does not change the count. -/
theorem commit_cases (s : Bell) (notices : List Notice) : 0 < (s.commit notices).signals ∨
    (s.commit notices).signals = s.signals ∧ (s.commit notices).unread = s.unread := by
  unfold commit
  split
  · exact .inr ⟨rfl, by assumption⟩
  · exact .inl (Nat.succ_pos _)

theorem Fresh.commit (h : s.Fresh) : (s.commit notices).Fresh := by
  intro hsig n hn
  rcases commit_cases s notices with hpos | ⟨hsame, hunread⟩
  · omega
  · rw [hunread]
    exact h (hsame ▸ hsig) n hn

theorem Settled.commit (h : s.Settled) : (s.commit notices).Settled := by
  intro hdone
  rcases commit_cases s notices with hpos | ⟨hsame, hunread⟩
  · exact absurd (.inl (Nat.ne_of_gt hpos)) hdone
  · rw [hunread]
    exact h fun hcoming => hdone (hcoming.imp (fun hsig => hsame ▸ hsig) id)

/-- A correction leaves the badge right exactly where a refetch is to come, or nothing is taken
away. -/
theorem settled_correct (h : s.Settled) :
    ({ s with requests := requests }.correct request).Settled ↔ s.Coming ∨ s.count = 0 := by
  constructor
  · intro hsettled
    by_contra hlate
    obtain ⟨hdone, hpos⟩ := not_or.mp hlate
    have hbefore : s.count = s.unread := h hdone
    have hafter : ({ s with requests := requests }.correct request).count = s.unread :=
      hsettled hdone
    cases request with
    | markRead id =>
      have hpred : s.count - 1 = s.unread := hafter
      omega
    | markAllRead =>
      have hzero : 0 = s.unread := hafter
      omega
  · intro hor hdone
    have hnone : s.count = 0 := hor.resolve_left hdone
    have hbefore : s.count = s.unread := h hdone
    cases request with
    | markRead id =>
      show s.count - 1 = s.unread
      omega
    | markAllRead =>
      show 0 = s.unread
      omega

/-- One step: what a refetch has to bring stays so, and the badge keeps what it owes exactly if the
step is timely. -/
theorem settled_step (hf : s.Fresh) (h : s.Settled) (hs : next a s = some s') :
    s'.Fresh ∧ (s'.Settled ↔ Timely s a) := by
  cases a with
  | arrive id =>
    simp only [next] at hs
    split at hs
    · cases hs
    · cases hs
      exact ⟨hf.commit, iff_of_true h.commit trivial⟩
  | elsewhere request =>
    cases hs
    exact ⟨hf.commit, iff_of_true h.commit trivial⟩
  | remove id =>
    cases hs
    exact ⟨hf.commit, iff_of_true h.commit trivial⟩
  | send request =>
    cases hs
    exact ⟨hf, iff_of_true h trivial⟩
  | serve k =>
    simp only [next] at hs
    split at hs
    · cases hs
      exact ⟨hf.commit, iff_of_true h.commit trivial⟩
    · cases hs
  | lose k =>
    cases hs
    exact ⟨hf, iff_of_true h trivial⟩
  | settle k found =>
    simp only [next] at hs
    split at hs
    · rename_i request ok hk
      split at hs
      · rename_i hcorrects
        cases hs
        refine ⟨hf, (settled_correct h).trans ⟨fun hor request' ok' hk' _ => hor, ?_⟩⟩
        intro htimely
        exact htimely request ok hk hcorrects
      · rename_i hcorrects
        cases hs
        refine ⟨hf, iff_of_true h ?_⟩
        intro request' ok' hk' hcorrects'
        rw [hk] at hk'
        cases hk'
        exact absurd hcorrects' hcorrects
    · cases hs
  | signal =>
    simp only [next] at hs
    split at hs
    · cases hs
    · cases hs
      refine ⟨fun _ n hn => ?_, iff_of_true (fun hdone => ?_) trivial⟩
      · cases hn
      · exact absurd (.inr (Option.some_ne_none _)) hdone
  | count =>
    simp only [next] at hs
    split at hs
    · cases hs
      refine ⟨fun _ n hn => ?_, iff_of_true (fun hdone => ?_) trivial⟩
      · cases hn
        rfl
      · exact absurd (.inr (Option.some_ne_none _)) hdone
    · cases hs
  | load =>
    simp only [next] at hs
    split at hs
    · rename_i n hn
      cases hs
      refine ⟨fun _ n hn => ?_, iff_of_true (fun hdone => ?_) trivial⟩
      · cases hn
      · exact hf (by_contra fun hsig => hdone (.inl hsig)) n hn
    · cases hs

end Steps

open Lts

/-- While corrections are timely the badge at rest is the server's count, and the first that is not
leaves it wrong with nothing to come that would set it right. -/
theorem badge_exact {notices : List Notice} {s : Bell}
    (h : Reach next Timely (start notices) s) :
    (s.AtRest → s.count = s.unread) ∧
      ∀ a s', next a s = some s' → (s'.Settled ↔ Timely s a) := by
  have hinv : s.Fresh ∧ s.Settled := by
    refine Reach.inv (I := fun s => s.Fresh ∧ s.Settled) ⟨nofun, ?_⟩ ?_ h
    · exact fun hdone => absurd (.inr (Option.some_ne_none _)) hdone
    · intro s a s' hi htimely hs
      obtain ⟨hfresh, hiff⟩ := settled_step hi.1 hi.2 hs
      exact ⟨hfresh, hiff.mpr htimely⟩
  refine ⟨fun hrest => hinv.2 ?_, fun a s' hs => (settled_step hinv.1 hinv.2 hs).2⟩
  intro hcoming
  exact hcoming.elim (fun hsig => hsig hrest.1) fun hrefetch => hrefetch hrest.2.2

/-- Two unread notifications, one of which is opened: its answer comes before the refetch. -/
theorem badge_exact_slow_refetch :
    ∃ s, Reach next Timely (start [⟨js "a", false⟩, ⟨js "b", false⟩]) s ∧ s.AtRest ∧
      s.count = s.unread := by
  let ok : Bell → BellAct → Bool := fun s a =>
    match a with
    | .settle _ _ => s.signals ≠ 0
    | _ => true
  have hok : ∀ s a, ok s a = true → Timely s a := by
    intro s a h
    cases a with
    | settle k found => exact fun _ _ _ _ => .inl (.inl (of_decide_eq_true h))
    | _ => trivial
  let acts : List BellAct :=
    [.count, .load, .send (.markRead (js "a")), .serve 0, .settle 0 true, .signal, .count, .load]
  have hrun : Reach next Timely (start [⟨js "a", false⟩, ⟨js "b", false⟩])
      (after next ok acts (start [⟨js "a", false⟩, ⟨js "b", false⟩])) :=
    reach_after hok (by decide)
  exact ⟨_, hrun, by decide, (badge_exact hrun).1 (by decide)⟩

/-- The same with the answer after the refetch. -/
def slowAnswer : List BellAct :=
  [.count, .load, .send (.markRead (js "a")), .serve 0, .signal, .count, .load, .settle 0 true]

/-- The badge can say that nothing is unread where one notification is. -/
theorem badge_off_by_one : ¬ ∀ notices s, Reach next (fun _ _ => True) (start notices) s → s.AtRest →
    s.count = s.unread := by
  intro h
  have hoff := h [⟨js "a", false⟩, ⟨js "b", false⟩]
    (after next (fun _ _ => true) slowAnswer (start [⟨js "a", false⟩, ⟨js "b", false⟩]))
    (reach_after (fun _ _ _ => trivial) (by decide)) (by decide)
  exact absurd hoff (by decide)

end Bell
end Web
end Kurul
