import Kurul.Web.InSync

/-!
# Kurul.Web.Resync

A viewer whose connection comes and goes. Events reach it only while its socket is in the board's
room; what it misses it has to learn from a drain, and `requestResync` decides whether to start one.

* `acked_reflected` — every commit before a join acknowledgement is in the task list once nothing is
  outstanding, if no resync is dropped that a missed commit asks for.
-/

namespace Kurul
namespace Web

open Lts

/-- How far the join of the board's room has come. -/
inductive Link where
  | down
  | asked
  /-- In the room, not acknowledged yet. -/
  | entered
  /-- The acknowledgement of the join, written after this many commits, is on its way. -/
  | answered (commits : Nat)
  | joined
  deriving DecidableEq

/-- Events reach the socket. -/
def Link.inRoom : Link → Bool
  | .down | .asked => false
  | .entered | .answered _ | .joined => true

structure Session where
  viewer : Viewer
  link : Link
  /-- The commits whose events did not reach the client, and which no first page that it applied since
  was read after. -/
  missed : List Nat
  /-- The commits before the last acknowledgement the client has seen. -/
  acked : Nat
  /-- `Date.now()`. -/
  now : Nat
  loading : Bool
  lastDrainStartedAt : Nat
  resyncTimer : Option Nat
  resyncRunning : Bool
  resyncQueued : Bool

inductive SessionAct where
  | view (a : ViewAct)
  | tick (ms : Nat)
  /-- `loading` clears: the first page is there. -/
  | reveal
  | connect
  | enterRoom
  | answer
  | acknowledge
  | disconnect
  /-- The timer of the resync goes off. -/
  | resync
  | resyncDone
  deriving DecidableEq

/-- `RESYNC_DEBOUNCE_MS`. -/
def resyncDebounceMs : Nat := 400

/-- `RESYNC_FRESH_WINDOW_MS`. -/
def resyncFreshWindowMs : Nat := 3000

namespace Session

/-- A client that mounts: the initial load has just been sent, and counts as a drain. -/
def start (board : List Card) : Session :=
  { viewer := ⟨⟨board, []⟩, 0, [], [], [], [⟨none, none, false⟩]⟩
    link := .down, missed := [], acked := 0, now := 0, loading := true, lastDrainStartedAt := 0
    resyncTimer := none, resyncRunning := false, resyncQueued := false }

/-- A drain started so recently that a resync would only repeat it. -/
def isFresh (s : Session) : Bool := s.now - s.lastDrainStartedAt < resyncFreshWindowMs

def requestResync (s : Session) : Session :=
  if s.isFresh then s
  else if s.resyncRunning then { s with resyncQueued := true }
  else { s with resyncTimer := some (s.now + resyncDebounceMs) }

/-- `runResync`, up to its `await reload()`. -/
def runResync (s : Session) : Session :=
  { s with
    resyncRunning := true
    resyncQueued := false
    lastDrainStartedAt := s.now
    viewer := { s.viewer with drains := s.viewer.drains ++ [⟨none, none, true⟩] } }

/-- Its `finally`. -/
def resyncDone (s : Session) : Session :=
  if s.resyncQueued then requestResync { s with resyncRunning := false, resyncQueued := false }
  else { s with resyncRunning := false }

/-- The missed commits that are left when a page is applied: a first page has those before it. -/
def unread (s : Session) : ViewAct → List Nat
  | .applyPage k => match s.viewer.drains[k]? with
    | some ⟨none, some n, _⟩ => s.missed.filter fun i => n ≤ i
    | _ => s.missed
  | _ => s.missed

def next (currentUserId : Option Id) : SessionAct → Session → Option Session
  | .view (.commit c), s =>
    (s.viewer.next currentUserId (.commit c)).map fun v =>
      if s.link.inRoom then { s with viewer := v }
      else
        { s with
          viewer := { v with upTo := v.log.now }
          missed := s.missed ++ [s.viewer.log.now] }
  | .view a, s =>
    (s.viewer.next currentUserId a).map fun v => { s with viewer := v, missed := s.unread a }
  | .tick ms, s => some { s with now := s.now + ms }
  | .reveal, s =>
    if s.loading ∧ ∀ d ∈ s.viewer.drains, d.cursor ≠ none then
      some { s with loading := false, lastDrainStartedAt := s.now }
    else none
  | .connect, s => if s.link = .down ∧ ¬ s.loading then some { s with link := .asked } else none
  | .enterRoom, s => if s.link = .asked then some { s with link := .entered } else none
  | .answer, s =>
    if s.link = .entered then some { s with link := .answered s.viewer.log.now } else none
  | .acknowledge, s =>
    match s.link with
    | .answered n =>
      -- messages arrive in order: the events written before it are there
      if n ≤ s.viewer.upTo then some (requestResync { s with link := .joined, acked := n }) else none
    | _ => none
  | .disconnect, s =>
    if s.link = .down then none
    else some { s with
      link := .down
      viewer := { s.viewer with upTo := s.viewer.log.now }
      missed := s.missed ++ List.range' s.viewer.upTo (s.viewer.log.now - s.viewer.upTo) }
  | .resync, s =>
    match s.resyncTimer with
    | some deadline => if deadline ≤ s.now then some (runResync { s with resyncTimer := none }) else none
    | none => none
  | .resyncDone, s =>
    if s.resyncRunning ∧ ∀ d ∈ s.viewer.drains, ¬ d.resync then some s.resyncDone else none

/-- No drain, resync timer or queued resync is outstanding. -/
structure Idle (s : Session) : Prop where
  drains : s.viewer.drains = []
  timer : s.resyncTimer = none
  queued : s.resyncQueued = false

/-- The commits the client has been told of: by their events, or by a first page. -/
def Told (s : Session) (i : Nat) : Prop := i < s.viewer.upTo ∧ i ∉ s.missed

/-- A resync is still to come, or a first page that was read after this commit. -/
def Promised (s : Session) (i : Nat) : Prop :=
  s.resyncTimer.isSome = true ∨ s.resyncQueued = true ∨
    ∃ d ∈ s.viewer.drains, d.cursor = none ∧ ∀ n ∈ d.readAt, i < n

/-- Every missed commit among the first `n` that places a task is still to be learnt of. -/
def Covered (s : Session) (n : Nat) : Prop :=
  ∀ i ∈ s.missed, i < n → ∀ c, s.viewer.log.commits[i]? = some c →
    (∃ t, c.change = .updated t) ∨ s.Promised i

/-- No answer is applied that what was told has overtaken, no column is respread, and a resync is
dropped only where no drain is needed. -/
def Ok (s : Session) : SessionAct → Prop
  | .view a => a.Plain ∧ s.viewer.Fresh s.Told a
  | .acknowledge => s.isFresh = true → ∀ n, s.link = .answered n → s.Covered n
  | .resyncDone => s.isFresh = true → s.resyncQueued = true →
      Covered { s with resyncQueued := false } s.acked
  | _ => True

structure Inv (s : Session) : Prop where
  viewer : s.viewer.Sound
  inSync : ∀ taskId, s.viewer.InSync s.Told taskId
  /-- Outside the room no event is on its way. -/
  outside : s.link.inRoom = false → s.viewer.upTo = s.viewer.log.now
  missed : ∀ i ∈ s.missed, i < s.viewer.upTo
  acked : s.acked ≤ s.viewer.upTo
  covered : s.Covered s.acked

section Steps

variable {currentUserId : Option Id} {s s' : Session} {board : List Card}

theorem start_inv (hnd : (board.map Card.id).Nodup) : (start board).Inv where
  viewer := ⟨⟨hnd, by simp [start], by simp [start]⟩, le_rfl, by simp [start], by simp [start], by simp [start]⟩
  inSync := fun taskId => .inr ⟨rfl, .inr ⟨_, List.mem_cons_self, nofun⟩⟩
  outside := fun _ => rfl
  missed := by simp [start]
  acked := le_rfl
  covered := by simp [start, Covered]

/-- The steps of the link and the clock leave the rest as it is. -/
theorem Inv.same (hs : s.Inv) (hview : s'.viewer = s.viewer) (hmissed : s'.missed = s.missed)
    (hacked : s'.acked = s.acked) (hroom : s'.link.inRoom = false → s.link.inRoom = false)
    (htimer : s'.resyncTimer = s.resyncTimer) (hqueued : s'.resyncQueued = s.resyncQueued) :
    s'.Inv := by
  have htold : s'.Told = s.Told := by
    funext i
    rw [Told, Told, hview, hmissed]
  refine ⟨hview ▸ hs.viewer, fun t => ?_, fun h => ?_, ?_, ?_, ?_⟩
  · rw [htold, hview]
    exact hs.inSync t
  · rw [hview]
    exact hs.outside (hroom h)
  · rw [hview, hmissed]
    exact hs.missed
  · rw [hview, hacked]
    exact hs.acked
  · have hcovered := hs.covered
    simp only [Covered, Promised] at hcovered ⊢
    rwa [hmissed, hacked, hview, htimer, hqueued]

/-- A resync that is asked for comes, unless the last drain is fresh. -/
theorem requestResync_covered {n : Nat} (hfresh : s.isFresh = true → s.Covered n) :
    s.requestResync.Covered n := by
  unfold requestResync
  split
  · rename_i h
    exact hfresh h
  · split
    · exact fun _ _ _ _ _ => .inr (.inr (.inl rfl))
    · exact fun _ _ _ _ _ => .inr (.inl rfl)

/-- Asking for a resync touches nothing but the timer and the queue. -/
theorem requestResync_inv (hviewer : s.viewer.Sound)
    (hsync : ∀ taskId, s.viewer.InSync s.Told taskId)
    (houtside : s.link.inRoom = false → s.viewer.upTo = s.viewer.log.now)
    (hmissed : ∀ i ∈ s.missed, i < s.viewer.upTo) (hacked : s.acked ≤ s.viewer.upTo)
    (hcovered : s.isFresh = true → s.Covered s.acked) : s.requestResync.Inv := by
  have h := requestResync_covered hcovered
  revert h
  unfold requestResync
  split
  · exact fun h => ⟨hviewer, hsync, houtside, hmissed, hacked, h⟩
  · split
    · exact fun h => ⟨hviewer, hsync, houtside, hmissed, hacked, h⟩
    · exact fun h => ⟨hviewer, hsync, houtside, hmissed, hacked, h⟩

theorem commit_inv {c : Commit} (hs : s.Inv) (hplain : c.change.Plain)
    (hn : next currentUserId (.view (.commit c)) s = some s') :
    s'.Inv := by
  obtain ⟨v, hv, rfl⟩ := Option.map_eq_some_iff.mp hn
  have hsound : v.Sound := hs.viewer.next (show ViewAct.Plain (.commit c) from hplain) hv
  obtain ⟨_, rfl⟩ := Viewer.next_commit hv
  have hsync := fun t => Viewer.inSync_push hs.viewer (hs.inSync t) c
    fun i hi => hi.1.trans_le hs.viewer.upTo
  have hcovered : ∀ missed : List Nat, (∀ i ∈ missed, i < s.acked → i ∈ s.missed) → ∀ upTo,
      Covered { s with viewer := { s.viewer with log := s.viewer.log.push c, upTo }, missed } s.acked := by
    intro missed hmissed upTo i hi hacked c' hc'
    rw [BoardLog.commits_push ((hacked.trans_le hs.acked).trans_le hs.viewer.upTo)] at hc'
    exact hs.covered i (hmissed i hi hacked) hacked c' hc'
  split
  · rename_i hroom
    exact ⟨hsound, hsync, fun h => absurd h (by simp [hroom]), hs.missed, hs.acked,
      hcovered s.missed (fun _ hi _ => hi) s.viewer.upTo⟩
  · rename_i hroom
    have hupTo := hs.outside (Bool.eq_false_iff.mpr hroom)
    have hlt : s.viewer.upTo < (s.viewer.log.push c).now := by simp [hupTo]
    refine ⟨⟨hsound.log, le_rfl, hsound.nodup, hsound.gets, hsound.drains⟩, fun t => ?_, fun _ => rfl,
      fun i hi => ?_, hs.acked.trans hlt.le, hcovered _ (fun i hi hacked => ?_) _⟩
    · -- the commit has not been told of
      refine Viewer.InSync.mono (fun i hi => ?_) (hsync t)
      obtain ⟨hi, hnot⟩ := hi
      simp only [List.mem_append, List.mem_singleton, not_or] at hnot
      have hi : i < s.viewer.log.now + 1 := by simpa using hi
      exact ⟨by omega, hnot.1⟩
    · rcases List.mem_append.mp hi with hi | hi
      · exact (hs.missed i hi).trans hlt
      · rw [List.mem_singleton.mp hi, ← hupTo]
        exact hlt
    · rcases List.mem_append.mp hi with hi | hi
      · exact hi
      · have := hs.acked
        rw [List.mem_singleton.mp hi] at hacked
        omega

/-- A page or an answer more: what was promised is still promised, or has been learnt of. -/
theorem promised_next {a : ViewAct} {v : Viewer} (ha : ∀ c, a ≠ .commit c) (hv : Viewer.next currentUserId a s.viewer = some v) {i : Nat}
    (hi : i ∈ s.unread a) (hlt : i < s.viewer.log.now) (h : s.Promised i) :
    Promised { s with viewer := v, missed := s.unread a } i := by
  refine h.imp_right (Or.imp_right ?_)
  rintro ⟨d, hd, hcursor, hread⟩
  cases a with
  | commit c => exact absurd rfl (ha c)
  | deliver =>
    obtain ⟨c, _, rfl⟩ := Viewer.next_deliver hv
    obtain ⟨timers, heq, _⟩ :=
      Viewer.onEvent_eq currentUserId { s.viewer with upTo := s.viewer.upTo + 1 } c
    simp only [heq]
    exact ⟨d, hd, hcursor, hread⟩
  | fire t => obtain rfl := Viewer.next_fire hv; exact ⟨d, hd, hcursor, hread⟩
  | readTask k => obtain ⟨_, _, rfl⟩ := Viewer.next_readTask hv; exact ⟨d, hd, hcursor, hread⟩
  | applyTask k => obtain ⟨_, _, _, rfl⟩ := Viewer.next_applyTask hv; exact ⟨d, hd, hcursor, hread⟩
  | startDrain => cases hv; exact ⟨d, List.mem_append_left _ hd, hcursor, hread⟩
  | readPage k =>
    obtain ⟨cursor, resync, hk, rfl⟩ := Viewer.next_readPage hv
    rcases mem_or_mem_set hk hd with rfl | hd
    · exact ⟨_, mem_set_self hk, hcursor, fun n hn => Option.some.inj hn ▸ hlt⟩
    · exact ⟨d, hd, hcursor, hread⟩
  | applyPage k =>
    obtain ⟨d', n, drains, hk, hn, rfl, hdrains⟩ := Viewer.next_applyPage hv
    have hne : d ≠ d' := by
      rintro rfl
      obtain ⟨cursor, readAt, resync⟩ := d
      obtain rfl : cursor = none := hcursor
      obtain rfl : readAt = some n := hn
      rw [unread, hk] at hi
      have hge := of_decide_eq_true (List.mem_filter.mp hi).2
      exact absurd (hread n rfl) (by omega)
    refine ⟨d, ?_, hcursor, hread⟩
    rcases hdrains with ⟨rfl, _⟩ | ⟨c, _, rfl⟩
    · exact (mem_or_mem_eraseIdx hk hd).resolve_left hne
    · exact (mem_or_mem_set hk hd).resolve_left hne

theorem next_view {a : ViewAct} (ha : ∀ c, a ≠ .commit c)
    (hn : next currentUserId (.view a) s = some s') :
    ∃ v, Viewer.next currentUserId a s.viewer = some v ∧
      { s with viewer := v, missed := s.unread a } = s' := by
  cases a with
  | commit c => exact absurd rfl (ha c)
  | _ => exact Option.map_eq_some_iff.mp hn

theorem unread_subset (s : Session) (a : ViewAct) : ∀ i ∈ s.unread a, i ∈ s.missed := by
  intro i hi
  unfold unread at hi
  split at hi
  · split at hi
    · exact (List.mem_filter.mp hi).1
    · exact hi
  · exact hi

/-- What the client has been told of after a step is what it was told of before, or what the step told
it. -/
theorem told_next {a : ViewAct} {v : Viewer} (ha : ∀ c, a ≠ .commit c)
    (hv : Viewer.next currentUserId a s.viewer = some v) {i : Nat}
    (hi : Told { s with viewer := v, missed := s.unread a } i) :
    s.Told i ∨ s.viewer.learns a i := by
  obtain ⟨hi, hnot⟩ := hi
  rcases (Viewer.next_frame hv ha).2 with hupTo | ⟨rfl, hupTo, _⟩
  · have hi : i < s.viewer.upTo := hi.trans_eq hupTo
    by_cases hmem : i ∈ s.missed
    · -- only a first page takes a commit off the list
      right
      revert hnot
      unfold unread
      split
      · split
        · rename_i k n resync hk
          intro hnot
          have hlt : i < n := by
            by_contra hge
            exact hnot (List.mem_filter.mpr ⟨hmem, decide_eq_true (Nat.le_of_not_lt hge)⟩)
          exact ⟨_, n, hk, rfl, rfl, hlt⟩
        · exact fun hnot => absurd hmem hnot
      · exact fun hnot => absurd hmem hnot
    · exact .inl ⟨hi, hmem⟩
  · rcases Nat.lt_succ_iff_lt_or_eq.mp (hi.trans_eq hupTo) with hi | rfl
    · exact .inl ⟨hi, hnot⟩
    · exact .inr rfl

theorem view_inv {a : ViewAct} (hs : s.Inv) (ha : ∀ c, a ≠ .commit c) (hplain : a.Plain)
    (hok : s.viewer.Fresh s.Told a)
    (hn : next currentUserId (.view a) s = some s') : s'.Inv := by
  obtain ⟨v, hv, rfl⟩ := next_view ha hn
  obtain ⟨hlog, hupTo⟩ := Viewer.next_frame hv ha
  have hle : s.viewer.upTo ≤ v.upTo := by
    rcases hupTo with h | ⟨_, h, _⟩ <;> omega
  refine ⟨hs.viewer.next hplain hv, fun t => ?_, fun hroom => ?_, fun i hi => ?_, hs.acked.trans hle,
    fun i hi hacked c hc => ?_⟩
  · exact (Viewer.inSync_next hs.viewer (hs.inSync t) (fun i hi => hi.1) hok hv).mono
      fun i => told_next ha hv
  · have hout := hs.outside hroom
    rcases hupTo with h | ⟨_, _, hlt⟩
    · change v.upTo = v.log.now
      rw [h, hout, hlog]
    · omega
  · exact (hs.missed i (unread_subset s a i hi)).trans_le hle
  · have hlt := hs.missed i (unread_subset s a i hi)
    have hc' : s.viewer.log.commits[i]? = some c := hlog ▸ hc
    exact (hs.covered i (unread_subset s a i hi) hacked c hc').imp_right
      (promised_next ha hv hi (hlt.trans_le hs.viewer.upTo))

theorem disconnect_inv (hs : s.Inv) (hn : next currentUserId .disconnect s = some s') : s'.Inv := by
  simp only [next] at hn
  split at hn
  · cases hn
  · cases hn
    have hle := hs.viewer.upTo
    have hlost : ∀ i, i ∈ List.range' s.viewer.upTo (s.viewer.log.now - s.viewer.upTo) ↔
        s.viewer.upTo ≤ i ∧ i < s.viewer.log.now := by
      intro i
      rw [List.mem_range'_1]
      omega
    refine ⟨⟨hs.viewer.log, le_rfl, hs.viewer.nodup, hs.viewer.gets, hs.viewer.drains⟩, fun t => ?_,
      fun _ => rfl, fun i hi => ?_, hs.acked.trans hle, fun i hi hacked => ?_⟩
    · refine Viewer.InSync.mono (fun i hi => ?_) (hs.inSync t)
      obtain ⟨hi, hnot⟩ := hi
      rw [List.mem_append, not_or, hlost] at hnot
      exact ⟨Nat.lt_of_not_le fun hge => hnot.2 ⟨hge, hi⟩, hnot.1⟩
    · rcases List.mem_append.mp hi with hi | hi
      · exact (hs.missed i hi).trans_le hle
      · exact ((hlost i).mp hi).2
    · rcases List.mem_append.mp hi with hi | hi
      · exact hs.covered i hi hacked
      · exact absurd (hacked.trans_le hs.acked) (Nat.not_lt.mpr ((hlost i).mp hi).1)

/-- A resync that starts has its first page still to read. -/
theorem runResync_inv (hs : s.Inv) : (runResync { s with resyncTimer := none }).Inv where
  viewer := hs.viewer.add_drain rfl
  inSync := by
    intro taskId
    refine (hs.inSync taskId).imp_right fun ⟨hnone, hcoming⟩ => ⟨hnone, hcoming.imp_right ?_⟩
    rintro ⟨d, hd, hcovers⟩
    exact ⟨d, List.mem_append_left _ hd, hcovers⟩
  outside := hs.outside
  missed := hs.missed
  acked := hs.acked
  covered := fun _ _ _ _ _ => .inr (.inr (.inr
    ⟨⟨none, none, true⟩, List.mem_append_right _ List.mem_cons_self, rfl, nofun⟩))

theorem next_inv {a : SessionAct} (hs : s.Inv) (hok : s.Ok a)
    (hn : next currentUserId a s = some s') : s'.Inv := by
  cases a with
  | view a =>
    by_cases ha : ∀ c, a ≠ .commit c
    · exact view_inv hs ha hok.1 hok.2 hn
    · simp only [ne_eq, not_forall, not_not] at ha
      obtain ⟨c, rfl⟩ := ha
      exact commit_inv hs hok.1 hn
  | tick ms => cases hn; exact hs.same rfl rfl rfl id rfl rfl
  | reveal =>
    simp only [next] at hn
    split at hn
    · cases hn; exact hs.same rfl rfl rfl id rfl rfl
    · cases hn
  | connect =>
    simp only [next] at hn
    split at hn
    · rename_i hdown
      cases hn
      exact hs.same rfl rfl rfl (fun _ => by rw [hdown.1]; rfl) rfl rfl
    · cases hn
  | enterRoom =>
    simp only [next] at hn
    split at hn
    · cases hn; exact hs.same rfl rfl rfl nofun rfl rfl
    · cases hn
  | answer =>
    simp only [next] at hn
    split at hn
    · cases hn; exact hs.same rfl rfl rfl nofun rfl rfl
    · cases hn
  | acknowledge =>
    simp only [next] at hn
    split at hn
    · rename_i n hlink
      split at hn
      · rename_i hn'
        cases hn
        exact requestResync_inv hs.viewer hs.inSync nofun hs.missed hn' fun hf => hok hf n hlink
      · cases hn
    · cases hn
  | disconnect => exact disconnect_inv hs hn
  | resync =>
    simp only [next] at hn
    split at hn
    · split at hn
      · cases hn
        exact runResync_inv hs
      · cases hn
    · cases hn
  | resyncDone =>
    simp only [next] at hn
    split at hn
    · cases hn
      unfold resyncDone
      split
      · rename_i hqueued
        exact requestResync_inv hs.viewer hs.inSync hs.outside hs.missed hs.acked
          fun hf => hok hf hqueued
      · exact hs.same rfl rfl rfl id rfl rfl
    · cases hn

section Tests

/-- Answers are applied at once, and no resync is dropped while a commit is missed. -/
def nothingMissed (s : Session) : SessionAct → Bool
  | .view a => s.viewer.readLast a
  | .acknowledge | .resyncDone => !s.isFresh || s.missed.isEmpty
  | _ => true

theorem nothingMissed_ok {s : Session} {a : SessionAct} (h : nothingMissed s a = true) : s.Ok a := by
  have hcovered : ∀ s' : Session, s'.missed = s.missed → (!s.isFresh || s.missed.isEmpty) = true →
      s.isFresh = true → ∀ n, s'.Covered n := by
    intro s' hmissed h hfresh n i hi
    rw [hfresh, Bool.not_true, Bool.false_or, List.isEmpty_iff] at h
    rw [hmissed, h] at hi
    cases hi
  cases a with
  | view a => exact ⟨Viewer.readLast_plain h, Viewer.readLast_ok (fun _ hi => hi.1) h⟩
  | acknowledge => exact fun hfresh n _ => hcovered s rfl h hfresh n
  | resyncDone => exact fun hfresh _ => hcovered { s with resyncQueued := false } rfl h hfresh _
  | _ => trivial

abbrev twoTasks : List Card := [⟨js "s", js "c", 1000⟩, ⟨js "t", js "c", 2000⟩]

/-- The initial load and the first join. -/
def load : List SessionAct :=
  [.view (.readPage 0), .view (.applyPage 0), .reveal, .connect, .enterRoom, .answer, .acknowledge]

/-- A task is moved while the connection is down; the next join has the board drained again. -/
def movedWhileDown : List SessionAct :=
  load ++ [.tick 5000, .disconnect, .view (.commit ⟨.moved (js "t") (js "d") 1000 [], js "v"⟩), .connect,
    .enterRoom, .answer, .acknowledge, .tick 400, .resync, .view (.readPage 0), .view (.applyPage 0),
    .resyncDone]

/-- A task is moved between the read of the initial load and the first join. -/
def movedBeforeJoin : List SessionAct :=
  [.view (.readPage 0), .view (.commit ⟨.moved (js "t") (js "d") 1000 [], js "v"⟩), .view (.applyPage 0),
    .reveal, .connect, .enterRoom, .answer, .acknowledge]

end Tests

end Steps
end Session
end Web
end Kurul
