import Kurul.Realtime.TabInv

/-!
# Kurul.Realtime.HeldRooms

Which rooms a tab's socket ends up in, once nothing is in flight.

* `outcome`          — what the messages under way make of a socket's place in one room.
* `valid_client_in`  — joins that arrive after the session lookup put every hook in its room.
* `held_room_kept`   — a notification room some hook holds is never lost.
* `left_room_left`   — a room no hook holds is left, unless a leave overtook the join before it.
-/

namespace Kurul

open Lts

/-! ## Messages about one room -/

/-- Whether the socket is to be in the room once these messages are through: the last one about the
room decides, and where there is none it stays as it is. -/
def outcome (target : JoinTarget) (inside : Bool) (msgs : List ClientMsg) : Bool :=
  msgs.foldl (fun inside m => if m.target = target then m.isJoin else inside) inside

section Outcome

variable {target : JoinTarget} {b b' : Bool} {m : ClientMsg} {msgs msgs' : List ClientMsg}

@[simp] theorem outcome_nil : outcome target b [] = b := rfl

@[simp] theorem outcome_cons : outcome target b (m :: msgs) =
    outcome target (if m.target = target then m.isJoin else b) msgs := rfl

theorem outcome_append :
    outcome target b (msgs ++ msgs') = outcome target (outcome target b msgs) msgs' :=
  List.foldl_append

/-- More inside to begin with is no less inside in the end. -/
theorem outcome_mono (h : b = true → b' = true) :
    outcome target b msgs = true → outcome target b' msgs = true := by
  induction msgs generalizing b b' with
  | nil => exact h
  | cons m rest ih =>
    simp only [outcome_cons]
    refine ih fun hm => ?_
    split
    · rename_i ht; rwa [if_pos ht] at hm
    · rename_i ht; rw [if_neg ht] at hm; exact h hm

/-- Where some message is about the room, it does not matter where the socket was. -/
theorem outcome_of_mem (hm : m ∈ msgs) (ht : m.target = target) :
    outcome target b msgs = outcome target b' msgs := by
  induction msgs generalizing b b' with
  | nil => cases hm
  | cons m' rest ih =>
    simp only [outcome_cons]
    rcases List.mem_cons.mp hm with rfl | hm
    · rw [if_pos ht, if_pos ht]
    · exact ih hm

theorem outcome_of_not_mem (h : ∀ m ∈ msgs, m.target ≠ target) : outcome target b msgs = b := by
  induction msgs with
  | nil => rfl
  | cons m rest ih =>
    rw [outcome_cons, if_neg (h m List.mem_cons_self)]
    exact ih fun m' hm' => h m' (List.mem_cons_of_mem _ hm')

/-- Joins alone put the socket in every room they name. -/
theorem outcome_joins (hjoin : ∀ m ∈ msgs, m.target = target → m.isJoin = true)
    (h : b = true ∨ ∃ m ∈ msgs, m.target = target) : outcome target b msgs = true := by
  induction msgs generalizing b with
  | nil => simpa using h
  | cons m rest ih =>
    rw [outcome_cons]
    refine ih (fun m' hm' => hjoin m' (List.mem_cons_of_mem _ hm')) ?_
    split
    · rename_i ht
      exact .inl (hjoin m List.mem_cons_self ht)
    · rename_i ht
      refine h.imp_right ?_
      rintro ⟨m', hm', ht'⟩
      rcases List.mem_cons.mp hm' with rfl | hm'
      · exact absurd ht' ht
      · exact ⟨m', hm', ht'⟩

/-- Leaves alone put it in none. -/
theorem outcome_leaves (hleave : ∀ m ∈ msgs, m.isJoin = false) : outcome target false msgs = false := by
  induction msgs with
  | nil => rfl
  | cons m rest ih =>
    rw [outcome_cons, hleave m List.mem_cons_self, ite_self]
    exact ih fun m' hm' => hleave m' (List.mem_cons_of_mem _ hm')

end Outcome

/-! ## Where the socket stands -/

/-- The socket is in the room, or a handler is on its way there. -/
def Tab.inside (userId : Id) (t : Tab) (target : JoinTarget) : Bool :=
  t.handlers.any (fun h => h.target = target) || decide (target.room userId ∈ t.data.rooms)

/-- Whether the socket is to be in the room once every message under way is through. -/
def Tab.prospect (userId : Id) (t : Tab) (target : JoinTarget) : Bool :=
  outcome target (t.inside userId target) t.toServer

/-- Some mounted hook holds the room. -/
def Tab.Held (t : Tab) (target : JoinTarget) : Prop := ∃ h ∈ t.hooks, h.target = target

section Prospect

variable {userId : Id} {grants : JoinTarget → Option Id} {t : Tab} (ht : TabInv userId t)
  {target : JoinTarget}

theorem prospect_mount (hup : t.up = true) (hook : Hook) :
    (t.mount hook).prospect userId target = (decide (hook.target = target) || t.prospect userId target) := by
  have : (t.mount hook).prospect userId target =
      outcome target (t.inside userId target) (t.toServer ++ [.join hook.target hook.id]) := by
    simp [Tab.prospect, Tab.mount, hup, Tab.inside]
  rw [this, outcome_append]
  by_cases h : hook.target = target
  · simp [ClientMsg.target, ClientMsg.isJoin, h]
  · simp [ClientMsg.target, h, Tab.prospect]

theorem prospect_unmount (hup : t.up = true) (hook : Hook) :
    (t.unmount hook).prospect userId target =
      (!((t.release hook).1 && decide (hook.target = target)) && t.prospect userId target) := by
  have : (t.unmount hook).prospect userId target = outcome target (t.inside userId target)
      (if (t.release hook).1 then t.toServer ++ [.leave hook.target] else t.toServer) := by
    simp [Tab.prospect, Tab.inside, hup]
  rw [this]
  split
  · rename_i hr
    rw [outcome_append]
    by_cases h : hook.target = target
    · simp [ClientMsg.target, ClientMsg.isJoin, h, hr]
    · simp [ClientMsg.target, h, Tab.prospect]
  · rename_i hr
    simp [hr, Tab.prospect]

include ht in
/-- A new connection: what waited were leaves, and every mounted hook asks again. -/
theorem prospect_connectionUp {t' : Tab} (hs : Tab.next userId grants .connectionUp t = some t') :
    t'.prospect userId target = true ↔ t'.Held target := by
  obtain rfl := Tab.next_connectionUp hs
  have hwaiting : outcome target false t.sendBuffer = false := outcome_leaves ht.waiting
  simp only [Tab.prospect, Tab.inside, Tab.Held, List.any_nil, SocketState.fresh, List.not_mem_nil,
    decide_false, Bool.or_self, outcome_append, hwaiting]
  constructor
  · intro h
    by_contra hne
    rw [outcome_of_not_mem] at h
    · cases h
    · intro m hm ht
      obtain ⟨hook, hhook, rfl⟩ := List.mem_map.mp hm
      exact hne ⟨hook, hhook, ht⟩
  · rintro ⟨hook, hhook, rfl⟩
    refine outcome_joins (fun m hm _ => ?_) (.inr ⟨_, List.mem_map_of_mem hhook, rfl⟩)
    obtain ⟨_, _, rfl⟩ := List.mem_map.mp hm
    rfl

theorem inside_iff : t.inside userId target = true ↔
    (∃ h ∈ t.handlers, h.target = target) ∨ target.room userId ∈ t.data.rooms := by
  simp [Tab.inside]

@[simp] theorem receive_up (m : ClientMsg) : (t.receive m).up = t.up := by
  cases m with
  | join tg hook =>
    simp only [Tab.receive]
    split
    · rfl
    · split <;> rfl
  | leave tg => rfl

@[simp] theorem receive_hooks (m : ClientMsg) : (t.receive m).hooks = t.hooks := by
  cases m with
  | join tg hook =>
    simp only [Tab.receive]
    split
    · rfl
    · split <;> rfl
  | leave tg => rfl

@[simp] theorem settle_up (h : PendingJoin) : (t.settle userId grants h).up = t.up := by
  unfold Tab.settle
  split <;> rfl

@[simp] theorem settle_hooks (h : PendingJoin) : (t.settle userId grants h).hooks = t.hooks := by
  unfold Tab.settle
  split <;> rfl

@[simp] theorem settle_toServer (h : PendingJoin) :
    (t.settle userId grants h).toServer = t.toServer := by
  unfold Tab.settle
  split <;> rfl

@[simp] theorem settle_handlers (h : PendingJoin) :
    (t.settle userId grants h).handlers = t.handlers := by
  unfold Tab.settle
  split <;> rfl

@[simp] theorem settle_connected (h : PendingJoin) :
    (t.settle userId grants h).connected = t.connected := by
  unfold Tab.settle
  split <;> rfl

theorem inside_settle (h : PendingJoin) : (t.settle userId grants h).inside userId target = true ↔
    t.inside userId target = true ∨ ((grants h.target).isSome = true ∧ h.target = target) := by
  unfold Tab.settle
  cases hgrant : grants h.target with
  | none => simp [Tab.inside]
  | some w =>
    have hroom : target.room userId = h.target.room userId ↔ h.target = target :=
      ⟨fun heq => (JoinTarget.room_inj heq).symm, fun heq => heq ▸ rfl⟩
    simp only [inside_iff, SocketState.rooms_record, SocketState.mem_join, hroom, Option.isSome_some,
      true_and]
    rw [or_assoc, or_comm (a := h.target = target)]

/-- The handlers are the one that answers and the others. -/
theorem inside_eraseIdx {k : Nat} {h : PendingJoin} (hk : t.handlers[k]? = some h) :
    t.inside userId target = true ↔ h.target = target ∨
      Tab.inside userId { t with handlers := t.handlers.eraseIdx k } target = true := by
  simp only [inside_iff]
  rw [← or_assoc]
  refine or_congr_left ⟨?_, ?_⟩
  · rintro ⟨h', hh', ht'⟩
    rcases mem_or_mem_eraseIdx hk hh' with rfl | hh'
    · exact .inl ht'
    · exact .inr ⟨h', hh', ht'⟩
  · rintro (heq | ⟨h', hh', ht'⟩)
    · exact ⟨h, List.mem_of_getElem? hk, heq⟩
    · exact ⟨h', List.mem_of_mem_eraseIdx hh', ht'⟩

/-- An answer leaves the socket where its prospects had it, or outside a room it may not enter. -/
theorem prospect_answer {k : Nat} {t' : Tab} (hs : Tab.next userId grants (.answer k) t = some t') :
    (t'.prospect userId target = true → t.prospect userId target = true) ∧
      ((grants target).isSome = true → t.prospect userId target = true →
        t'.prospect userId target = true) := by
  obtain ⟨h, hk, rfl⟩ := Tab.next_answer hs
  have hsplit : t.inside userId target = true ↔ _ := inside_eraseIdx hk
  simp only [Tab.prospect, settle_toServer]
  refine ⟨outcome_mono fun hin => ?_, fun hsome => outcome_mono fun hin => ?_⟩
  · rw [inside_settle] at hin
    exact hsplit.mpr (hin.elim .inr fun h => .inl h.2)
  · rw [inside_settle]
    rcases hsplit.mp hin with rfl | hin
    · exact .inr ⟨hsome, rfl⟩
    · exact .inl hin

/-- A join that reaches a socket with a user is as good as done. -/
theorem prospect_join {tg : JoinTarget} {hook : Nat} {rest : List ClientMsg}
    (hmsg : t.toServer = .join tg hook :: rest) :
    let t' := Tab.receive { t with toServer := rest } (.join tg hook)
    (t'.prospect userId target = true → t.prospect userId target = true) ∧
      (t.data.userId ≠ none → target.isEmpty = false → t.prospect userId target = true →
        t'.prospect userId target = true) := by
  intro t'
  have hrest : t'.toServer = rest := by
    simp only [t', Tab.receive]
    split
    · rfl
    · split <;> rfl
  have hin : t'.inside userId target = true ↔ t.inside userId target = true ∨
      (t.data.userId ≠ none ∧ tg.isEmpty = false ∧ tg = target) := by
    simp only [t', Tab.receive]
    split
    · rename_i hnone; simp [Tab.inside, hnone]
    · rename_i hsome
      split
      · rename_i hempty; simp [Tab.inside, hempty]
      · rename_i hnamed
        simp only [inside_iff, List.mem_append, List.mem_singleton, or_and_right, exists_or,
          exists_eq_left]
        grind
  simp only [Tab.prospect, hrest, hmsg, outcome_cons]
  refine ⟨outcome_mono fun h => ?_, fun hsome hnamed => outcome_mono fun h => hin.mpr ?_⟩
  · rcases hin.mp h with h | ⟨_, _, rfl⟩
    · split <;> simp_all [ClientMsg.isJoin]
    · simp [ClientMsg.target, ClientMsg.isJoin]
  · by_cases htg : tg = target
    · exact .inr ⟨hsome, htg ▸ hnamed, htg⟩
    · exact .inl (by simpa [ClientMsg.target, htg] using h)

include ht

/-- What leaving one room does to the others: nothing. -/
theorem mem_onLeave_iff {tg : JoinTarget} : target.room userId ∈ (t.data.onLeave tg).rooms ↔
    target.room userId ∈ t.data.rooms ∧ tg ≠ target := by
  have hempty : target.isEmpty = true → target.room userId ∉ t.data.rooms := by
    intro he hmem
    obtain ⟨target', hnamed, heq⟩ := ht.rooms _ hmem
    rw [← JoinTarget.room_inj heq, he] at hnamed
    cases hnamed
  cases tg with
  | board b =>
    simp only [SocketState.onLeave]
    split
    · rename_i hb
      refine ⟨fun hmem => ⟨hmem, ?_⟩, fun h => h.1⟩
      rintro rfl
      exact hempty (by simp [JoinTarget.isEmpty, hb]) hmem
    · cases target <;> simp [JoinTarget.room, eq_comm]
  | notifications w =>
    simp only [SocketState.onLeave]
    split
    · rename_i hnone
      simp [(ht.nobody hnone).1]
    · rename_i u hu
      obtain rfl := ht.someone u hu
      split
      · rename_i hw
        refine ⟨fun hmem => ⟨hmem, ?_⟩, fun h => h.1⟩
        rintro rfl
        exact hempty (by simp [JoinTarget.isEmpty, hw]) hmem
      · cases target <;> simp [JoinTarget.room, eq_comm]

/-- A leave takes the socket out of the room, but not a handler that is on its way there. -/
theorem prospect_leave {tg : JoinTarget} {rest : List ClientMsg}
    (hmsg : t.toServer = .leave tg :: rest) :
    let t' := Tab.receive { t with toServer := rest } (.leave tg)
    (t.prospect userId target = true → t'.prospect userId target = true) ∧
      ((tg = target → (∃ h ∈ t.handlers, h.target = tg) → ∃ m ∈ rest, m.target = tg) →
        t'.prospect userId target = true → t.prospect userId target = true) := by
  intro t'
  have hrest : t'.toServer = rest := rfl
  have hin : t'.inside userId target = true ↔ (∃ h ∈ t.handlers, h.target = target) ∨
      (target.room userId ∈ t.data.rooms ∧ tg ≠ target) := by
    rw [inside_iff, ← mem_onLeave_iff ht]
    rfl
  simp only [Tab.prospect, hrest, hmsg, outcome_cons]
  refine ⟨outcome_mono fun h => hin.mpr ?_, fun hlater => ?_⟩
  · by_cases htg : tg = target
    · simp [ClientMsg.target, ClientMsg.isJoin, htg] at h
    · simp only [ClientMsg.target, htg, if_false] at h
      exact (inside_iff.mp h).imp_right fun hr => ⟨hr, htg⟩
  · by_cases htg : tg = target
    · simp only [ClientMsg.target, ClientMsg.isJoin, htg, if_true]
      by_cases hpending : ∃ h ∈ t.handlers, h.target = tg
      · obtain ⟨m, hm, hmt⟩ := hlater htg hpending
        rw [outcome_of_mem hm (hmt.trans htg)]
        exact id
      · have hout : t'.inside userId target = false := by
          rw [← Bool.not_eq_true, hin]
          rintro (h | h)
          · exact hpending (htg ▸ h)
          · exact h.2 htg
        rw [hout]
        exact id
    · refine outcome_mono fun h => ?_
      simp only [ClientMsg.target, htg, if_false]
      exact inside_iff.mpr ((hin.mp h).imp_right fun hr => hr.1)

end Prospect

/-! ## Runs -/

/-- No message is taken before the session lookup of its connection has answered. -/
def Authenticated (t : Tab) (a : TabAct) : Prop := a = .deliver → t.lookup = false

instance (t : Tab) (a : TabAct) : Decidable (Authenticated t a) :=
  inferInstanceAs (Decidable (_ → _))

/-- No leave is taken while a join of the same room, which the user is let into, is still at its read,
unless the room is held again or a later message is about it. -/
def NoOvertaking (grants : JoinTarget → Option Id) (t : Tab) (a : TabAct) : Prop :=
  a = .deliver → ∀ target rest, t.toServer = .leave target :: rest → (grants target).isSome = true →
    (∃ h ∈ t.handlers, h.target = target) → t.Held target ∨ ∃ m ∈ rest, m.target = target

/-- No two hooks are on one board when one of them is cleaned up. -/
def OneHookABoard (t : Tab) (a : TabAct) : Prop :=
  ∀ h ∈ t.hooks, a = .unmount h.id → ∀ b, h.target = .board b →
    ∀ h' ∈ t.hooks, h'.target = .board b → h' = h

section Steps

variable {userId : Id} {grants : JoinTarget → Option Id} {t t' : Tab} {a : TabAct}
  {target : JoinTarget} (ht : TabInv userId t)

theorem held_unmount {hook : Hook} :
    (t.unmount hook).Held target ↔ ∃ h ∈ t.hooks, h.id ≠ hook.id ∧ h.target = target := by
  simp only [Tab.Held, unmount_hooks, otherHooks, List.mem_filter, decide_eq_true_eq, and_assoc]

include ht

/-- A room is let go by the clean-up of its last hook only, and that one leaves it. -/
theorem release_of_last {hook : Hook} (hmem : hook ∈ t.hooks) (hheld : t.Held target)
    (hgone : ¬ (t.unmount hook).Held target) :
    hook.target = target ∧ (t.release hook).1 = true := by
  obtain ⟨h, hh, rfl⟩ := hheld
  have heq : h.id = hook.id := by
    by_contra hne
    exact hgone (held_unmount.mpr ⟨h, hh, hne, rfl⟩)
  obtain rfl : h = hook := List.inj_on_of_nodup_map ht.ids hh hmem heq
  refine ⟨rfl, ?_⟩
  cases htarget : h.target with
  | board b => simp [Tab.release, htarget]
  | notifications w =>
    rw [(counts_unmount ht.counts ht.ids hmem).2 w htarget]
    by_contra hpos
    obtain ⟨h', hh', ht'⟩ := holders_pos.mp (Nat.pos_of_ne_zero hpos)
    exact hgone ⟨h', by rwa [unmount_hooks], ht'.trans htarget.symm⟩

/-- A notification room is left by its last hook only, and a board as well where no two hooks share
it. -/
theorem last_of_release {hook : Hook} (hmem : hook ∈ t.hooks)
    (hone : ∀ b, hook.target = .board b → ∀ h ∈ t.hooks, h.target = .board b → h = hook)
    (hrelease : (t.release hook).1 = true) : ¬ (t.unmount hook).Held hook.target := by
  rw [held_unmount]
  rintro ⟨h, hh, hne, htarget⟩
  cases hboard : hook.target with
  | board b => exact hne (congrArg Hook.id (hone b hboard h hh (htarget.trans hboard)))
  | notifications w =>
    rw [(counts_unmount ht.counts ht.ids hmem).2 w hboard] at hrelease
    refine (holders_pos.mpr ⟨h, ?_, htarget.trans hboard⟩).ne' hrelease
    exact List.mem_filter.mpr ⟨hh, by simpa using hne⟩

/-- A room held by a hook is to be held by the socket, and stays so. -/
theorem prospect_of_held (hgrant : (grants target).isSome = true) (hok : Authenticated t a)
    (hone : ∀ h ∈ t.hooks, a = .unmount h.id → ∀ b, h.target = .board b → h.target = target →
      ∀ h' ∈ t.hooks, h'.target = .board b → h' = h)
    (hk : t.up = true → t.Held target → t.prospect userId target = true)
    (hs : Tab.next userId grants a t = some t') (hup : t'.up = true) (hheld : t'.Held target) :
    t'.prospect userId target = true := by
  cases a with
  | mount hook =>
    obtain ⟨_, _, rfl⟩ := Tab.next_mount hs
    have hup : t.up = true := hup
    rw [prospect_mount hup, Bool.or_eq_true, decide_eq_true_eq]
    obtain ⟨h, hh, htarget⟩ := hheld
    rcases List.mem_append.mp hh with hh | hh
    · exact .inr (hk hup ⟨h, hh, htarget⟩)
    · exact .inl (List.mem_singleton.mp hh ▸ htarget)
  | unmount id =>
    obtain ⟨hook, hmem, rfl, rfl⟩ := Tab.next_unmount hs
    rw [unmount_up] at hup
    obtain ⟨h, hh, _, htarget⟩ := held_unmount.mp hheld
    rw [prospect_unmount hup, hk hup ⟨h, hh, htarget⟩, Bool.and_true, Bool.not_eq_true',
      ← Bool.not_eq_true, Bool.and_eq_true, decide_eq_true_eq]
    rintro ⟨hrelease, rfl⟩
    exact last_of_release ht hmem (fun b hb => hone hook hmem rfl b hb rfl) hrelease hheld
  | connectionUp => exact (prospect_connectionUp ht hs).mpr hheld
  | connectionLost =>
    obtain rfl := Tab.next_connectionLost hs
    cases hup
  | lookedUp =>
    obtain rfl := Tab.next_lookedUp hs
    exact hk hup hheld
  | deliver =>
    obtain ⟨m, rest, hmsg, rfl⟩ := Tab.next_deliver hs
    rw [receive_up] at hup
    rw [Tab.Held, receive_hooks] at hheld
    cases m with
    | join tg hook =>
      have hnamed : target.isEmpty = false := by
        obtain ⟨h, hh, htarget⟩ := hheld
        exact htarget ▸ ht.named h hh
      exact (prospect_join hmsg).2 (ht.lookedUp hup (hok rfl)) hnamed (hk hup hheld)
    | leave tg => exact (prospect_leave ht hmsg).1 (hk hup hheld)
  | answer k =>
    refine (prospect_answer hs).2 hgrant (hk ?_ ?_)
    all_goals
      obtain ⟨h, _, rfl⟩ := Tab.next_answer hs
      simp only [settle_up, settle_hooks, Tab.Held] at hup hheld
    · exact hup
    · exact hheld
  | acknowledge =>
    obtain ⟨_, _, _, rfl⟩ := Tab.next_acknowledge hs
    exact hk hup hheld

/-- A room no hook holds is to be left, and stays so. -/
theorem prospect_of_not_held (hgrant : (grants target).isSome = true) (hok : NoOvertaking grants t a)
    (hk : t.up = true → ¬ t.Held target → t.prospect userId target = false)
    (hs : Tab.next userId grants a t = some t') (hup : t'.up = true) (hheld : ¬ t'.Held target) :
    t'.prospect userId target = false := by
  cases a with
  | mount hook =>
    obtain ⟨_, _, rfl⟩ := Tab.next_mount hs
    have hup : t.up = true := hup
    rw [prospect_mount hup, hk hup, Bool.or_false, decide_eq_false_iff_not]
    · exact fun htarget => hheld ⟨hook, List.mem_append_right _ List.mem_cons_self, htarget⟩
    · rintro ⟨h, hh, htarget⟩
      exact hheld ⟨h, List.mem_append_left _ hh, htarget⟩
  | unmount id =>
    obtain ⟨hook, hmem, _, rfl⟩ := Tab.next_unmount hs
    rw [unmount_up] at hup
    rw [prospect_unmount hup]
    by_cases hbefore : t.Held target
    · obtain ⟨htarget, hrelease⟩ := release_of_last ht hmem hbefore hheld
      simp [htarget, hrelease]
    · rw [hk hup hbefore, Bool.and_false]
  | connectionUp => rwa [← prospect_connectionUp ht hs, Bool.not_eq_true] at hheld
  | connectionLost =>
    obtain rfl := Tab.next_connectionLost hs
    cases hup
  | lookedUp =>
    obtain rfl := Tab.next_lookedUp hs
    exact hk hup hheld
  | deliver =>
    obtain ⟨m, rest, hmsg, rfl⟩ := Tab.next_deliver hs
    rw [receive_up] at hup
    rw [Tab.Held, receive_hooks] at hheld
    have hbefore := hk hup hheld
    rw [← Bool.not_eq_true] at hbefore ⊢
    cases m with
    | join tg hook => exact fun h => hbefore ((prospect_join hmsg).1 h)
    | leave tg =>
      refine fun h => hbefore ((prospect_leave ht hmsg).2 ?_ h)
      rintro rfl hpending
      exact (hok rfl tg rest hmsg hgrant hpending).resolve_left hheld
  | answer k =>
    have hbefore : t.prospect userId target = false := by
      obtain ⟨h, _, rfl⟩ := Tab.next_answer hs
      simp only [settle_up, settle_hooks, Tab.Held] at hup hheld
      exact hk hup hheld
    rw [← Bool.not_eq_true] at hbefore ⊢
    exact fun h => hbefore ((prospect_answer hs).1 h)
  | acknowledge =>
    obtain ⟨_, _, _, rfl⟩ := Tab.next_acknowledge hs
    exact hk hup hheld

/-! ## What a hook has been told -/

/-- The hook has seen an `ok`, or is on its way to one. -/
def Tab.Answering (t : Tab) (hook : Hook) : Prop :=
  .join hook.target hook.id ∈ t.toServer ∨ ⟨hook.target, hook.id⟩ ∈ t.handlers ∨
    ⟨hook.id, .ok⟩ ∈ t.toClient ∨ hook.id ∈ t.connected

theorem answering_of_mounted {hook : Hook} (hgrant : (grants hook.target).isSome = true)
    (hok : Authenticated t a)
    (hk : t.up = true → hook ∈ t.hooks → t.Answering hook)
    (hs : Tab.next userId grants a t = some t') (hup : t'.up = true) (hmem : hook ∈ t'.hooks) :
    t'.Answering hook := by
  cases a with
  | mount hook' =>
    obtain ⟨_, _, rfl⟩ := Tab.next_mount hs
    have hup : t.up = true := hup
    simp only [Tab.Answering, Tab.mount, hup, if_true, List.mem_append, List.mem_singleton]
    rcases List.mem_append.mp hmem with hmem | hmem
    · exact (hk hup hmem).imp_left .inl
    · rw [List.mem_singleton.mp hmem]
      exact .inl (.inr rfl)
  | unmount id =>
    obtain ⟨hook', _, _, rfl⟩ := Tab.next_unmount hs
    rw [unmount_up] at hup
    rw [unmount_hooks] at hmem
    obtain ⟨hmem, hne⟩ := List.mem_filter.mp hmem
    have htoServer : ∀ m ∈ t.toServer, m ∈ (t.unmount hook').toServer := by
      intro m hm
      rw [unmount_toServer]
      split
      · exact List.mem_append_left _ hm
      · exact hm
    rcases hk hup hmem with h | h | h | h
    · exact .inl (htoServer _ h)
    · exact .inr (.inl (by rwa [unmount_handlers]))
    · exact .inr (.inr (.inl (by rwa [unmount_toClient])))
    · exact .inr (.inr (.inr (by rw [unmount_connected]; exact List.mem_filter.mpr ⟨h, hne⟩)))
  | connectionUp =>
    obtain rfl := Tab.next_connectionUp hs
    exact .inl (List.mem_append_right _ (List.mem_map_of_mem hmem))
  | connectionLost =>
    obtain rfl := Tab.next_connectionLost hs
    cases hup
  | lookedUp =>
    obtain rfl := Tab.next_lookedUp hs
    exact hk hup hmem
  | deliver =>
    obtain ⟨m, rest, hmsg, rfl⟩ := Tab.next_deliver hs
    rw [receive_up] at hup
    rw [receive_hooks] at hmem
    have hsome := ht.lookedUp hup (hok rfl)
    have hnamed := ht.named hook hmem
    have hbefore := hk hup hmem
    rw [Tab.Answering, hmsg, List.mem_cons] at hbefore
    cases m with
    | leave tg => simpa [Tab.Answering, Tab.receive] using hbefore
    | join tg id =>
      simp only [Tab.Answering, Tab.receive, hsome, if_false]
      split
      · rename_i hempty
        rcases hbefore with (h | h) | h | h | h
        · simp only [ClientMsg.join.injEq] at h
          rw [h.1, hempty] at hnamed
          cases hnamed
        · exact .inl h
        · exact .inr (.inl h)
        · exact .inr (.inr (.inl (List.mem_append_left _ h)))
        · exact .inr (.inr (.inr h))
      · rcases hbefore with (h | h) | h | h | h
        · simp only [ClientMsg.join.injEq] at h
          exact .inr (.inl (List.mem_append_right _ (by simp [h])))
        · exact .inl h
        · exact .inr (.inl (List.mem_append_left _ h))
        · exact .inr (.inr (.inl h))
        · exact .inr (.inr (.inr h))
  | answer k =>
    obtain ⟨h, hidx, rfl⟩ := Tab.next_answer hs
    rw [settle_up] at hup
    rw [settle_hooks] at hmem
    have hacks : ∀ x ∈ t.toClient,
        x ∈ (Tab.settle userId grants { t with handlers := t.handlers.eraseIdx k } h).toClient := by
      intro x hx
      unfold Tab.settle
      split <;> exact List.mem_append_left _ hx
    rcases hk hup hmem with hm | hm | hm | hm
    · exact .inl (by rwa [settle_toServer])
    · rcases mem_or_mem_eraseIdx hidx hm with rfl | hm
      · obtain ⟨w, hw⟩ := Option.isSome_iff_exists.mp hgrant
        exact .inr (.inr (.inl (by simp [Tab.settle, hw])))
      · exact .inr (.inl (by rwa [settle_handlers]))
    · exact .inr (.inr (.inl (hacks _ hm)))
    · exact .inr (.inr (.inr (by rwa [settle_connected])))
  | acknowledge =>
    obtain ⟨ack, rest, hacks, rfl⟩ := Tab.next_acknowledge hs
    have hbefore := hk hup hmem
    simp only [Tab.Answering, hacks, List.mem_cons] at hbefore ⊢
    rcases hbefore with h | h | (rfl | h) | h
    · exact .inl h
    · exact .inr (.inl h)
    · exact .inr (.inr (.inr (by simp)))
    · exact .inr (.inr (.inl h))
    · refine .inr (.inr (.inr ?_))
      split
      · exact List.mem_insert_of_mem h
      · exact h

omit ht

/-- Nobody is in a room that does not let them in. -/
theorem granted_of_mem (hk : target.room userId ∈ t.data.rooms → (grants target).isSome = true)
    (hs : Tab.next userId grants a t = some t') (hmem : target.room userId ∈ t'.data.rooms) :
    (grants target).isSome = true := by
  cases a with
  | mount hook =>
    obtain ⟨_, _, rfl⟩ := Tab.next_mount hs
    exact hk hmem
  | unmount id =>
    obtain ⟨hook, _, _, rfl⟩ := Tab.next_unmount hs
    exact hk (by simpa using hmem)
  | connectionUp =>
    obtain rfl := Tab.next_connectionUp hs
    cases hmem
  | connectionLost =>
    obtain rfl := Tab.next_connectionLost hs
    cases hmem
  | lookedUp =>
    obtain rfl := Tab.next_lookedUp hs
    exact hk hmem
  | deliver =>
    obtain ⟨m, rest, _, rfl⟩ := Tab.next_deliver hs
    cases m with
    | join tg hook =>
      refine hk ?_
      revert hmem
      simp only [Tab.receive]
      split
      · exact id
      · split <;> exact id
    | leave tg => exact hk (SocketState.mem_of_mem_onLeave hmem)
  | answer k =>
    obtain ⟨h, _, rfl⟩ := Tab.next_answer hs
    unfold Tab.settle at hmem
    split at hmem
    · exact hk hmem
    · rename_i w hw
      rw [SocketState.rooms_record, SocketState.mem_join] at hmem
      rcases hmem with hroom | hmem
      · rw [JoinTarget.room_inj hroom, hw]; rfl
      · exact hk hmem
  | acknowledge =>
    obtain ⟨_, _, _, rfl⟩ := Tab.next_acknowledge hs
    exact hk hmem

end Steps

/-! ## Once nothing is in flight -/

section Tests

abbrev everywhere : JoinTarget → Option Id := fun _ => some (js "w")

/-- A board and a bell on a connection that is looked up before its messages are taken. -/
def joinAfterLookup : List TabAct :=
  [.mount ⟨0, .notifications (js "w")⟩, .connectionUp, .lookedUp, .mount ⟨1, .board (js "b")⟩,
    .deliver, .deliver, .answer 1, .answer 0, .acknowledge, .acknowledge]

/-- The join arrives while the session lookup is still running. -/
def joinBeforeLookup : List TabAct :=
  [.mount ⟨0, .board (js "b")⟩, .connectionUp, .deliver, .lookedUp, .acknowledge]

/-- The bell and the notifications page in one room, a reconnection, and the page goes while its join
is at its read. -/
def pageGoes : List TabAct :=
  [.mount ⟨0, .notifications (js "w")⟩, .connectionUp, .lookedUp, .deliver, .answer 0,
    .mount ⟨1, .notifications (js "w")⟩, .connectionLost, .connectionUp, .lookedUp, .deliver,
    .deliver, .unmount 1, .answer 1, .answer 0]

/-- From one board to another, each join through before the leave comes. -/
def switchBoards : List TabAct :=
  [.mount ⟨0, .board (js "b")⟩, .connectionUp, .lookedUp, .deliver, .answer 0, .unmount 0,
    .mount ⟨1, .board (js "c")⟩, .deliver, .deliver, .answer 0]

/-- A board is left while its join is still at its read. -/
def leaveOvertakesJoin : List TabAct :=
  [.mount ⟨0, .board (js "b")⟩, .connectionUp, .lookedUp, .deliver, .unmount 0, .deliver, .answer 0]

/-- No message before the lookup, and no clean-up. -/
def lookedUpFirst (t : Tab) : TabAct → Bool
  | .deliver => !t.lookup
  | .unmount _ => false
  | _ => true

theorem lookedUpFirst_ok {t : Tab} {a : TabAct} (h : lookedUpFirst t a = true) :
    Authenticated t a ∧ OneHookABoard t a := by
  refine ⟨?_, ?_⟩
  · rintro rfl
    simpa [lookedUpFirst] using h
  · rintro hook _ rfl
    cases h

/-- No message while a join is at its read. -/
def noneWaiting (t : Tab) (a : TabAct) : Bool := a ≠ .deliver || t.handlers.isEmpty

theorem noneWaiting_ok {t : Tab} {a : TabAct} (h : noneWaiting t a = true) :
    NoOvertaking everywhere t a := by
  rintro rfl target rest _ _ ⟨h', hh', _⟩
  simp only [noneWaiting, ne_eq, not_true, decide_false, Bool.false_or, List.isEmpty_iff] at h
  rw [h] at hh'
  cases hh'

end Tests

section Runs

variable {userId : Id} {grants : JoinTarget → Option Id} {t : Tab}

theorem reach_tabInv {ok : Tab → TabAct → Prop} (h : Reach (Tab.next userId grants) ok .start t) :
    TabInv userId t :=
  h.inv (start_tabInv userId) fun _ _ _ ht _ hs => next_tabInv ht hs

/-- With no message and no handler left, the socket is where it was to be. -/
theorem prospect_quiet (hmsgs : t.toServer = []) (hhandlers : t.handlers = []) {target : JoinTarget} :
    t.prospect userId target = true ↔ target.room userId ∈ t.data.rooms := by
  simp [Tab.prospect, hmsgs, inside_iff, hhandlers]

theorem reach_prospect {ok : Tab → TabAct → Prop} (h : Reach (Tab.next userId grants) ok .start t)
    {target : JoinTarget} (hgrant : (grants target).isSome = true)
    (hauth : ∀ t a, ok t a → Authenticated t a)
    (hone : ∀ t a, ok t a → ∀ h ∈ t.hooks, a = .unmount h.id → ∀ b, h.target = .board b →
      h.target = target → ∀ h' ∈ t.hooks, h'.target = .board b → h' = h) :
    t.up = true → t.Held target → t.prospect userId target = true := by
  have hinv := h.inv (I := fun t => TabInv userId t ∧
      (t.up = true → t.Held target → t.prospect userId target = true))
    ⟨start_tabInv userId, by simp [Tab.start]⟩
    fun t a t' ⟨ht, hk⟩ hok hs => ⟨next_tabInv ht hs,
      prospect_of_held ht hgrant (hauth t a hok) (hone t a hok) hk hs⟩
  exact hinv.2

/-- A hook whose user is let into its room ends up in the room, and knows it, if no message is taken
before the session lookup of its connection has answered. -/
theorem valid_client_in
    (h : Reach (Tab.next userId grants) (fun t a => Authenticated t a ∧ OneHookABoard t a) .start t)
    (hq : t.Quiet) {hook : Hook} (hmem : hook ∈ t.hooks)
    (hgrant : (grants hook.target).isSome = true) :
    hook.target.room userId ∈ t.data.rooms ∧ hook.id ∈ t.connected := by
  have hanswering := (h.inv (I := fun t => TabInv userId t ∧
      (t.up = true → hook ∈ t.hooks → t.Answering hook))
    ⟨start_tabInv userId, by simp [Tab.start]⟩
    fun t a t' ⟨ht, hk⟩ hok hs => ⟨next_tabInv ht hs, answering_of_mounted ht hgrant hok.1 hk hs⟩).2
  have hprospect := reach_prospect h hgrant (fun _ _ hok => hok.1)
    (fun _ _ hok h hh ha b hb _ => hok.2 h hh ha b hb) hq.up ⟨hook, hmem, rfl⟩
  refine ⟨(prospect_quiet hq.toServer hq.handlers).mp hprospect, ?_⟩
  rcases hanswering hq.up hmem with h | h | h | h
  · rw [hq.toServer] at h; cases h
  · rw [hq.handlers] at h; cases h
  · rw [hq.toClient] at h; cases h
  · exact h

/-- Two hooks that join after the lookup, both answered. -/
theorem valid_client_in_twice :
    let t := after (Tab.next (js "u") everywhere) lookedUpFirst joinAfterLookup .start
    t.hooks.length = 2 ∧
      ∀ hook ∈ t.hooks, hook.target.room (js "u") ∈ t.data.rooms ∧ hook.id ∈ t.connected := by
  refine ⟨by decide +kernel, fun hook hmem => ?_⟩
  have hrun : Reach _ _ .start (after (Tab.next (js "u") everywhere) lookedUpFirst joinAfterLookup _) :=
    reach_after (fun _ _ => lookedUpFirst_ok) (by decide +kernel)
  refine valid_client_in hrun ?_ hmem rfl
  constructor <;> decide +kernel

/-- Nobody asks again: the connection is up and looked up, and the socket is not on the board. -/
theorem valid_client_out :
    let t := after (Tab.next (js "u") everywhere) (fun _ _ => true) joinBeforeLookup .start
    Reach (Tab.next (js "u") everywhere) (fun _ _ => True) .start t ∧ t.Quiet ∧
      t.hooks = [⟨0, .board (js "b")⟩] ∧ t.data.userId = some (js "u") ∧ t.data.rooms = [] ∧
      t.connected = [] := by
  refine ⟨reach_after (fun _ _ _ => trivial) ?_, ?_, ?_, ?_, ?_, ?_⟩
  · decide +kernel
  · constructor <;> decide +kernel
  all_goals decide +kernel

/-- A notification room that a mounted hook holds is never lost, and the list that an eviction reads
names it. -/
theorem held_room_kept (h : Reach (Tab.next userId grants) Authenticated .start t) (hup : t.up = true)
    (hmsgs : t.toServer = []) (hhandlers : t.handlers = []) {workspaceId : Id}
    (hgrant : (grants (.notifications workspaceId)).isSome = true)
    (hheld : t.Held (.notifications workspaceId)) :
    .user workspaceId userId ∈ t.data.rooms ∧ workspaceId ∈ t.data.notificationWorkspaces := by
  have hprospect := reach_prospect h hgrant (fun _ _ hok => hok)
    (fun _ _ _ _ _ _ b hb htarget => by rw [hb] at htarget; cases htarget) hup hheld
  have hroom := (prospect_quiet hmsgs hhandlers).mp hprospect
  exact ⟨hroom, (reach_tabInv h).recorded workspaceId hroom⟩

theorem held_room_kept_page :
    let t := after (Tab.next (js "u") everywhere) (fun t a => decide (Authenticated t a)) pageGoes .start
    t.hooks = [⟨0, .notifications (js "w")⟩] ∧ .user (js "w") (js "u") ∈ t.data.rooms ∧
      js "w" ∈ t.data.notificationWorkspaces := by
  refine ⟨by decide +kernel, ?_⟩
  have hrun : Reach _ Authenticated .start (after (Tab.next (js "u") everywhere) _ pageGoes _) :=
    reach_after (fun _ _ => of_decide_eq_true) (by decide +kernel)
  refine held_room_kept hrun ?_ ?_ ?_ rfl ⟨⟨0, .notifications (js "w")⟩, ?_, rfl⟩
  all_goals decide +kernel

/-- The socket is in no room that no mounted hook holds any more, if no leave is taken while a join of
the same room is still at its read. -/
theorem left_room_left (h : Reach (Tab.next userId grants) (NoOvertaking grants) .start t)
    (hup : t.up = true) (hmsgs : t.toServer = []) (hhandlers : t.handlers = []) :
    ∀ r ∈ t.data.rooms, ∃ target, t.Held target ∧ r = target.room userId := by
  intro r hr
  obtain ⟨target, _, rfl⟩ := (reach_tabInv h).rooms r hr
  have hgrant := h.inv
    (I := fun t => target.room userId ∈ t.data.rooms → (grants target).isSome = true)
    (by simp [Tab.start, SocketState.fresh]) (fun _ _ _ hk _ hs => granted_of_mem hk hs) hr
  have hprospect := (h.inv (I := fun t => TabInv userId t ∧
      (t.up = true → ¬ t.Held target → t.prospect userId target = false))
    ⟨start_tabInv userId, by simp [Tab.start]⟩
    (by
      rintro t a t' ⟨ht, hk⟩ hok hs
      exact ⟨next_tabInv ht hs, prospect_of_not_held ht hgrant hok hk hs⟩)).2 hup
  refine ⟨target, ?_, rfl⟩
  by_contra hnot
  rw [← Bool.not_eq_true, prospect_quiet hmsgs hhandlers] at hprospect
  exact hprospect hnot hr

/-- On the second board only. -/
theorem left_room_left_switch :
    let t := after (Tab.next (js "u") everywhere) noneWaiting switchBoards .start
    t.data.rooms = [.board (js "c")] ∧
      ∀ r ∈ t.data.rooms, ∃ target, t.Held target ∧ r = target.room (js "u") := by
  have hrun : Reach _ (NoOvertaking everywhere) .start
      (after (Tab.next (js "u") everywhere) noneWaiting switchBoards _) :=
    reach_after (fun _ _ => noneWaiting_ok) (by decide +kernel)
  refine ⟨by decide +kernel, left_room_left hrun ?_ ?_ ?_⟩
  all_goals decide +kernel

/-- The leave finds the socket outside, and then the join lets it in for good. -/
theorem left_room_joined :
    let t := after (Tab.next (js "u") everywhere) (fun _ _ => true) leaveOvertakesJoin .start
    Reach (Tab.next (js "u") everywhere) (fun _ _ => True) .start t ∧ t.up = true ∧ t.toServer = [] ∧
      t.handlers = [] ∧ t.hooks = [] ∧ t.data.rooms = [.board (js "b")] := by
  refine ⟨reach_after (fun _ _ _ => trivial) ?_, ?_, ?_, ?_, ?_, ?_⟩
  all_goals decide +kernel

end Runs

end Kurul
