import Kurul.Realtime.Tab

/-!
# Kurul.Realtime.TabInv

What holds of a tab whatever happens: `roomHolders` counts the mounted hooks, what waits for a
connection are leaves, nobody is let in before the session lookup, and the list that an eviction reads
names every notification room the socket is in.
-/

namespace Kurul

def ClientMsg.target : ClientMsg → JoinTarget
  | .join target _ => target
  | .leave target => target

def ClientMsg.isJoin : ClientMsg → Bool
  | .join _ _ => true
  | .leave _ => false

/-! ## What a clean-up does -/

section Unmount

variable (t : Tab) (hook : Hook)

@[simp] theorem unmount_up : (t.unmount hook).up = t.up := by
  simp only [Tab.unmount, Tab.emit]
  split
  · split <;> rfl
  · rfl

@[simp] theorem unmount_data : (t.unmount hook).data = t.data := by
  simp only [Tab.unmount, Tab.emit]
  split
  · split <;> rfl
  · rfl

@[simp] theorem unmount_lookup : (t.unmount hook).lookup = t.lookup := by
  simp only [Tab.unmount, Tab.emit]
  split
  · split <;> rfl
  · rfl

@[simp] theorem unmount_handlers : (t.unmount hook).handlers = t.handlers := by
  simp only [Tab.unmount, Tab.emit]
  split
  · split <;> rfl
  · rfl

@[simp] theorem unmount_toClient : (t.unmount hook).toClient = t.toClient := by
  simp only [Tab.unmount, Tab.emit]
  split
  · split <;> rfl
  · rfl

@[simp] theorem unmount_connected :
    (t.unmount hook).connected = t.connected.filter fun id => id ≠ hook.id := by
  simp only [Tab.unmount, Tab.emit]
  split
  · split <;> rfl
  · rfl

@[simp] theorem unmount_hooks :
    (t.unmount hook).hooks = otherHooks t.hooks hook.id := by
  simp only [Tab.unmount, Tab.emit]
  split
  · split <;> rfl
  · rfl

@[simp] theorem unmount_roomHolders : (t.unmount hook).roomHolders = (t.release hook).2 := rfl

@[simp] theorem unmount_toServer : (t.unmount hook).toServer =
    if (t.release hook).1 && t.up then t.toServer ++ [.leave hook.target] else t.toServer := by
  simp only [Tab.unmount, Tab.emit]
  cases (t.release hook).1 <;> cases t.up <;> rfl

@[simp] theorem unmount_sendBuffer : (t.unmount hook).sendBuffer =
    if (t.release hook).1 && !t.up then t.sendBuffer ++ [.leave hook.target] else t.sendBuffer := by
  simp only [Tab.unmount, Tab.emit]
  cases (t.release hook).1 <;> cases t.up <;> rfl

end Unmount

/-! ## The tab's books -/

/-- How many mounted hooks hold a notification room. -/
def holders (hooks : List Hook) (workspaceId : Id) : Nat :=
  hooks.countP fun h => h.target = .notifications workspaceId

theorem holders_pos {hooks : List Hook} {workspaceId : Id} :
    0 < holders hooks workspaceId ↔ ∃ h ∈ hooks, h.target = .notifications workspaceId := by
  simp [holders, List.countP_pos_iff]

/-- One hook goes. -/
theorem holders_unmount {hooks : List Hook} {hook : Hook} (hnd : (hooks.map Hook.id).Nodup)
    (hmem : hook ∈ hooks) (workspaceId : Id) :
    holders (otherHooks hooks hook.id) workspaceId +
      (if hook.target = .notifications workspaceId then 1 else 0) = holders hooks workspaceId := by
  unfold holders otherHooks
  induction hooks with
  | nil => cases hmem
  | cons h rest ih =>
    rw [List.map_cons, List.nodup_cons] at hnd
    rcases List.mem_cons.mp hmem with rfl | hmem
    · have hrest : rest.filter (fun h => h.id ≠ hook.id) = rest := by
        refine List.filter_eq_self.mpr fun h hh => ?_
        simp only [ne_eq, decide_not, Bool.not_eq_true', decide_eq_false_iff_not]
        exact fun heq => hnd.1 (heq ▸ List.mem_map_of_mem hh)
      rw [List.filter_cons_of_neg (by simp), hrest, List.countP_cons]
      simp
    · have hne : h.id ≠ hook.id := fun heq => hnd.1 (heq ▸ List.mem_map_of_mem hmem)
      rw [List.filter_cons_of_pos (by simpa using hne), List.countP_cons, List.countP_cons,
        ← ih hnd.2 hmem]
      omega

/-- `roomHolders` counts the mounted hooks. -/
def Counts (t : Tab) : Prop :=
  ∀ w, t.roomHolders.get w = if holders t.hooks w = 0 then none else some (holders t.hooks w)

theorem counts_mount {t : Tab} {hook : Hook} (h : Counts t) : Counts (t.mount hook) := by
  intro w
  have hw := h w
  have happ : holders (t.hooks ++ [hook]) w =
      holders t.hooks w + if hook.target = .notifications w then 1 else 0 := by
    simp [holders, List.countP_append, List.countP_cons]
  simp only [Tab.mount, happ]
  cases ht : hook.target with
  | board b => simpa using hw
  | notifications w' =>
    by_cases hww : w = w'
    · subst hww
      by_cases h0 : holders t.hooks w = 0
      · simp [retainRoom, hw, h0]
      · simp [retainRoom, hw, h0]
    · simpa [retainRoom, hww, Ne.symm hww] using hw

/-- What a clean-up finds: it leaves a notification room exactly if no other hook holds it. -/
theorem counts_unmount {t : Tab} {hook : Hook} (h : Counts t) (hnd : (t.hooks.map Hook.id).Nodup)
    (hmem : hook ∈ t.hooks) : Counts (t.unmount hook) ∧
      ∀ w, hook.target = .notifications w →
        ((t.release hook).1 = true ↔ holders (otherHooks t.hooks hook.id) w = 0) := by
  have hsum := holders_unmount hnd hmem
  have hrelease : ∀ w, hook.target = .notifications w →
      t.release hook = if holders (otherHooks t.hooks hook.id) w = 0
        then (true, t.roomHolders.erase w)
        else (false, t.roomHolders.set w (holders (otherHooks t.hooks hook.id) w)) := by
    intro w hw
    have hcount := hsum w
    rw [if_pos hw] at hcount
    have hget := h w
    rw [if_neg (by omega)] at hget
    simp only [Tab.release, hw, releaseRoom, hget, Option.getD_some, ← hcount, Nat.add_sub_cancel]
  refine ⟨fun w => ?_, fun w hw => ?_⟩
  · have hcount := hsum w
    rw [unmount_roomHolders, unmount_hooks]
    cases ht : hook.target with
    | board b =>
      rw [ht] at hcount
      simp only [reduceCtorEq, if_false, Nat.add_zero] at hcount
      simpa [Tab.release, ht, hcount] using h w
    | notifications w' =>
      rw [hrelease w' ht]
      by_cases hww : w = w'
      · subst hww
        split
        · simp
        · simp
      · rw [ht] at hcount
        simp only [JoinTarget.notifications.injEq, Ne.symm hww, if_false, Nat.add_zero] at hcount
        rw [hcount]
        split
        · simpa [hww] using h w
        · simpa [hww] using h w
  · rw [hrelease w hw]
    split
    · rename_i h0; simp [h0]
    · rename_i h0; simp [h0]

/-! ## What always holds of a tab -/

structure TabInv (userId : Id) (t : Tab) : Prop where
  ids : (t.hooks.map Hook.id).Nodup
  named : ∀ h ∈ t.hooks, h.target.isEmpty = false
  counts : Counts t
  /-- Only leaves are ever kept waiting, and only without a connection. -/
  buffer : t.up = true → t.sendBuffer = []
  waiting : ∀ m ∈ t.sendBuffer, m.isJoin = false
  someone : ∀ u, t.data.userId = some u → u = userId
  lookedUp : t.up = true → t.lookup = false → t.data.userId ≠ none
  /-- Before the session lookup nobody is let in. -/
  nobody : t.data.userId = none → t.data.rooms = [] ∧ t.handlers = []
  rooms : ∀ r ∈ t.data.rooms, ∃ target : JoinTarget, target.isEmpty = false ∧ r = target.room userId
  asked : ∀ h ∈ t.handlers, h.target.isEmpty = false
  recorded : ∀ w, .user w userId ∈ t.data.rooms → w ∈ t.data.notificationWorkspaces

theorem start_tabInv (userId : Id) : TabInv userId .start where
  ids := by simp [Tab.start]
  named := by simp [Tab.start]
  counts := fun w => by simp [Tab.start, holders]
  buffer := fun _ => rfl
  waiting := by simp [Tab.start]
  someone := by simp [Tab.start, SocketState.fresh]
  lookedUp := by simp [Tab.start]
  nobody := fun _ => ⟨rfl, rfl⟩
  rooms := by simp [Tab.start, SocketState.fresh]
  asked := by simp [Tab.start]
  recorded := by simp [Tab.start, SocketState.fresh]

/-- Acknowledgements and messages under way are not in the books. -/
theorem TabInv.same {userId : Id} {t t' : Tab} (ht : TabInv userId t)
    (h : (t'.hooks, t'.roomHolders, t'.up, t'.sendBuffer, t'.data, t'.lookup, t'.handlers) =
      (t.hooks, t.roomHolders, t.up, t.sendBuffer, t.data, t.lookup, t.handlers)) :
    TabInv userId t' := by
  simp only [Prod.mk.injEq] at h
  obtain ⟨h₁, h₂, h₃, h₄, h₅, h₆, h₇⟩ := h
  exact ⟨h₁ ▸ ht.ids, h₁ ▸ ht.named, fun w => by rw [h₁, h₂]; exact ht.counts w,
    by rw [h₃, h₄]; exact ht.buffer, h₄ ▸ ht.waiting, h₅ ▸ ht.someone, by rw [h₃, h₅, h₆]; exact ht.lookedUp,
    by rw [h₅, h₇]; exact ht.nobody, h₅ ▸ ht.rooms, h₇ ▸ ht.asked, h₅ ▸ ht.recorded⟩

section Steps

variable {userId : Id} {grants : JoinTarget → Option Id} {t t' : Tab} (ht : TabInv userId t)

include ht

theorem mount_tabInv {hook : Hook} (hnamed : hook.target.isEmpty = false)
    (hnew : ∀ h ∈ t.hooks, h.id ≠ hook.id) : TabInv userId (t.mount hook) where
  ids := by
    simp only [Tab.mount, List.map_append, List.map_cons, List.map_nil]
    refine List.nodup_append.mpr ⟨ht.ids, by simp, ?_⟩
    intro i hi j hj
    obtain ⟨h, hh, rfl⟩ := List.mem_map.mp hi
    rw [List.mem_singleton.mp hj]
    exact hnew h hh
  named := by
    intro h hh
    rcases List.mem_append.mp hh with hh | hh
    · exact ht.named h hh
    · rw [List.mem_singleton.mp hh]; exact hnamed
  counts := counts_mount ht.counts
  buffer := ht.buffer
  waiting := ht.waiting
  someone := ht.someone
  lookedUp := ht.lookedUp
  nobody := ht.nobody
  rooms := ht.rooms
  asked := ht.asked
  recorded := ht.recorded

theorem unmount_tabInv {hook : Hook} (hmem : hook ∈ t.hooks) : TabInv userId (t.unmount hook) where
  ids := by
    rw [unmount_hooks]
    exact ht.ids.sublist (List.filter_sublist.map _)
  named := by
    rw [unmount_hooks]
    exact fun h hh => ht.named h (List.mem_filter.mp hh).1
  counts := (counts_unmount ht.counts ht.ids hmem).1
  buffer := by
    intro hup
    rw [unmount_up] at hup
    simp [hup, ht.buffer hup]
  waiting := by
    intro m hm
    rw [unmount_sendBuffer] at hm
    split at hm
    · rcases List.mem_append.mp hm with hm | hm
      · exact ht.waiting m hm
      · rw [List.mem_singleton.mp hm]; rfl
    · exact ht.waiting m hm
  someone := by simpa using ht.someone
  lookedUp := by simpa using ht.lookedUp
  nobody := by simpa using ht.nobody
  rooms := by simpa using ht.rooms
  asked := by simpa using ht.asked
  recorded := by simpa using ht.recorded

theorem receive_tabInv (m : ClientMsg) : TabInv userId (t.receive m) := by
  cases m with
  | join target hook =>
    simp only [Tab.receive]
    split
    · exact ht.same rfl
    · rename_i hsome
      split
      · exact ht.same rfl
      · rename_i hnamed
        refine ⟨ht.ids, ht.named, ht.counts, ht.buffer, ht.waiting, ht.someone, ht.lookedUp,
          fun h => absurd h hsome, ht.rooms, fun h hh => ?_, ht.recorded⟩
        rcases List.mem_append.mp hh with hh | hh
        · exact ht.asked h hh
        · rw [List.mem_singleton.mp hh]; simpa using hnamed
  | leave target =>
    refine ⟨ht.ids, ht.named, ht.counts, ht.buffer, ht.waiting, ?_, ?_, ?_, ?_, ht.asked, ?_⟩
    · simpa [Tab.receive] using ht.someone
    · simpa [Tab.receive] using ht.lookedUp
    · intro hnone
      simp only [Tab.receive, SocketState.userId_onLeave] at hnone
      refine ⟨List.eq_nil_iff_forall_not_mem.mpr fun r hr => ?_, (ht.nobody hnone).2⟩
      have := SocketState.mem_of_mem_onLeave hr
      rw [(ht.nobody hnone).1] at this
      cases this
    · exact fun r hr => ht.rooms r (SocketState.mem_of_mem_onLeave hr)
    · intro w hw
      have hold := ht.recorded w (SocketState.mem_of_mem_onLeave hw)
      cases target with
      | board b =>
        simp only [Tab.receive, SocketState.onLeave]
        split <;> exact hold
      | notifications w' =>
        simp only [Tab.receive, SocketState.onLeave] at hw ⊢
        cases hu : t.data.userId with
        | none => simpa [hu] using hold
        | some u =>
          obtain rfl := ht.someone u hu
          simp only [hu] at hw ⊢
          split at hw
          · rename_i h0; simpa [h0] using hold
          · rename_i h0
            have hne : w ≠ w' := by
              rintro rfl
              exact (SocketState.mem_leave.mp hw).2 rfl
            simp [h0, hold, hne]

theorem settle_tabInv {h : PendingJoin} (hsome : t.data.userId ≠ none)
    (hnamed : h.target.isEmpty = false) : TabInv userId (t.settle userId grants h) := by
  simp only [Tab.settle]
  split
  · exact ht.same rfl
  · rename_i w' _
    refine ⟨ht.ids, ht.named, ht.counts, ht.buffer, ht.waiting, ?_, ?_, fun hnone => ?_, fun r hr => ?_,
      ht.asked, fun w hw => ?_⟩
    · simpa using ht.someone
    · simpa using ht.lookedUp
    · exact absurd (by simpa using hnone) hsome
    · rw [SocketState.rooms_record, SocketState.mem_join] at hr
      rcases hr with rfl | hr
      · exact ⟨h.target, hnamed, rfl⟩
      · exact ht.rooms r hr
    · rw [SocketState.rooms_record, SocketState.mem_join] at hw
      rw [SocketState.mem_notificationWorkspaces_record]
      rcases hw with hw | hw
      · have htarget : h.target = .notifications w := JoinTarget.room_inj hw.symm
        exact .inr htarget
      · exact .inl (ht.recorded w hw)

theorem next_tabInv {a : TabAct} (hs : Tab.next userId grants a t = some t') : TabInv userId t' := by
  cases a with
  | mount hook =>
    obtain ⟨hnamed, hnew, rfl⟩ := Tab.next_mount hs
    exact mount_tabInv ht hnamed hnew
  | unmount id =>
    obtain ⟨hook, hmem, _, rfl⟩ := Tab.next_unmount hs
    exact unmount_tabInv ht hmem
  | connectionUp =>
    obtain rfl := Tab.next_connectionUp hs
    exact ⟨ht.ids, ht.named, ht.counts, fun _ => rfl, by simp, by simp [SocketState.fresh], by simp,
      fun _ => ⟨rfl, rfl⟩, by simp [SocketState.fresh], by simp, by simp [SocketState.fresh]⟩
  | connectionLost =>
    obtain rfl := Tab.next_connectionLost hs
    exact ⟨ht.ids, ht.named, ht.counts, by simp, ht.waiting, by simp [SocketState.fresh], by simp,
      fun _ => ⟨rfl, rfl⟩, by simp [SocketState.fresh], by simp, by simp [SocketState.fresh]⟩
  | lookedUp =>
    obtain rfl := Tab.next_lookedUp hs
    exact ⟨ht.ids, ht.named, ht.counts, ht.buffer, ht.waiting, fun u hu => (Option.some.inj hu).symm,
      by simp, by simp, ht.rooms, ht.asked, ht.recorded⟩
  | deliver =>
    obtain ⟨m, rest, _, rfl⟩ := Tab.next_deliver hs
    exact receive_tabInv (t := { t with toServer := rest }) (ht.same rfl) m
  | answer k =>
    obtain ⟨h, hk, rfl⟩ := Tab.next_answer hs
    have hmem := List.mem_of_getElem? hk
    have hsome : t.data.userId ≠ none := by
      intro hnone
      rw [(ht.nobody hnone).2] at hmem
      cases hmem
    refine settle_tabInv (t := { t with handlers := t.handlers.eraseIdx k })
      ⟨ht.ids, ht.named, ht.counts, ht.buffer, ht.waiting, ht.someone, ht.lookedUp,
        fun hnone => absurd hnone hsome, ht.rooms, fun h hh => ht.asked h (List.mem_of_mem_eraseIdx hh),
        ht.recorded⟩ hsome (ht.asked h hmem)
  | acknowledge =>
    obtain ⟨_, _, _, rfl⟩ := Tab.next_acknowledge hs
    exact ht.same rfl

end Steps

end Kurul
