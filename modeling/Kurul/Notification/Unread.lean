import Kurul.Db.Kept
import Kurul.Notification.NotificationService
import Kurul.Sql.Owing

/-!
# Kurul.Notification.Unread

How many unread notifications a user has in a workspace, and whose number a change of the rows moves.

* `unreadOf`  — the number, as `unreadCount` counts it.
* `changed`   — the workspaces and users whose number differs between two states.
* `Concerns`  — a write that moves the numbers of some users and of nobody else.
* `Telling`   — a transaction whose writes do.
-/

namespace Kurul

open Sql NotificationService

def unreadOf (db : Db) (workspaceId userId : Id) : Nat :=
  ((rows NotificationRow db).filter (unreadWhere workspaceId userId)).length

/-- The workspaces and users whose number of unread notifications differs. -/
def changed (before after : Db) : List (Id × Id) :=
  ((rows NotificationRow before ++ rows NotificationRow after).map fun n =>
    (n.workspaceId, n.userId)).filter fun p => unreadOf before p.1 p.2 ≠ unreadOf after p.1 p.2

theorem mem_changed {before after : Db} {workspaceId userId : Id} :
    (workspaceId, userId) ∈ changed before after ↔
      unreadOf before workspaceId userId ≠ unreadOf after workspaceId userId := by
  simp only [changed, List.mem_filter, decide_eq_true_eq, and_iff_right_iff_imp]
  intro hne
  -- one of the two numbers is not zero
  have hsome : ∀ db : Db, unreadOf db workspaceId userId ≠ 0 →
      ∃ n ∈ rows NotificationRow db, (n.workspaceId, n.userId) = (workspaceId, userId) := by
    intro db h
    obtain ⟨n, hn⟩ := List.exists_mem_of_length_pos (Nat.pos_of_ne_zero h)
    obtain ⟨hmem, hunread⟩ := List.mem_filter.mp hn
    simp only [unreadWhere, Bool.and_eq_true, decide_eq_true_eq] at hunread
    exact ⟨n, hmem, by rw [hunread.1.1, hunread.1.2]⟩
  by_cases hbefore : unreadOf before workspaceId userId = 0
  · obtain ⟨n, hn, heq⟩ := hsome after (by omega)
    exact List.mem_map.mpr ⟨n, List.mem_append_right _ hn, heq⟩
  · obtain ⟨n, hn, heq⟩ := hsome before hbefore
    exact List.mem_map.mpr ⟨n, List.mem_append_left _ hn, heq⟩

theorem changed_self (db : Db) : changed db db = [] := by
  rw [changed, List.filter_eq_nil_iff]
  simp

/-! ## Writes that move some numbers -/

/-- The row is an unread notification of the user. -/
def isUnread (workspaceId userId : Id) : Option Row → Bool
  | some (.notification n) => unreadWhere workspaceId userId n
  | _ => false

theorem unreadOf_congr {db db' : Db} {workspaceId userId : Id}
    (h : ∀ id, isUnread workspaceId userId (db'.get? ⟨.notification, id⟩) =
      isUnread workspaceId userId (db.get? ⟨.notification, id⟩)) :
    unreadOf db' workspaceId userId = unreadOf db workspaceId userId := by
  have hmem : ∀ (db : Db) (id : Id),
      id ∈ ((rows NotificationRow db).filter (unreadWhere workspaceId userId)).map Model.id ↔
        isUnread workspaceId userId (db.get? ⟨.notification, id⟩) = true := by
    intro db id
    rw [List.mem_map]
    constructor
    · intro hid
      obtain ⟨n, hn, rfl⟩ := hid
      obtain ⟨hn, hunread⟩ := List.mem_filter.mp hn
      rw [show db.get? ⟨.notification, Model.id n⟩ = some (.notification n) from get?_row hn]
      exact hunread
    · intro hunread
      cases hget : db.get? ⟨.notification, id⟩ with
      | none =>
        rw [hget] at hunread
        cases hunread
      | some v =>
        obtain ⟨n, rfl, hn, hid⟩ := (get?_eq_some (R := NotificationRow)).mp hget
        rw [hget] at hunread
        exact ⟨n, List.mem_filter.mpr ⟨hn, hunread⟩, hid⟩
  have hnodup : ∀ db : Db,
      (((rows NotificationRow db).filter (unreadWhere workspaceId userId)).map Model.id).Nodup :=
    fun db => (nodup_ids NotificationRow db).sublist (List.filter_sublist.map _)
  have hperm := (List.perm_ext_iff_of_nodup (hnodup db') (hnodup db)).mpr fun id => by
    rw [hmem, hmem, h]
  have hlength := hperm.length_eq
  rwa [List.length_map, List.length_map] at hlength

/-- A write that moves nobody's number but these users'. -/
def Concerns (users : List (Id × Id)) (db : Db) (w : Write Key Row) : Prop :=
  w.key.table = .notification → ∀ workspaceId userId, (workspaceId, userId) ∉ users →
    isUnread workspaceId userId w.row? = isUnread workspaceId userId (db.get? w.key)

section Concerns

variable {users : List (Id × Id)} {db : Db} {w : Write Key Row}

theorem concerns_of_ne (h : w.key.table ≠ .notification) : Concerns users db w :=
  fun htable => absurd htable h

theorem Concerns.congr {db' : Db} (h : Concerns users db w)
    (hget : w.key.table = .notification → db'.get? w.key = db.get? w.key) : Concerns users db' w :=
  fun htable workspaceId userId hnot => by rw [hget htable, h htable workspaceId userId hnot]

/-- A notification of one of these users, over another of theirs or under a new id. -/
theorem concerns_put {n : NotificationRow} (hn : (n.workspaceId, n.userId) ∈ users)
    (hold : ∀ n' : NotificationRow, db.get? ⟨.notification, n.id⟩ = some (.notification n') →
      (n'.workspaceId, n'.userId) ∈ users) : Concerns users db (.put (.notification n)) := by
  have hnot : ∀ {n : NotificationRow} {workspaceId userId : Id}, (n.workspaceId, n.userId) ∈ users →
      (workspaceId, userId) ∉ users → unreadWhere workspaceId userId n = false := by
    intro n workspaceId userId hmem hne
    by_contra hunread
    simp only [unreadWhere, Bool.not_eq_false, Bool.and_eq_true, decide_eq_true_eq] at hunread
    rw [hunread.1.1, hunread.1.2] at hmem
    exact hne hmem
  intro _ workspaceId userId hne
  have hput : isUnread workspaceId userId (some (.notification n)) = false := hnot hn hne
  rw [Write.row?_put, hput]
  cases hget : db.get? (Write.put (Row.notification n) : Write Key Row).key with
  | none => rfl
  | some v =>
    cases v with
    | notification n' => exact (hnot (hold n' hget) hne).symm
    | _ => rfl

/-- A notification that goes, and has been read. -/
theorem concerns_del {n : NotificationRow} (hn : n ∈ rows NotificationRow db)
    (hread : n.readAt.isSome = true) : Concerns users db (.del ⟨.notification, n.id⟩) := by
  intro _ workspaceId userId _
  rw [Write.row?_del, Write.key_del,
    show db.get? ⟨.notification, n.id⟩ = some (.notification n) from get?_row hn]
  simp [isUnread, unreadWhere, hread]

/-- Such writes move nobody else's number. -/
theorem changed_applyAll {ws : List (Write Key Row)} (h : ∀ w ∈ ws, Concerns users db w) :
    ∀ p ∈ changed db (db.applyAll ws), p ∈ users := by
  intro p hp
  by_contra hnot
  have main : ∀ (ws : List (Write Key Row)) (db' : Db), (∀ w ∈ ws, Concerns users db w) →
      (∀ id, isUnread p.1 p.2 (db'.get? ⟨.notification, id⟩) =
        isUnread p.1 p.2 (db.get? ⟨.notification, id⟩)) →
      ∀ id, isUnread p.1 p.2 ((db'.applyAll ws).get? ⟨.notification, id⟩) =
        isUnread p.1 p.2 (db.get? ⟨.notification, id⟩) := by
    intro ws
    induction ws with
    | nil => intro db' _ hsame; exact hsame
    | cons w ws ih =>
      intro db' hws hsame
      refine ih (db'.apply w) (fun w' hw' => hws w' (List.mem_cons_of_mem w hw')) fun id => ?_
      rw [Store.get?_apply]
      split
      · rename_i hkey
        rw [hws w List.mem_cons_self (by rw [← hkey]) p.1 p.2 hnot, hkey]
      · exact hsame id
  have hsame := unreadOf_congr (main ws db h fun _ => rfl)
  exact mem_changed.mp hp hsame.symm

end Concerns

/-! ## Transactions that move some numbers -/

/-- A transaction whose writes move nobody's number but these users'. -/
def Telling (users : List (Id × Id)) (own : Local kurul) (db : Db) : Prop :=
  ∀ w ∈ own.delta, Concerns users db w

section Telling

variable {users : List (Id × Id)} {own : Local kurul} {db db' : Db}

/-- The transaction has written no notification. -/
def Untold (own : Local kurul) : Prop := ∀ w ∈ own.delta, w.key.table ≠ .notification

theorem untold_empty : Untold .empty := fun w hw => by cases hw

theorem Untold.add {β : Type} {e : Effect kurul β} (h : Untold own)
    (he : ∀ w ∈ e.writes, w.key.table ≠ .notification) : Untold (own.add e) := by
  intro w hw
  rcases List.mem_append.mp hw with hw | hw
  · exact h w hw
  · exact he w hw

theorem Untold.telling (h : Untold own) (users : List (Id × Id)) (db : Db) : Telling users own db :=
  fun w hw => concerns_of_ne (h w hw)

theorem Untold.get?_view (h : Untold own) (db : Db) (id : Id) :
    (own.view db).get? ⟨.notification, id⟩ = db.get? ⟨.notification, id⟩ := by
  have hnot : ¬ own.Wrote ⟨.notification, id⟩ := by
    intro hwrote
    obtain ⟨w, hw, hkey⟩ := List.mem_map.mp hwrote
    exact h w hw (by rw [hkey])
  exact Local.get?_view_of_not_wrote hnot db

theorem telling_empty (db : Db) : Telling users .empty db := fun w hw => by cases hw

theorem Telling.held (h : Telling users own db) (hheld : own.Held db db') : Telling users own db' :=
  fun w hw => (h w hw).congr fun _ => hheld.wrote (List.mem_map_of_mem hw)

theorem Telling.add {β : Type} {e : Effect kurul β} (h : Telling users own db)
    (he : ∀ w ∈ e.writes, Concerns users db w) : Telling users (own.add e) db := by
  intro w hw
  rcases List.mem_append.mp hw with hw | hw
  · exact h w hw
  · exact he w hw

theorem Telling.changed (h : Telling users own db) : ∀ p ∈ changed db (own.view db), p ∈ users :=
  changed_applyAll h

/-- A notification under a new id, in a transaction that has written none yet. -/
theorem Untold.concerns {n : NotificationRow} (h : Untold own) (hn : (n.workspaceId, n.userId) ∈ users)
    (hnew : (own.view db).get? ⟨.notification, n.id⟩ = none) :
    Concerns users db (.put (.notification n)) := by
  rw [h.get?_view] at hnew
  exact concerns_put hn fun n' hget => by rw [hnew] at hget; cases hget

end Telling

end Kurul
