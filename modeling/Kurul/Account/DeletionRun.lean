import Kurul.Account.AccountDeletion
import Kurul.Db.Within

/-!
# Kurul.Account.DeletionRun

`deleteAccount` alone, taken apart: what a call that returns has read and decided, and the transaction it
has committed.

* `get_of_matchDispositions` — a decision is one of those that were sent.
* `run_deleteAccount_ok`     — a call that returns.
* `within_redactPages`       — its loops, in a footprint that takes in one round.
-/

namespace Kurul
namespace AccountDeletionService

open Sql

/-! ## Decisions -/

section Decisions

variable {required : List Id} {soleOwned : List MembershipRow}
  {dispositions : List WorkspaceDispositionDto} {m m' : JsMap Id WorkspaceDispositionDto}
  {d d' : WorkspaceDispositionDto} {workspaceId : Id}

theorem addDisposition_ok (h : addDisposition required m d = .ok m') :
    m.get d.workspaceId = none ∧ d.workspaceId ∈ required ∧ m' = m.set d.workspaceId d := by
  unfold addDisposition at h
  split at h
  · cases h
  · rename_i hnew
    split at h
    · cases h
    · rename_i hrequired
      exact ⟨by simpa using hnew, not_not.mp hrequired, (Except.ok.inj h).symm⟩

/-- What is decided was decided before, or is among what has been sent since. -/
theorem get_of_foldlM (h : dispositions.foldlM (addDisposition required) m = .ok m')
    (hget : m'.get workspaceId = some d) :
    m.get workspaceId = some d ∨ d ∈ dispositions ∧ d.workspaceId = workspaceId := by
  induction dispositions generalizing m with
  | nil =>
    obtain rfl : m = m' := Except.ok.inj h
    exact .inl hget
  | cons first rest ih =>
    rw [List.foldlM_cons] at h
    cases hfirst : addDisposition required m first with
    | error e =>
      rw [hfirst] at h
      cases h
    | ok m₁ =>
      rw [hfirst] at h
      obtain ⟨-, -, rfl⟩ := addDisposition_ok hfirst
      rcases ih h with hbefore | ⟨hd, hid⟩
      · rw [JsMap.get_set] at hbefore
        split at hbefore
        · rename_i hid
          obtain rfl := Option.some.inj hbefore
          exact .inr ⟨List.mem_cons_self, hid.symm⟩
        · exact .inl hbefore
      · exact .inr ⟨List.mem_cons_of_mem _ hd, hid⟩

theorem foldlM_of_matchDispositions (h : matchDispositions soleOwned dispositions = .ok m) :
    dispositions.foldlM (addDisposition (soleOwned.map MembershipRow.workspaceId).eraseDups)
      JsMap.empty = .ok m ∧
    ∀ row ∈ soleOwned, (m.get row.workspaceId).isSome = true := by
  unfold matchDispositions at h
  cases hfold : dispositions.foldlM
      (addDisposition (soleOwned.map MembershipRow.workspaceId).eraseDups) JsMap.empty with
  | error e =>
    simp only [hfold] at h
    cases h
  | ok m₁ =>
    simp only [hfold] at h
    change (if _ then _ else _) = _ at h
    split at h
    · cases h
    · rename_i hnone
      obtain rfl : m₁ = m := Except.ok.inj h
      refine ⟨rfl, fun row hrow => ?_⟩
      have hdecided : ∀ id ∈ (soleOwned.map MembershipRow.workspaceId).eraseDups,
          (m₁.get id).isSome = true := by simpa [Option.isSome_iff_ne_none] using hnone
      exact hdecided _ (List.mem_eraseDups.mpr (List.mem_map_of_mem hrow))

/-- A decision is one of those that were sent. -/
theorem get_of_matchDispositions (h : matchDispositions soleOwned dispositions = .ok m)
    (hget : m.get workspaceId = some d) : d ∈ dispositions ∧ d.workspaceId = workspaceId :=
  (get_of_foldlM (foldlM_of_matchDispositions h).1 hget).resolve_left nofun

end Decisions

/-! ## Loops -/

section Loops

variable {userId : Id} {F : Footprint kurul}

theorem within_settleAll {actorId : Id} {m : JsMap Id WorkspaceDispositionDto}
    {memberships : List MembershipRow}
    (h : ∀ membership ∈ memberships, (settle userId actorId m membership).Within F) :
    (settleAll userId actorId m memberships).Within F := by
  induction memberships with
  | nil => trivial
  | cons membership rest ih =>
    obtain ⟨hfirst, hrest⟩ := List.forall_mem_cons.mp h
    exact .bind hfirst fun _ => .bind (ih hrest) fun _ => trivial

theorem within_recordDeparture (h : ∀ input, (ActivityService.record input).Within F)
    (initiatedBy : DeletionInitiator) (left : List MembershipRow) :
    (recordDeparture userId initiatedBy left).Within F := by
  induction left with
  | nil => trivial
  | cons membership rest ih => exact .bind (h _) fun _ => ih

theorem within_redactPage (h : ∀ c c' : CommentRow, F.Allows (some (.comment c)) (.put (.comment c')))
    (page : List CommentRow) : (redactPage userId page).Within F := by
  induction page with
  | nil => trivial
  | cons comment rest ih =>
    refine .bind ?_ fun _ => .bind ih fun _ => trivial
    unfold redactComment
    dsimp only
    split
    · trivial
    · exact .bind (within_update fun db c _ _ => h c _) fun _ => trivial

theorem within_redactPages (h : ∀ c c' : CommentRow, F.Allows (some (.comment c)) (.put (.comment c')))
    (pages : Nat) (cursor : Option Id) : (redactPages userId pages cursor).Within F := by
  induction pages generalizing cursor with
  | zero => trivial
  | succ pages ih =>
    refine .bind (within_query _) fun page => ?_
    split
    · trivial
    · refine .bind (within_redactPage h page) fun _ => ?_
      split
      · trivial
      · exact .bind (ih _) fun _ => trivial

end Loops

/-! ## The call -/

section Run

variable {rt : Runtime} {pages : Nat} {userId : Id} {dto : DeleteAccountDto}
  {initiatedBy : DeletionInitiator} {actorId : Option Id} {env : Env kurul} {w w' : World kurul}
  {counts : AccountDeletionCounts}

theorem readOnly_requireLiveUser (userId : Id) : (requireLiveUser userId).ReadOnly :=
  (readOnly_query _).bind fun _ => readOnly_orThrow _ _

theorem readOnly_partitionMemberships (userId : Id) : (partitionMemberships userId).ReadOnly := by
  refine (readOnly_query _).bind fun memberships => .bind ?_ fun _ => trivial
  unfold countOwners
  split
  · trivial
  · exact readOnly_query _

theorem run_requireLiveUser_ok {user : UserRow} (h : (requireLiveUser userId).run env w = (.ok user, w')) :
    user ∈ rows UserRow w.db ∧ user.id = userId ∧ user.deletedAt = none ∧ w'.db = w.db := by
  obtain ⟨found, w₁, h₁, h⟩ := Tx.run_bind_ok h
  obtain ⟨rfl, rfl⟩ := run_query_ok h₁
  obtain ⟨hsome, rfl⟩ := run_orThrow_ok h
  obtain ⟨hfound, hlive⟩ := Option.filter_eq_some_iff.mp hsome
  have hid : user.id = userId := by simpa [userScope] using List.find?_some hfound
  exact ⟨List.mem_of_find?_eq_some hfound, hid, by simpa using hlive, rfl⟩

theorem run_evictAll (env : Env kurul) (userId : Id) (workspaceIds : List Id) :
    ∀ w : World kurul, ((evictAll userId workspaceIds).run env w).2.db = w.db := by
  induction workspaceIds with
  | nil => exact fun _ => rfl
  | cons workspaceId rest ih =>
    exact fun w => ih { w with events := w.events ++ [.evicted workspaceId userId] }

/-- A call that returns has found the user alive, their address confirmed and every decision made, from
what was there when it began, and has committed its transaction on that. -/
theorem run_deleteAccount_ok
    (h : (deleteAccount rt pages userId dto initiatedBy actorId).run env w = (.ok counts, w')) :
    ∃ (user : UserRow) (soleOwned other : List MembershipRow) (m : JsMap Id WorkspaceDispositionDto)
      (deletedAt : Instant) (done : DeletionOutcome) (w₁ w₂ : World kurul),
      user ∈ rows UserRow w.db ∧ user.id = userId ∧ user.deletedAt = none ∧
      rt.toLowerCase (trim dto.confirmEmail) = rt.toLowerCase (trim user.email) ∧
      (∃ w₀ w₀', w₀.db = w.db ∧
        (partitionMemberships userId).run env w₀ = (.ok (soleOwned, other), w₀')) ∧
      matchDispositions soleOwned (dto.dispositions.getD []) = .ok m ∧ w₁.db = w.db ∧
      (deletionBody pages userId user.email initiatedBy actorId deletedAt soleOwned other m).run env w₁ =
        (.ok done, w₂) ∧ w'.db = w₂.db ∧ counts = done.counts := by
  obtain ⟨user, w₀, h₀, h⟩ := Call.run_bind_ok h
  rw [Call.run_auto] at h₀
  obtain ⟨huser, hid, hlive, hdb₀⟩ := run_requireLiveUser_ok h₀
  split at h
  · cases h
  · rename_i hconfirm
    obtain ⟨⟨soleOwned, other⟩, w₁, h₁, h⟩ := Call.run_bind_ok h
    rw [Call.run_auto] at h₁
    obtain ⟨m, w₂, h₂, h⟩ := Call.run_bind_ok h
    obtain ⟨deletedAt, w₃, h₃, h⟩ := Call.run_bind_ok h
    obtain ⟨done, w₄, h₄, h⟩ := Call.run_bind_ok h
    obtain ⟨_, w₅, h₅, hret⟩ := Call.run_bind_ok h
    have hdb₁ : w₁.db = w.db := by
      have hread := (readOnly_partitionMemberships userId).run_db env w₀
      rw [h₁, hdb₀] at hread
      exact hread
    have hmatch : matchDispositions soleOwned (dto.dispositions.getD []) = .ok m ∧ w₁ = w₂ := by
      cases hm : matchDispositions soleOwned (dto.dispositions.getD []) with
      | error e =>
        rw [hm] at h₂
        cases h₂
      | ok m' =>
        rw [hm] at h₂
        cases h₂
        exact ⟨rfl, rfl⟩
    obtain ⟨hmatch, rfl⟩ := hmatch
    rw [Call.run_auto] at h₃
    have hdb₃ : w₃.db = w₁.db := run_now_ok h₃
    obtain ⟨w₄', h₄', rfl⟩ := Call.run_transaction_ok h₄
    have hdb₅ : w₅.db = w₄'.db := by
      have hevict := run_evictAll env userId done.evictions { w₄' with stmts := w₄'.stmts + 1 }
      rw [h₅] at hevict
      exact hevict
    obtain ⟨rfl, rfl⟩ : done.counts = counts ∧ w₅ = w' := by simpa using hret
    exact ⟨user, soleOwned, other, m, deletedAt, done, w₃, w₄', huser, hid, hlive, not_not.mp hconfirm,
      ⟨w₀, w₁, hdb₀, h₁⟩, hmatch, hdb₃.trans hdb₁, h₄', hdb₅, rfl⟩

end Run

end AccountDeletionService
end Kurul
