import Kurul.Account.DeletionRun
import Kurul.Workspace.Ownership

/-!
# Kurul.Account.SoleOwners

What `deleteAccount` decides before its transaction begins.

* `mem_soleOwned`                — a workspace needs a decision exactly if the user alone owns it.
* `decides_of_matchDispositions` — decisions that are accepted name each of these workspaces, once, and
  no other.
* `matchDispositions_error`      — and decisions that do are accepted.
-/

namespace Kurul
namespace AccountDeletionService

open Sql
open WorkspaceMemberService (IsOwner)

/-- The user owns the workspace, and nobody else does. -/
def SolelyOwns (db : Db) (userId workspaceId : Id) : Prop :=
  IsOwner db workspaceId userId ∧
    ∀ m ∈ rows WorkspaceMemberRow db, m.workspaceId = workspaceId → m.role = .owner → m.userId = userId

/-! ## The partition -/

section Partition

variable {db : Db} {userId workspaceId : Id}

/-- The owners of a workspace. -/
def ownersOf (db : Db) (workspaceId : Id) : List WorkspaceMemberRow :=
  (rows WorkspaceMemberRow db).filter fun m => m.workspaceId = workspaceId && m.role = .owner

theorem mem_ownersOf {m : WorkspaceMemberRow} :
    m ∈ ownersOf db workspaceId ↔
      m ∈ rows WorkspaceMemberRow db ∧ m.workspaceId = workspaceId ∧ m.role = .owner := by
  simp [ownersOf]

/-- An owner is the only one exactly if no second one is counted. -/
theorem solelyOwns_iff (hdistinct : WorkspaceMemberService.Distinct db)
    (howner : IsOwner db workspaceId userId) :
    SolelyOwns db userId workspaceId ↔ (ownersOf db workspaceId).length ≤ 1 := by
  obtain ⟨o, ho, hw, hu, hrole⟩ := id howner
  have hmem : o ∈ ownersOf db workspaceId := mem_ownersOf.mpr ⟨ho, hw, hrole⟩
  constructor
  · intro h
    have hone : ∀ m ∈ ownersOf db workspaceId, m = o := by
      intro m hm
      obtain ⟨hm, hmw, hmrole⟩ := mem_ownersOf.mp hm
      exact hdistinct m hm o ho (hmw.trans hw.symm) ((h.2 m hm hmw hmrole).trans hu.symm)
    have hnodup : (ownersOf db workspaceId).Nodup :=
      (List.Nodup.of_map _ (nodup_ids WorkspaceMemberRow db)).filter _
    have hrep := List.eq_replicate_of_mem hone
    rw [hrep] at hnodup
    exact List.nodup_replicate.mp hnodup
  · intro hle
    refine ⟨howner, fun m hm hmw hmrole => ?_⟩
    obtain ⟨x, hx⟩ : ∃ x, ownersOf db workspaceId = [x] :=
      List.length_eq_one_iff.mp (by have := List.length_pos_of_mem hmem; omega)
    have hm' : m ∈ ownersOf db workspaceId := mem_ownersOf.mpr ⟨hm, hmw, hmrole⟩
    rw [hx, List.mem_singleton] at hmem hm'
    rw [hm', ← hmem]
    exact hu

variable {env : Env kurul} {w w' : World kurul}

/-- What is counted under each workspace asked for: its owners. -/
theorem getD_countOwners {ownedIds : List Id} {id : Id} (hid : id ∈ ownedIds) :
    ((JsMap.ofEntries ((((rows WorkspaceMemberRow db).filter fun m =>
      m.workspaceId ∈ ownedIds && m.role = .owner).map WorkspaceMemberRow.workspaceId).dedup.map fun k =>
        (k, (((rows WorkspaceMemberRow db).filter fun m =>
          m.workspaceId ∈ ownedIds && m.role = .owner).filter fun m => m.workspaceId = k).length))).get
            id).getD 0 = (ownersOf db id).length := by
  rw [getD_ofEntries_counts, List.filter_filter]
  refine congrArg List.length (List.filter_congr fun m _ => ?_)
  by_cases hm : m.workspaceId = id
  · simp [hm, hid]
  · simp [hm]

/-- The owners of each workspace asked for. -/
theorem run_countOwners_ok {ownedIds : List Id} {counts : List (Id × Nat)}
    (h : (countOwners ownedIds).run env w = (.ok counts, w')) :
    w'.db = w.db ∧ ∀ id ∈ ownedIds,
      ((JsMap.ofEntries counts).get id).getD 0 = (ownersOf w.db id).length := by
  unfold countOwners at h
  split at h
  · rename_i hnil
    obtain ⟨rfl, rfl⟩ : [] = counts ∧ w = w' := by simpa using h
    rw [List.isEmpty_iff.mp hnil]
    exact ⟨rfl, fun _ hid => absurd hid List.not_mem_nil⟩
  · obtain ⟨rfl, rfl⟩ := run_query_ok h
    exact ⟨rfl, fun id hid => getD_countOwners hid⟩

/-- `isSoleOwner`, of a row of the memberships. -/
def isSoleOwner (counts : List (Id × Nat)) (row : MembershipRow) : Bool :=
  row.role = .owner && ((JsMap.ofEntries counts).get row.workspaceId).getD 0 ≤ 1

/-- The workspaces of which the user is an owner, by one read, and the only one counted, by another. -/
theorem mem_isSoleOwner {members counted : Db} {counts : List (Id × Nat)}
    (hcounts : ∀ id ∈ ((membershipsOf userId members).filter fun row => row.role = .owner).map
      MembershipRow.workspaceId, ((JsMap.ofEntries counts).get id).getD 0 = (ownersOf counted id).length)
    (id : Id) :
    id ∈ ((membershipsOf userId members).filter (isSoleOwner counts)).map MembershipRow.workspaceId ↔
      IsOwner members id userId ∧ (ownersOf counted id).length ≤ 1 := by
  have howned : ∀ row : MembershipRow, row ∈ membershipsOf userId members ∧ row.role = .owner ↔
      IsOwner members row.workspaceId userId ∧ row.role = .owner := by
    intro row
    simp only [membershipsOf, List.mem_map, mem_sortBy, List.mem_filter, decide_eq_true_eq]
    constructor
    · rintro ⟨⟨m, ⟨hm, hu⟩, rfl⟩, hrole⟩
      exact ⟨⟨m, hm, rfl, hu, hrole⟩, hrole⟩
    · rintro ⟨⟨m, hm, hw, hu, hmrole⟩, hrole⟩
      refine ⟨⟨m, ⟨hm, hu⟩, ?_⟩, hrole⟩
      rw [hw, hmrole, ← hrole]
  have hcount : ∀ row ∈ membershipsOf userId members, row.role = .owner →
      ((JsMap.ofEntries counts).get row.workspaceId).getD 0 = (ownersOf counted row.workspaceId).length := by
    intro row hrow hrole
    refine hcounts row.workspaceId (List.mem_map_of_mem (List.mem_filter.mpr ⟨hrow, ?_⟩))
    exact decide_eq_true hrole
  simp only [isSoleOwner, List.mem_map, List.mem_filter, Bool.and_eq_true, decide_eq_true_eq]
  constructor
  · rintro ⟨row, ⟨hrow, hrole, hle⟩, rfl⟩
    rw [hcount row hrow hrole] at hle
    exact ⟨((howned row).mp ⟨hrow, hrole⟩).1, hle⟩
  · rintro ⟨howner, hle⟩
    obtain ⟨hrow, hrole⟩ := (howned ⟨id, .owner⟩).mpr ⟨howner, rfl⟩
    refine ⟨⟨id, .owner⟩, ⟨hrow, hrole, ?_⟩, rfl⟩
    rw [hcount _ hrow hrole]
    exact hle

/-- The workspaces that need a decision are the ones the user alone owns. -/
theorem mem_soleOwned (hdistinct : WorkspaceMemberService.Distinct w.db) {soleOwned other : List MembershipRow}
    (h : (partitionMemberships userId).run env w = (.ok (soleOwned, other), w')) (id : Id) :
    id ∈ soleOwned.map MembershipRow.workspaceId ↔ SolelyOwns w.db userId id := by
  obtain ⟨memberships, w₁, h₁, h⟩ := Tx.run_bind_ok h
  obtain ⟨rfl, rfl⟩ := run_query_ok h₁
  obtain ⟨counts, w₂, h₂, h⟩ := Tx.run_bind_ok h
  obtain ⟨-, hcounts⟩ := run_countOwners_ok h₂
  obtain ⟨⟨rfl, -⟩, -⟩ : (_ = soleOwned ∧ _ = other) ∧ w₂ = w' := by simpa using h
  refine (mem_isSoleOwner hcounts id).trans ⟨fun hid => ?_, fun hsole => ?_⟩
  · exact (solelyOwns_iff hdistinct hid.1).mpr hid.2
  · exact ⟨hsole.1, (solelyOwns_iff hdistinct hsole.1).mp hsole⟩

end Partition

/-! ## The decisions -/

section Decisions

variable {required : List Id} {soleOwned : List MembershipRow}
  {dispositions : List WorkspaceDispositionDto} {m m' : JsMap Id WorkspaceDispositionDto}

/-- What has been decided stays. -/
theorem get_foldlM (h : dispositions.foldlM (addDisposition required) m = .ok m') {id : Id}
    {d : WorkspaceDispositionDto} (hget : m.get id = some d) : m'.get id = some d := by
  induction dispositions generalizing m with
  | nil =>
    obtain rfl : m = m' := Except.ok.inj h
    exact hget
  | cons first rest ih =>
    rw [List.foldlM_cons] at h
    cases hfirst : addDisposition required m first with
    | error e =>
      rw [hfirst] at h
      cases h
    | ok m₁ =>
      rw [hfirst] at h
      obtain ⟨hnew, -, rfl⟩ := addDisposition_ok hfirst
      refine ih h ?_
      rw [JsMap.get_set, if_neg]
      · exact hget
      · rintro rfl
        rw [hnew] at hget
        cases hget

/-- Each of the decisions is about a workspace of its own that needs one. -/
theorem of_foldlM (h : dispositions.foldlM (addDisposition required) m = .ok m') :
    (dispositions.map WorkspaceDispositionDto.workspaceId).Nodup ∧
      ∀ d ∈ dispositions, m.get d.workspaceId = none ∧ d.workspaceId ∈ required ∧
        m'.get d.workspaceId = some d := by
  induction dispositions generalizing m with
  | nil => exact ⟨List.nodup_nil, fun _ hd => absurd hd List.not_mem_nil⟩
  | cons first rest ih =>
    rw [List.foldlM_cons] at h
    cases hfirst : addDisposition required m first with
    | error e =>
      rw [hfirst] at h
      cases h
    | ok m₁ =>
      rw [hfirst] at h
      obtain ⟨hnew, hrequired, rfl⟩ := addDisposition_ok hfirst
      obtain ⟨hnodup, hrest⟩ := ih h
      have hother : ∀ d ∈ rest, d.workspaceId ≠ first.workspaceId := by
        intro d hd hid
        have hnone := (hrest d hd).1
        rw [JsMap.get_set, if_pos hid] at hnone
        cases hnone
      refine ⟨?_, List.forall_mem_cons.mpr ⟨⟨hnew, hrequired, ?_⟩, fun d hd => ?_⟩⟩
      · rw [List.map_cons, List.nodup_cons]
        refine ⟨fun hmem => ?_, hnodup⟩
        obtain ⟨d, hd, hid⟩ := List.mem_map.mp hmem
        exact hother d hd hid
      · exact get_foldlM h (by rw [JsMap.get_set, if_pos rfl])
      · obtain ⟨hnone, hreq, hget⟩ := hrest d hd
        rw [JsMap.get_set, if_neg (hother d hd)] at hnone
        exact ⟨hnone, hreq, hget⟩

theorem foldlM_ok (hnodup : (dispositions.map WorkspaceDispositionDto.workspaceId).Nodup)
    (h : ∀ d ∈ dispositions, m.get d.workspaceId = none ∧ d.workspaceId ∈ required) :
    ∃ m', dispositions.foldlM (addDisposition required) m = .ok m' := by
  induction dispositions generalizing m with
  | nil => exact ⟨m, rfl⟩
  | cons first rest ih =>
    obtain ⟨hfirst, hnodup⟩ := List.nodup_cons.mp hnodup
    obtain ⟨⟨hnew, hrequired⟩, hrest⟩ := List.forall_mem_cons.mp h
    have hadd : addDisposition required m first = .ok (m.set first.workspaceId first) := by
      simp [addDisposition, hnew, hrequired]
    rw [List.foldlM_cons, hadd]
    refine ih hnodup fun d hd => ⟨?_, (hrest d hd).2⟩
    rw [JsMap.get_set, if_neg]
    · exact (hrest d hd).1
    · rintro hid
      exact hfirst (hid ▸ List.mem_map_of_mem hd)

/-- The decisions name each workspace that needs one, once, and no other. -/
def Decides (soleOwned : List Id) (dispositions : List WorkspaceDispositionDto) : Prop :=
  (dispositions.map WorkspaceDispositionDto.workspaceId).Nodup ∧
    ∀ id, id ∈ dispositions.map WorkspaceDispositionDto.workspaceId ↔ id ∈ soleOwned

theorem decides_of_matchDispositions (h : matchDispositions soleOwned dispositions = .ok m) :
    Decides (soleOwned.map MembershipRow.workspaceId) dispositions ∧
      ∀ d ∈ dispositions, m.get d.workspaceId = some d := by
  obtain ⟨hfold, hdecided⟩ := foldlM_of_matchDispositions h
  obtain ⟨hnodup, hall⟩ := of_foldlM hfold
  refine ⟨⟨hnodup, fun id => ⟨fun hid => ?_, fun hid => ?_⟩⟩, fun d hd => (hall d hd).2.2⟩
  · obtain ⟨d, hd, rfl⟩ := List.mem_map.mp hid
    exact List.mem_eraseDups.mp (hall d hd).2.1
  · obtain ⟨row, hrow, rfl⟩ := List.mem_map.mp hid
    obtain ⟨d, hd⟩ := Option.isSome_iff_exists.mp (hdecided row hrow)
    obtain ⟨hsent, hworkspace⟩ := get_of_matchDispositions h hd
    exact List.mem_map.mpr ⟨d, hsent, hworkspace⟩

theorem matchDispositions_ok (h : Decides (soleOwned.map MembershipRow.workspaceId) dispositions) :
    ∃ m, matchDispositions soleOwned dispositions = .ok m := by
  have hrequired : ∀ d ∈ dispositions, JsMap.empty.get d.workspaceId = (none : Option WorkspaceDispositionDto) ∧
      d.workspaceId ∈ (soleOwned.map MembershipRow.workspaceId).eraseDups := fun d hd =>
    ⟨rfl, List.mem_eraseDups.mpr ((h.2 d.workspaceId).mp (List.mem_map_of_mem hd))⟩
  obtain ⟨m, hfold⟩ := foldlM_ok h.1 hrequired
  have hnone : ((soleOwned.map MembershipRow.workspaceId).eraseDups.filter fun id =>
      (m.get id).isNone) = [] := by
    refine List.filter_eq_nil_iff.mpr fun id hid => ?_
    obtain ⟨d, hd, rfl⟩ := List.mem_map.mp ((h.2 id).mpr (List.mem_eraseDups.mp hid))
    simp [((of_foldlM hfold).2 d hd).2.2]
  refine ⟨m, ?_⟩
  unfold matchDispositions
  simp only [hfold, bind, Except.bind, hnone, List.isEmpty_nil, Bool.not_true, Bool.false_eq_true,
    if_false]
  rfl

/-- Nothing else is thrown for a wrong set of decisions. -/
theorem matchDispositions_error {e : ApiError} (h : matchDispositions soleOwned dispositions = .error e) :
    ¬ Decides (soleOwned.map MembershipRow.workspaceId) dispositions := by
  intro hdecides
  obtain ⟨m, hm⟩ := matchDispositions_ok hdecides
  rw [hm] at h
  cases h

end Decisions

end AccountDeletionService
end Kurul
