import Kurul.Db.Scope
import Kurul.Sql.Alongside

/-!
# Kurul.Db.Tenants

The workspaces as tenants of the database.

Which workspace a row is of is not a column of most rows: it is what following the references comes to.
`Homes` assigns every key its workspace once and for all, keys still to be generated among them, and a
row is `Homed` if whatever it names, but for users, is of its own workspace.

* `tenants`       — a workspace sees its own rows and every user, and holds its own.
* `Scoped`        — a `where` clause that finds rows of the workspace only.
* `stays_create` and its siblings — when a statement of the client stays with the workspace.
-/

namespace Kurul

open Sql

theorem findSome?_congr {α β : Type} {f g : α → Option β} {l : List α} (h : ∀ a ∈ l, f a = g a) :
    l.findSome? f = l.findSome? g := by
  induction l with
  | nil => rfl
  | cons a l ih =>
    rw [List.findSome?_cons, List.findSome?_cons, h a List.mem_cons_self,
      ih fun b hb => h b (List.mem_cons_of_mem a hb)]

/-- Rows of these tables are of no workspace. -/
def Table.personal : Table → Bool
  | .user | .session | .account | .verification => true
  | _ => false

/-- The workspace every row is of, present or to come. -/
structure Homes where
  home : Key → Option Id
  workspace : ∀ i, home ⟨.workspace, i⟩ = some i
  personal : ∀ k, k.table.personal = true → home k = none

namespace Homes

variable (H : Homes)

/-- Whatever the row names is of the workspace the row is of, or a user. -/
def Homed (v : Row) : Prop := ∀ r ∈ v.refs, r.1.table ≠ .user → H.home r.1 = H.home v.key

/-- Events that go to a board of the workspace, or to somebody in it. -/
def Hears (workspaceId : Id) : Event → Prop
  | .toBoard boardId w _ _ => w = workspaceId ∧ H.home ⟨.board, boardId⟩ = some workspaceId
  | .toUser w _ => w = workspaceId
  | .evicted w _ => w = workspaceId

/-- An identifier that no other workspace has a row under. -/
def Draws (workspaceId i : Id) : Prop :=
  ∀ t : Table, t.personal = false → t ≠ .workspace → H.home ⟨t, i⟩ = some workspaceId

def tenants : Tenancy kurul Id where
  sees workspaceId k := k.table = .user || H.home k = some workspaceId
  holds workspaceId k := H.home k = some workspaceId
  sees_of_holds h := by simp_all
  apart := by
    intro w w' k hne hk
    have hk' : H.home k = some w := of_decide_eq_true hk
    have huser : k.table ≠ .user := fun h => by
      have := H.personal k (by rw [h]; rfl)
      rw [this] at hk'
      cases hk'
    simp [huser, hk', hne]
  lawful := H.Homed
  draws := H.Draws
  hears := H.Hears

/-- The row is of the workspace. -/
def Of {R : Type} [Model R] (workspaceId : Id) (r : R) : Prop :=
  H.home ⟨Model.table R, Model.id r⟩ = some workspaceId ∧ H.Homed (Model.row r)

/-- The database as the workspace sees it. -/
abbrev view (workspaceId : Id) (db : Db) : Db := H.tenants.view workspaceId db

variable {H} {workspaceId : Id} {db : Db} {R : Type} [Model R]

theorem not_user_of_home {k : Key} (h : H.home k = some workspaceId) : k.table ≠ .user := by
  intro hk
  rw [H.personal k (by rw [hk]; rfl)] at h
  cases h

theorem sees_iff {k : Key} :
    H.tenants.sees workspaceId k = true ↔ k.table = .user ∨ H.home k = some workspaceId := by
  simp [tenants]

theorem holds_iff {k : Key} : H.tenants.holds workspaceId k = true ↔ H.home k = some workspaceId := by
  simp [tenants]

/-- What a row of the workspace names is of the workspace. -/
theorem Of.ref {r : R} (h : H.Of workspaceId r) {k : Key} {a : OnDelete}
    (hr : (k, a) ∈ (Model.row r).refs) (hk : k.table ≠ .user) : H.home k = some workspaceId := by
  rw [h.2 _ hr hk, Model.key_row]
  exact h.1

/-- And a row that names one of the workspace is of the workspace. -/
theorem Homed.home {v : Row} (h : H.Homed v) {k : Key} {a : OnDelete} (hr : (k, a) ∈ v.refs)
    (hk : H.home k = some workspaceId) : H.home v.key = some workspaceId :=
  (h _ hr (not_user_of_home hk)).symm.trans hk

theorem homed_of_mem (hdb : H.tenants.Lawful db) {r : R} (hr : r ∈ rows R db) : H.Homed (Model.row r) :=
  hdb _ (mem_rows.mp hr)

theorem of_mem (hdb : H.tenants.Lawful db) {r : R} (hr : r ∈ rows R db)
    (h : H.home ⟨Model.table R, Model.id r⟩ = some workspaceId) : H.Of workspaceId r :=
  ⟨h, homed_of_mem hdb hr⟩

/-! ## What is seen -/

theorem rows_view (workspaceId : Id) (db : Db) : rows R (H.view workspaceId db) =
    (rows R db).filter fun r => H.tenants.sees workspaceId ⟨Model.table R, Model.id r⟩ := by
  show (db.rows.filter fun v => H.tenants.sees workspaceId v.key).filterMap Model.ofRow = _
  rw [List.filterMap_filter, rows, List.filter_filterMap]
  refine List.filterMap_congr fun v _ => ?_
  cases hv : Model.ofRow (R := R) v with
  | none => simp
  | some r =>
    have hkey : v.key = ⟨Model.table R, Model.id r⟩ := by
      rw [Model.ofRow_eq.mp hv]
      exact Model.key_row r
    simp only [hkey]
    rfl

theorem mem_rows_seen {r : R} : r ∈ rows R (H.view workspaceId db) ↔
    r ∈ rows R db ∧ (Model.table R = .user ∨ H.home ⟨Model.table R, Model.id r⟩ = some workspaceId) := by
  rw [rows_view, List.mem_filter, sees_iff]

/-- Every user is seen, -/
theorem rows_view_user : rows UserRow (H.view workspaceId db) = rows UserRow db := by
  rw [rows_view]
  exact List.filter_eq_self.mpr fun _ _ => sees_iff.mpr (.inl rfl)

/-- and so is every row a query finds, if it finds rows of the workspace only. -/
theorem filter_view {p q : R → Bool} (hp : ∀ r ∈ rows R db, p r = true →
      H.home ⟨Model.table R, Model.id r⟩ = some workspaceId) (hq : ∀ r ∈ rows R db, q r = p r) :
    (rows R (H.view workspaceId db)).filter q = (rows R db).filter p := by
  rw [rows_view, List.filter_filter]
  refine List.filter_congr fun r hr => ?_
  rw [hq r hr]
  by_cases h : p r = true
  · simp [h, sees_iff.mpr (.inr (hp r hr h))]
  · simp [h]

theorem find?_view {p q : R → Bool} (hp : ∀ r ∈ rows R db, p r = true →
      H.home ⟨Model.table R, Model.id r⟩ = some workspaceId) (hq : ∀ r ∈ rows R db, q r = p r) :
    (rows R (H.view workspaceId db)).find? q = (rows R db).find? p := by
  rw [← List.head?_filter, ← List.head?_filter, filter_view hp hq]

theorem get?_view {k : Key} (h : k.table = .user ∨ H.home k = some workspaceId) :
    (H.view workspaceId db).get? k = db.get? k :=
  Store.get?_restrict_of (sees_iff.mpr h)

theorem byId_view {i : Id} (h : H.home ⟨Model.table R, i⟩ = some workspaceId) :
    byId R (H.view workspaceId db) i = byId R db i :=
  find?_view (fun r _ hr => by rw [of_decide_eq_true hr]; exact h) fun _ _ => rfl

theorem byId_view_user (i : Id) : byId UserRow (H.view workspaceId db) i = byId UserRow db i := by
  rw [byId, rows_view_user, byId]

theorem home_of_onBoardOf (hdb : H.tenants.Lawful db) {boardId : Id}
    (h : onBoardOf db workspaceId boardId = true) : H.home ⟨.board, boardId⟩ = some workspaceId := by
  obtain ⟨b, hb, hw⟩ := (Option.any_eq_true _ _).mp h
  obtain ⟨hmem, rfl⟩ := byId_eq_some.mp hb
  have hw : b.workspaceId = workspaceId := of_decide_eq_true hw
  exact Homed.home (v := .board b) (homed_of_mem hdb hmem) (k := ⟨.workspace, b.workspaceId⟩)
    (List.mem_singleton.mpr rfl) (by rw [H.workspace, hw])

/-- A board of the workspace is seen as one, and any other as none. -/
theorem onBoardOf_view (hdb : H.tenants.Lawful db) (boardId : Id) :
    onBoardOf (H.view workspaceId db) workspaceId boardId = onBoardOf db workspaceId boardId := by
  by_cases h : H.home ⟨.board, boardId⟩ = some workspaceId
  · rw [onBoardOf, byId_view h, onBoardOf]
  · rw [Bool.eq_false_iff.mpr fun hb => h (home_of_onBoardOf hdb hb),
      Bool.eq_false_iff.mpr fun hb => h (home_of_onBoardOf hdb.view hb)]

theorem home_of_onTaskOf (hdb : H.tenants.Lawful db) {taskId : Id}
    (h : onTaskOf db workspaceId taskId = true) : H.home ⟨.task, taskId⟩ = some workspaceId := by
  obtain ⟨t, ht, hb⟩ := (Option.any_eq_true _ _).mp h
  obtain ⟨hmem, rfl⟩ := byId_eq_some.mp ht
  exact Homed.home (v := .task t) (homed_of_mem hdb hmem) (k := ⟨.board, t.boardId⟩)
    List.mem_cons_self (home_of_onBoardOf hdb hb)

theorem onTaskOf_view (hdb : H.tenants.Lawful db) (taskId : Id) :
    onTaskOf (H.view workspaceId db) workspaceId taskId = onTaskOf db workspaceId taskId := by
  by_cases h : H.home ⟨.task, taskId⟩ = some workspaceId
  · rw [onTaskOf, byId_view (R := TaskRow) h, onTaskOf]
    simp only [onBoardOf_view hdb]
  · rw [Bool.eq_false_iff.mpr fun hb => h (home_of_onTaskOf hdb hb),
      Bool.eq_false_iff.mpr fun hb => h (home_of_onTaskOf hdb.view hb)]

/-- A row that names one of the workspace is of the workspace. -/
theorem home_of_ref (hdb : H.tenants.Lawful db) {r : R} (hr : r ∈ rows R db) {k : Key} {a : OnDelete}
    (href : (k, a) ∈ (Model.row r).refs) (hk : H.home k = some workspaceId) :
    H.home ⟨Model.table R, Model.id r⟩ = some workspaceId := by
  rw [← Model.key_row]
  exact (homed_of_mem hdb hr).home href hk

/-- The rows under one row of the workspace are all seen. -/
theorem filter_ref_view (hdb : H.tenants.Lawful db) {k : Key} {a : OnDelete} {q : R → Bool}
    (hk : H.home k = some workspaceId) (href : ∀ r, q r = true → (k, a) ∈ (Model.row r).refs) :
    (rows R (H.view workspaceId db)).filter q = (rows R db).filter q :=
  filter_view (fun _ hr hq => home_of_ref hdb hr (href _ hq) hk) fun _ _ => rfl

theorem any_ref_view (hdb : H.tenants.Lawful db) {k : Key} {a : OnDelete} {q : R → Bool}
    (hk : H.home k = some workspaceId) (href : ∀ r, q r = true → (k, a) ∈ (Model.row r).refs) :
    (rows R (H.view workspaceId db)).any q = (rows R db).any q := by
  rw [Bool.eq_iff_iff, List.any_eq_true, List.any_eq_true]
  simp only [← List.mem_filter, filter_ref_view hdb hk href]

/-! ## Constraints -/

/-- Rows that may not stand together are of one workspace. -/
theorem home_of_clashes {u v : Row} (hu : H.Homed u) (hv : H.Homed v)
    (hhome : H.home v.key = some workspaceId) (hw : v.key.table ≠ .workspace)
    (h : u.clashes v = true) : H.home u.key = some workspaceId := by
  have hshared : ∀ {k : Key}, (k, OnDelete.cascade) ∈ u.refs → (k, OnDelete.cascade) ∈ v.refs →
      k.table ≠ .user → H.home u.key = some workspaceId := fun hru hrv hk =>
    (hu _ hru hk).symm.trans ((hv _ hrv hk).trans hhome)
  cases u <;> cases v <;> simp only [Row.clashes, Bool.false_eq_true, Bool.and_eq_true,
    decide_eq_true_eq] at h
  case user.user => rw [H.personal _ rfl] at hhome; cases hhome
  case session.session => rw [H.personal _ rfl] at hhome; cases hhome
  case workspace.workspace => exact absurd rfl hw
  case workspaceMember.workspaceMember a b =>
    exact hshared (k := ⟨.workspace, a.workspaceId⟩) (by simp [Row.refs]) (by simp [Row.refs, h.1])
      (by simp)
  case taskAssignee.taskAssignee a b =>
    exact hshared (k := ⟨.task, a.taskId⟩) (by simp [Row.refs]) (by simp [Row.refs, h.1]) (by simp)
  case taskLabel.taskLabel a b =>
    exact hshared (k := ⟨.task, a.taskId⟩) (by simp [Row.refs]) (by simp [Row.refs, h.1]) (by simp)
  case notification.notification a b =>
    obtain ⟨⟨⟨_, hsome⟩, htask⟩, _⟩ := h
    obtain ⟨taskId, ha⟩ := Option.isSome_iff_exists.mp hsome
    exact hshared (k := ⟨.task, taskId⟩) (by simp [Row.refs, ha]) (by simp [Row.refs, ← htask, ha])
      (by simp)
  case usagePing.usagePing a b =>
    exact hshared (k := ⟨.workspace, a.workspaceId⟩) (by simp [Row.refs]) (by simp [Row.refs, h.1.1.2])
      (by simp)

/-- A row may be written by the workspace: it is of the workspace, and names nothing else. -/
structure MayWrite (H : Homes) (workspaceId : Id) (v : Row) : Prop where
  home : H.home v.key = some workspaceId
  homed : H.Homed v
  not_workspace : v.key.table ≠ .workspace

section Refusals

variable {v v' : Row} (hdb : H.tenants.Lawful db) (hv : H.MayWrite workspaceId v)

include hdb hv

theorem unique_view : v.unique (H.view workspaceId db) = v.unique db := by
  rw [Bool.eq_iff_iff, Row.unique, Row.unique, List.all_eq_true, List.all_eq_true]
  constructor
  · intro h u hu
    by_cases hc : u.clashes v = true
    · refine h u (List.mem_filter.mpr ⟨hu, sees_iff.mpr (.inr ?_)⟩)
      exact home_of_clashes (hdb u hu) hv.homed hv.home hv.not_workspace hc
    · simp [hc]
  · exact fun h u hu => h u (List.mem_filter.mp hu).1

omit hdb in
theorem ref_seen {k : Key} {a : OnDelete} (hr : (k, a) ∈ v.refs) :
    k.table = .user ∨ H.home k = some workspaceId := by
  by_cases hk : k.table = .user
  · exact .inl hk
  · exact .inr ((hv.homed _ hr hk).trans hv.home)

omit hdb in
theorem resolves_view : v.resolves (H.view workspaceId db) = v.resolves db := by
  have hrefs : (v.refs.all fun r => ((H.view workspaceId db).get? r.1).isSome) =
      v.refs.all fun r => (db.get? r.1).isSome := by
    rw [Bool.eq_iff_iff, List.all_eq_true, List.all_eq_true]
    exact forall₂_congr fun r hr => by rw [get?_view (ref_seen hv hr)]
  have hcomposite : v.composite (H.view workspaceId db) = v.composite db := by
    cases v with
    | task t => simp only [Row.composite, get?_view (ref_seen hv
        (show ((⟨.column, t.columnId⟩ : Key), OnDelete.cascade) ∈ (Row.task t).refs by simp [Row.refs]))]
    | _ => rfl
  rw [Row.resolves, Row.resolves, hrefs, hcomposite]

theorem insertRefusal_view : insertRefusal v (H.view workspaceId db) = insertRefusal v db := by
  rw [insertRefusal, insertRefusal, get?_view (.inr hv.home), unique_view hdb hv, resolves_view hv]

theorem updateRefusal_view (u : Row) :
    updateRefusal u v (H.view workspaceId db) = updateRefusal u v db := by
  rw [updateRefusal, updateRefusal, unique_view hdb hv, resolves_view hv]

omit hdb in
theorem MayWrite.owns : H.tenants.Owns workspaceId (.put v) :=
  ⟨holds_iff.mpr hv.home, fun _ hu => Option.some.inj hu ▸ hv.homed⟩

omit hdb in
theorem MayWrite.locks : ∀ l ∈ refLocks v, H.tenants.MayLock workspaceId l := by
  intro l hl
  obtain ⟨r, hr, rfl⟩ := List.mem_map.mp hl
  exact .inr ⟨sees_iff.mpr (ref_seen hv hr), rfl⟩

omit hdb in
theorem MayWrite.newLocks (u : Row) : ∀ l ∈ newRefLocks u v, H.tenants.MayLock workspaceId l := by
  unfold newRefLocks
  split
  · exact fun l hl => by cases hl
  · exact hv.locks

end Refusals

theorem insertManyRefusal_view {vs : List Row} (hdb : H.tenants.Lawful db)
    (hvs : ∀ v ∈ vs, H.MayWrite workspaceId v) :
    insertManyRefusal vs (H.view workspaceId db) = insertManyRefusal vs db := by
  induction vs generalizing db with
  | nil => rfl
  | cons v vs ih =>
    have hv := hvs v List.mem_cons_self
    have hput : ∀ x ∈ [(.put v : Write Key Row)], H.tenants.Owns workspaceId x := by
      intro x hx
      rw [List.mem_singleton.mp hx]
      exact hv.owns
    have hnext := ih (hdb.applyAll hput) fun u hu => hvs u (List.mem_cons_of_mem v hu)
    rw [view, Tenancy.view_applyAll hput] at hnext
    rw [insertManyRefusal, insertManyRefusal, insertRefusal_view hdb hv]
    cases insertRefusal v db with
    | some f => rfl
    | none => exact hnext

/-- What is left out as a duplicate is the same, and the rest is what there was to insert. -/
theorem insertable_view {rs : List R} (hdb : H.tenants.Lawful db)
    (hrs : ∀ r ∈ rs, H.MayWrite workspaceId (Model.row r)) :
    insertable rs (H.view workspaceId db) = insertable rs db := by
  induction rs generalizing db with
  | nil => rfl
  | cons r rs ih =>
    have hr := hrs r List.mem_cons_self
    have hrest := fun q hq => hrs q (List.mem_cons_of_mem r hq)
    have hput : ∀ x ∈ [(.put (Model.row r) : Write Key Row)], H.tenants.Owns workspaceId x := by
      intro x hx
      rw [List.mem_singleton.mp hx]
      exact hr.owns
    have hnext := ih (hdb.applyAll hput) hrest
    rw [view, Tenancy.view_applyAll hput] at hnext
    rw [insertable, insertable, insertRefusal_view hdb hr]
    cases insertRefusal (Model.row r) db with
    | some f => cases f <;> first | rfl | exact ih hdb hrest
    | none => exact congrArg (Except.map (r :: ·)) hnext

/-- A row under a new identifier that names rows of the workspace and users is of the workspace. -/
theorem of_new {r : R} (hi : H.Draws workspaceId (Model.id r))
    (hpersonal : (Model.table R).personal = false) (hworkspace : Model.table R ≠ .workspace)
    (hrefs : ∀ x ∈ (Model.row r).refs, x.1.table ≠ .user → H.home x.1 = some workspaceId) :
    H.Of workspaceId r := by
  have hhome := hi _ hpersonal hworkspace
  refine ⟨hhome, fun x hx hne => ?_⟩
  rw [hrefs x hx hne, Model.key_row, hhome]

/-! ### Deletes -/

theorem toList_filter_subset {α : Type} (o : Option α) (p : α → Bool) :
    (o.filter p).toList ⊆ o.toList := by
  intro a ha
  rw [Option.mem_toList] at ha ⊢
  exact (Option.mem_filter_iff.mp ha).1

/-- Clearing references adds none. -/
theorem refs_clear (gone : Key → Bool) (v : Row) : (references.clear gone v).refs ⊆ v.refs := by
  cases v <;> simp only [references, Row.clear, Row.refs, List.Subset.refl]
  case activity r =>
    exact List.cons_subset_cons _ (List.cons_subset_cons _
      (List.map_subset _ (toList_filter_subset r.taskId _)))
  case notification r =>
    refine List.append_subset.mpr ⟨List.subset_append_left _ _, ?_⟩
    exact List.Subset.trans (List.map_subset _ (toList_filter_subset r.activityId _))
      (List.subset_append_right _ _)

/-- A delete of rows of the workspace is the same on what the workspace sees, -/
theorem deletion_view {ks : List Key} (hdb : H.tenants.Lawful db)
    (hks : ∀ k ∈ ks, H.home k = some workspaceId) :
    (H.view workspaceId db).deletion references ks = db.deletion references ks :=
  Store.deletion_restrict (P := fun k => H.home k = some workspaceId)
    (fun v hv _ _ hr hk => (hdb v hv).home hr hk) (fun _ hk => sees_iff.mpr (.inr hk)) hks

/-- and writes rows of the workspace only. -/
theorem owns_deletion {ks : List Key} {ws : List (Write Key Row)} (hdb : H.tenants.Lawful db)
    (hks : ∀ k ∈ ks, H.home k = some workspaceId) (h : db.deletion references ks = some ws) :
    ∀ x ∈ ws, H.tenants.Owns workspaceId x := by
  have hclosed : ∀ v ∈ db.rows, ∀ k a, (k, a) ∈ references.refs v → H.home k = some workspaceId →
      H.home v.key = some workspaceId := fun v hv _ _ hr hk => (hdb v hv).home hr hk
  have hgone := Store.of_doomed (R := references) hclosed hks
  intro x hx
  rcases Store.mem_deletion h hx with ⟨v, _, hv, rfl⟩ | ⟨v, hv, _, hn, rfl⟩
  · exact ⟨holds_iff.mpr (hgone _ hv), fun u hu => by cases hu⟩
  · have hkey := references.key_clear (fun k => decide (k ∈ db.doomed references ks)) v
    refine ⟨holds_iff.mpr ?_, fun u hu => ?_⟩
    · rw [Write.key_put, hkey]
      exact Store.of_names (R := references) hclosed hgone hv hn
    · obtain rfl := Option.some.inj hu
      intro r hr hne
      rw [← keyed_key, hkey]
      exact hdb v hv r (refs_clear _ v hr) hne

/-! ## Statements -/

/-- A `where` clause that finds rows of the workspace only, and is the same on what the workspace
sees. -/
def Scoped (H : Homes) (workspaceId : Id) (p : Db → R → Bool) : Prop :=
  ∀ db, H.tenants.Lawful db → ∀ r ∈ rows R db,
    (p db r = true → H.home ⟨Model.table R, Model.id r⟩ = some workspaceId) ∧
      p (H.view workspaceId db) r = p db r

/-- Rows that name one of the workspace. -/
theorem Scoped.of_ref {p : Db → R → Bool} {a : OnDelete} (up : R → Key)
    (href : ∀ r, (up r, a) ∈ (Model.row r).refs)
    (hp : ∀ db, H.tenants.Lawful db → ∀ r, p db r = true → H.home (up r) = some workspaceId)
    (hq : ∀ db, H.tenants.Lawful db → ∀ r, p (H.view workspaceId db) r = p db r) :
    H.Scoped workspaceId p :=
  fun db hdb r hr => ⟨fun h => home_of_ref hdb hr (href r) (hp db hdb r h), hq db hdb r⟩

/-- What a query found: a row of the workspace, and one that was asked for. -/
structure Found (H : Homes) (workspaceId : Id) (p : Db → R → Bool) (r : R) : Prop where
  row : H.Of workspaceId r
  asked : ∃ db, H.tenants.Lawful db ∧ r ∈ rows R db ∧ p db r = true

theorem Found.home {p : Db → R → Bool} {r : R} (h : H.Found workspaceId p r) :
    H.home ⟨Model.table R, Model.id r⟩ = some workspaceId := h.row.1

/-- Written rows are the workspace's, unless they are the workspace's own row. -/
theorem Of.mayWrite {r : R} (h : H.Of workspaceId r) (hR : Model.table R ≠ .workspace) :
    H.MayWrite workspaceId (Model.row r) where
  home := by rw [Model.key_row]; exact h.1
  homed := h.2
  not_workspace := by rw [Model.key_row]; exact hR

section Scoped

variable {p : Db → R → Bool} (hp : H.Scoped workspaceId p) (hdb : H.tenants.Lawful db)

include hp hdb

theorem Scoped.filter : (rows R (H.view workspaceId db)).filter (p (H.view workspaceId db)) =
    (rows R db).filter (p db) :=
  filter_view (fun r hr => (hp db hdb r hr).1) fun r hr => (hp db hdb r hr).2

theorem Scoped.find? : (rows R (H.view workspaceId db)).find? (p (H.view workspaceId db)) =
    (rows R db).find? (p db) :=
  find?_view (fun r hr => (hp db hdb r hr).1) fun r hr => (hp db hdb r hr).2

theorem Scoped.found {r : R} (hr : r ∈ rows R db) (h : p db r = true) : H.Found workspaceId p r :=
  ⟨of_mem hdb hr ((hp db hdb r hr).1 h), db, hdb, hr, h⟩

end Scoped

variable {α : Type} {p : Db → R → Bool}

/-! ### Reads -/

theorem stays_query {f : Db → α} {Q : α → Prop}
    (hf : ∀ db, H.tenants.Lawful db → f (H.view workspaceId db) = f db ∧ Q (f db)) :
    (query f).Stays H.tenants workspaceId Q := by
  intro db hdb
  obtain ⟨heq, hq⟩ := hf db hdb
  refine ⟨?_, fun e he => ?_⟩
  · show Except.ok _ = Except.ok _
    rw [show f (H.tenants.view workspaceId db) = f db from heq]
  · rw [← Except.ok.inj he]
    exact ⟨⟨fun _ hx => (by cases hx), fun _ hl => (by cases hl)⟩, hq⟩

theorem stays_findFirst (hp : H.Scoped workspaceId p) :
    (findFirst p).Stays H.tenants workspaceId fun o => ∀ r, o = some r → H.Found workspaceId p r :=
  stays_query fun _ hdb => ⟨hp.find? hdb, fun _ hr =>
    hp.found hdb (List.mem_of_find?_eq_some hr) (List.find?_some hr)⟩

theorem stays_findMany (hp : H.Scoped workspaceId p) :
    (findMany p).Stays H.tenants workspaceId fun l => ∀ r ∈ l, H.Found workspaceId p r :=
  stays_query fun _ hdb => ⟨hp.filter hdb, fun _ hr =>
    hp.found hdb (List.mem_filter.mp hr).1 (List.mem_filter.mp hr).2⟩

theorem stays_count (hp : H.Scoped workspaceId p) :
    (count p).Stays H.tenants workspaceId fun _ => True :=
  stays_query fun _ hdb => ⟨by rw [hp.filter hdb], trivial⟩

theorem stays_groupCount (f : R → Id) (hp : H.Scoped workspaceId p) :
    (groupCount f p).Stays H.tenants workspaceId fun _ => True :=
  stays_query fun _ hdb => ⟨by rw [hp.filter hdb], trivial⟩

theorem stays_lockRow {k : Key} (hk : H.home k = some workspaceId) :
    (lockRow k).Stays H.tenants workspaceId fun _ => True := by
  intro db _
  refine ⟨?_, fun e he => ?_⟩
  · show Except.ok _ = Except.ok _
    rw [show (H.tenants.view workspaceId db).get? k = db.get? k from get?_view (.inr hk)]
  · rw [← Except.ok.inj he]
    refine ⟨⟨fun _ hx => (by cases hx), fun l hl => ?_⟩, trivial⟩
    split at hl
    · rw [List.mem_singleton.mp hl]
      exact .inl (holds_iff.mpr hk)
    · cases hl

/-- A read that changes nothing of what is seen, and of which nothing is asked. -/
theorem stays_read {f : Db → α} (hf : ∀ db, H.tenants.Lawful db → f (H.view workspaceId db) = f db) :
    (query f).Stays H.tenants workspaceId fun _ => True :=
  stays_query fun db hdb => ⟨hf db hdb, trivial⟩

/-! ### Exceptions -/

theorem stays_orThrow {x : Option α} {e : ApiError} {Q : α → Prop} (h : ∀ a, x = some a → Q a) :
    (orThrow x e).Stays H.tenants workspaceId Q := by
  cases x with
  | none => trivial
  | some a => exact h a rfl

theorem stays_throwIf {c : Bool} {e : ApiError} :
    (throwIf c e).Stays H.tenants workspaceId fun _ => c = false := by
  cases c with
  | true => trivial
  | false => exact rfl

theorem stays_ofExcept {x : Except ApiError α} {Q : α → Prop} (h : ∀ a, x = .ok a → Q a) :
    (ofExcept x).Stays H.tenants workspaceId Q := by
  cases x with
  | error e => trivial
  | ok a => exact h a rfl

/-! ### Writes -/

section Writes

variable (hR : Model.table R ≠ .workspace)

include hR

theorem stays_create {r : R} (hr : H.Of workspaceId r) :
    (create r).Stays H.tenants workspaceId fun r' => r' = r := by
  have hmay := hr.mayWrite hR
  intro db hdb
  refine ⟨?_, fun e he => ?_⟩
  · simp only [createStmt]
    rw [show insertRefusal (Model.row r) (H.tenants.view workspaceId db) = _ from
      insertRefusal_view hdb hmay]
  · obtain ⟨_, rfl⟩ := eval_create he
    refine ⟨⟨fun x hx => ?_, hmay.locks⟩, rfl⟩
    rw [List.mem_singleton.mp hx]
    exact hmay.owns

theorem stays_createMany {rs : List R} (hrs : ∀ r ∈ rs, H.Of workspaceId r) :
    (createMany rs).Stays H.tenants workspaceId fun _ => True := by
  intro db hdb
  refine ⟨?_, fun e he => ?_⟩
  · simp only [createManyStmt]
    rw [show insertManyRefusal (rs.map Model.row) (H.tenants.view workspaceId db) = _ from
      insertManyRefusal_view hdb fun v hv => by
        obtain ⟨r, hr, rfl⟩ := List.mem_map.mp hv
        exact (hrs r hr).mayWrite hR]
  · obtain ⟨_, rfl⟩ := eval_createMany he
    refine ⟨⟨fun x hx => ?_, fun l hl => ?_⟩, trivial⟩
    · obtain ⟨r, hr, rfl⟩ := List.mem_map.mp hx
      exact ((hrs r hr).mayWrite hR).owns
    · obtain ⟨r, hr, hl⟩ := List.mem_flatMap.mp hl
      exact ((hrs r hr).mayWrite hR).locks l hl

/-- `skipDuplicates`. -/
theorem stays_createManySkipping {rs : List R} (hrs : ∀ r ∈ rs, H.Of workspaceId r) :
    (createManySkipping rs).Stays H.tenants workspaceId fun _ => True := by
  have hmay : ∀ r ∈ rs, H.MayWrite workspaceId (Model.row r) := fun r hr => (hrs r hr).mayWrite hR
  intro db hdb
  refine ⟨?_, fun e he => ?_⟩
  · simp only [createManySkippingStmt]
    rw [show insertable rs (H.tenants.view workspaceId db) = _ from insertable_view hdb hmay]
  · simp only [createManySkippingStmt] at he
    cases hkept : insertable rs db with
    | error f => rw [hkept] at he; cases he
    | ok kept =>
      have hsub := mem_of_insertable hkept
      rw [hkept] at he
      rw [← Except.ok.inj he]
      refine ⟨⟨fun x hx => ?_, fun l hl => ?_⟩, trivial⟩
      · obtain ⟨r, hr, rfl⟩ := List.mem_map.mp hx
        exact (hmay r (hsub r hr)).owns
      · obtain ⟨r, hr, hl⟩ := List.mem_flatMap.mp hl
        exact (hmay r (hsub r hr)).locks l hl

omit hR in
/-- What is written over a row of the workspace names nothing outside it. -/
theorem of_patch {data : Patch R} {r : R} (hr : H.Of workspaceId r)
    (hdata : H.Homed (Model.row (data.apply r))) : H.Of workspaceId (data.apply r) :=
  ⟨by rw [data.id_apply]; exact hr.1, hdata⟩

theorem stays_update {data : Patch R} (hp : H.Scoped workspaceId p)
    (hdata : ∀ r, H.Of workspaceId r → H.Homed (Model.row (data.apply r))) :
    (update p data).Stays H.tenants workspaceId
      fun r' => ∃ r, H.Found workspaceId p r ∧ r' = data.apply r := by
  intro db hdb
  have hfind : (rows R (H.tenants.view workspaceId db)).find? (p (H.tenants.view workspaceId db)) =
      (rows R db).find? (p db) := hp.find? hdb
  refine ⟨?_, fun e he => ?_⟩
  · simp only [updateStmt, hfind]
    cases hr : (rows R db).find? (p db) with
    | none => rfl
    | some r =>
      have hfound := hp.found hdb (List.mem_of_find?_eq_some hr) (List.find?_some hr)
      have hmay := (of_patch hfound.row (hdata r hfound.row)).mayWrite hR
      simp only [show updateRefusal (Model.row r) (Model.row (data.apply r))
        (H.tenants.view workspaceId db) = _ from updateRefusal_view hdb hmay _]
  · obtain ⟨r, hr, _, rfl⟩ := eval_update he
    have hfound := hp.found hdb (List.mem_of_find?_eq_some hr) (List.find?_some hr)
    have hmay := (of_patch hfound.row (hdata r hfound.row)).mayWrite hR
    refine ⟨⟨fun x hx => ?_, hmay.newLocks _⟩, r, hfound, rfl⟩
    rw [List.mem_singleton.mp hx]
    exact hmay.owns

theorem stays_updateMany {data : Patch R} (hp : H.Scoped workspaceId p)
    (hdata : ∀ r, H.Of workspaceId r → H.Homed (Model.row (data.apply r))) :
    (updateMany p data).Stays H.tenants workspaceId fun _ => True := by
  intro db hdb
  have hfilter : (rows R (H.tenants.view workspaceId db)).filter (p (H.tenants.view workspaceId db)) =
      (rows R db).filter (p db) := hp.filter hdb
  have hmay : ∀ r ∈ (rows R db).filter (p db), H.MayWrite workspaceId (Model.row (data.apply r)) := by
    intro r hr
    have hfound := hp.found hdb (List.mem_filter.mp hr).1 (List.mem_filter.mp hr).2
    exact (of_patch hfound.row (hdata r hfound.row)).mayWrite hR
  refine ⟨?_, fun e he => ?_⟩
  · have hrefusal : ((rows R db).filter (p db)).findSome? (fun r => updateRefusal (Model.row r)
        (Model.row (data.apply r)) (H.tenants.view workspaceId db)) =
        ((rows R db).filter (p db)).findSome? fun r => updateRefusal (Model.row r)
          (Model.row (data.apply r)) db := by
      exact findSome?_congr fun r hr => updateRefusal_view hdb (hmay r hr) _
    simp only [updateManyStmt, hfilter, hrefusal]
  · refine ⟨⟨fun x hx => ?_, fun l hl => ?_⟩, trivial⟩
    · rw [(eval_updateMany he).2] at hx
      obtain ⟨r, hr, rfl⟩ := List.mem_map.mp hx
      exact (hmay r hr).owns
    · simp only [updateManyStmt] at he
      split at he
      · cases he
      · rw [← Except.ok.inj he] at hl
        obtain ⟨r, hr, hl⟩ := List.mem_flatMap.mp hl
        exact (hmay r hr).newLocks _ l hl

end Writes

theorem stays_deleteMany (hp : H.Scoped workspaceId p) :
    (deleteMany p).Stays H.tenants workspaceId fun _ => True := by
  intro db hdb
  have hfilter : (rows R (H.tenants.view workspaceId db)).filter (p (H.tenants.view workspaceId db)) =
      (rows R db).filter (p db) := hp.filter hdb
  have hks : ∀ k ∈ ((rows R db).filter (p db)).map fun r => (⟨Model.table R, Model.id r⟩ : Key),
      H.home k = some workspaceId := by
    intro k hk
    obtain ⟨r, hr, rfl⟩ := List.mem_map.mp hk
    exact (hp db hdb r (List.mem_filter.mp hr).1).1 (List.mem_filter.mp hr).2
  refine ⟨?_, fun e he => ?_⟩
  · simp only [deleteManyStmt, hfilter]
    rw [show (H.tenants.view workspaceId db).deletion references _ = _ from deletion_view hdb hks]
  · obtain ⟨ws, hws, rfl⟩ := eval_deleteMany he
    exact ⟨⟨owns_deletion hdb hks hws, fun _ hl => by cases hl⟩, trivial⟩

omit [Model R] in
/-- Rows under identifiers of their own. -/
theorem stays_withIds {T : Type} {row : Id → T → R} {P : R → Prop} (items : List T)
    (h : ∀ i, H.Draws workspaceId i → ∀ item ∈ items, P (row i item)) :
    (withIds row items).Stays H.tenants workspaceId fun rs => ∀ r ∈ rs, P r := by
  induction items with
  | nil => exact fun r hr => by cases hr
  | cons item rest ih =>
    refine Tx.Stays.fresh.bind fun i hi => ?_
    refine (ih fun j hj item' hitem => h j hj item' (List.mem_cons_of_mem item hitem)).bind fun rs hrs => ?_
    intro r hr
    rcases List.mem_cons.mp hr with rfl | hr
    · exact h i hi item List.mem_cons_self
    · exact hrs r hr

end Homes
end Kurul
