import Kurul.Db.Prisma
import Kurul.Sql.Footprint

/-!
# Kurul.Db.Within

Prisma's statements within a footprint: what it has to allow of the rows each of them finds.
-/

namespace Kurul

open Sql

variable {R α : Type} [Model R] {F : Footprint kurul}

theorem within_query (f : Db → α) : (query f).Within F := (readOnly_query f).within

theorem within_orThrow (x : Option α) (e : ApiError) : (orThrow x e).Within F :=
  (readOnly_orThrow x e).within

theorem within_throwIf (c : Bool) (e : ApiError) : (throwIf c e).Within F :=
  (readOnly_throwIf c e).within

theorem within_update {p : Db → R → Bool} {data : Patch R}
    (h : ∀ db, ∀ r ∈ rows R db, p db r = true →
      F.Allows (some (Model.row r)) (.put (Model.row (data.apply r)))) : (update p data).Within F := by
  refine ⟨fun db e he x hx => ?_, fun _ => trivial⟩
  obtain ⟨r, hr, _, rfl⟩ := eval_update he
  rw [List.mem_singleton.mp hx]
  have hkey : (Write.put (Model.row (data.apply r)) : Write Key Row).key = ⟨Model.table R, Model.id r⟩ :=
    (data.key_apply r).trans (Model.key_row r)
  rw [hkey, get?_row (List.mem_of_find?_eq_some hr)]
  exact h db r (List.mem_of_find?_eq_some hr) (List.find?_some hr)

/-- Nothing names a row of this table. -/
def Table.unnamed : Table → Bool
  | .user | .workspace | .board | .column | .task | .label | .checklist | .activity => false
  | _ => true

theorem named_of_refs {v : Row} {k : Key} {a : OnDelete} (h : (k, a) ∈ v.refs) :
    Table.unnamed k.table = false := by
  cases v <;> simp only [Row.refs, List.mem_cons, List.mem_append, List.mem_map] at h <;>
    grind [Table.unnamed]

/-- A delete in a table whose rows nothing names is a delete of the rows it finds. -/
theorem mem_deletion_unnamed (hR : Table.unnamed (Model.table R) = true) {db : Db} {l : List R}
    {ws : List (Write Key Row)}
    (h : db.deletion references (l.map fun r => (⟨Model.table R, Model.id r⟩ : Key)) = some ws)
    {x : Write Key Row} (hx : x ∈ ws) : ∃ r ∈ l, x = .del ⟨Model.table R, Model.id r⟩ := by
  have hnamed : ∀ (v : Row) (k : Key) (a : OnDelete), (k, a) ∈ v.refs →
      k ∉ l.map fun r => (⟨Model.table R, Model.id r⟩ : Key) := by
    intro v k a hr hk
    obtain ⟨r, _, rfl⟩ := List.mem_map.mp hk
    rw [named_of_refs hr] at hR
    cases hR
  have hdoomed : ∀ k ∈ db.doomed references (l.map fun r => (⟨Model.table R, Model.id r⟩ : Key)),
      k ∈ l.map fun r => (⟨Model.table R, Model.id r⟩ : Key) :=
    Store.doomed_subset (fun _ hk => hk) fun v _ k hr hk => absurd hk (hnamed v k _ hr)
  rcases Store.mem_deletion h hx with ⟨v, _, hv, rfl⟩ | ⟨v, _, _, hn, rfl⟩
  · obtain ⟨r, hr, hkey⟩ := List.mem_map.mp (hdoomed _ hv)
    exact ⟨r, hr, by rw [hkey]⟩
  · obtain ⟨k, hk, hr⟩ := references.names_iff.mp hn
    exact absurd (hdoomed k hk) (hnamed v k _ hr)

theorem writes_deleteMany {p : Write Key Row → Prop} (hR : Table.unnamed (Model.table R) = true)
    (hp : ∀ i, p (.del ⟨Model.table R, i⟩)) (q : Db → R → Bool) : (deleteMany q).Writes p := by
  refine ⟨fun db e he x hx => ?_, fun _ => trivial⟩
  obtain ⟨ws, hws, rfl⟩ := eval_deleteMany he
  obtain ⟨r, _, rfl⟩ := mem_deletion_unnamed hR hws hx
  exact hp (Model.id r)

/-- And it leaves none of them. -/
theorem run_deleteMany_none (hR : Table.unnamed (Model.table R) = true) {p : R → Bool} {env : Env kurul}
    {w w' : World kurul} {n : Nat} (h : (deleteMany fun _ => p).run env w = (.ok n, w')) :
    ∀ r ∈ rows R w'.db, p r = false := by
  obtain ⟨ws, hws, _, rfl⟩ := run_deleteMany_ok h
  intro r hr
  rw [Bool.eq_false_iff]
  intro hp
  have hput : ∀ x ∈ ws, ∀ v, x ≠ .put v := by
    rintro x hx v rfl
    obtain ⟨_, _, heq⟩ := mem_deletion_unnamed hR hws hx
    cases heq
  have hkept : r ∈ rows R w.db := by
    rcases mem_rows_applyAll hr with hr | hr
    · exact absurd rfl (hput _ hr (Model.row r))
    · exact hr
  have hgone : (.del (Keyed.key (Model.row r)) : Write Key Row) ∈ ws := by
    refine (Store.mem_writes_of_deletion hws (mem_rows.mp hkept)).1 (Store.subset_doomed _ _ ?_)
    rw [keyed_key, Model.key_row]
    exact List.mem_map.mpr ⟨r, List.mem_filter.mpr ⟨hkept, hp⟩, rfl⟩
  have hget := Store.mem_rows_iff.mp (mem_rows.mp hr)
  exact absurd rfl (hput _ (Store.put_mem_of_get?_applyAll (List.mem_map_of_mem hgone) w.db hget) _)

theorem within_deleteMany (hR : Table.unnamed (Model.table R) = true) {p : Db → R → Bool}
    (h : ∀ db, ∀ r ∈ rows R db, p db r = true →
      F.Allows (some (Model.row r)) (.del ⟨Model.table R, Model.id r⟩)) :
    (deleteMany p).Within F := by
  refine ⟨fun db e he x hx => ?_, fun _ => trivial⟩
  obtain ⟨ws, hws, rfl⟩ := eval_deleteMany he
  obtain ⟨r, hr, rfl⟩ := mem_deletion_unnamed hR hws hx
  obtain ⟨hr, hp⟩ := List.mem_filter.mp hr
  show F.Allows (db.get? ⟨Model.table R, Model.id r⟩) _
  rw [get?_row hr]
  exact h db r hr hp

end Kurul
