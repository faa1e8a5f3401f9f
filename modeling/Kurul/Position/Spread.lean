import Mathlib.Algebra.Order.Group.Abs
import Mathlib.Data.List.Pairwise
import Kurul.Position.Placement

/-!
# Kurul.Position.Spread

Ordered lists whose positions stay apart, and a transaction that writes into one of them under a lock.

What others do to a list that is locked is `Sheds`: at most they take rows out of it. While that is
all they do, a transaction that has read the list knows every row it will see there (`Listed`). The
rules follow it through the bulk write and both branches of a create or a move; what else the
transaction knows (its lock, what it has not written) is the parameter `J`.

* `spacedIn_iff`  — adjacent gaps and pairwise gaps are the same law.
* `Listed.apart`  — a list written from entries that stand apart is apart.
* `makeRoom_listed`, `moveBatch_listed` — the two ways of making room, statement by statement.
-/

namespace Kurul

open Sql

/-! ## Positions that stand apart -/

/-- Entries for different tasks stand apart. -/
def Separated (ps : List PositionUpdate) : Prop :=
  ∀ a ∈ ps, ∀ b ∈ ps, a.id ≠ b.id → minGap / 2 ≤ |a.position - b.position|

theorem Separated.subset {ps ps' : List PositionUpdate} (h : Separated ps) (hs : ps' ⊆ ps) :
    Separated ps' :=
  fun a ha b hb => h a (hs ha) b (hs hb)

/-- One more entry that stands apart from the rest. -/
theorem Separated.cons {ps : List PositionUpdate} {u : PositionUpdate} (h : Separated ps)
    (hu : ∀ a ∈ ps, a.id ≠ u.id → minGap / 2 ≤ |a.position - u.position|) :
    Separated (u :: ps) := by
  intro a ha b hb hne
  rcases List.mem_cons.mp ha with hau | ha
  · rcases List.mem_cons.mp hb with hbu | hb
    · exact absurd (by rw [hau, hbu]) hne
    · rw [abs_sub_comm, hau]
      exact hu b hb (by rw [← hau]; exact hne.symm)
  · rcases List.mem_cons.mp hb with hbu | hb
    · rw [hbu]
      exact hu a ha (by rw [← hbu]; exact hne)
    · exact h a ha b hb hne

/-- Respread positions at different indices stand apart. -/
theorem rebalancePositions_apart {count i j : Nat} (hi : i < count) (hj : j < count)
    (hij : i ≠ j) :
    minGap / 2 ≤ |(rebalancePositions count).getD i 0 - (rebalancePositions count).getD j 0| := by
  have hle := minGap_le_positionGap
  rcases Nat.lt_or_gt_of_ne hij with hlt | hgt
  · have hgap := rebalancePositions_gap hlt hj
    rw [abs_sub_comm]
    exact le_trans (by linarith) (le_abs_self _)
  · have hgap := rebalancePositions_gap hgt hi
    exact le_trans (by linarith) (le_abs_self _)


/-- Siblings as entries. -/
def entries (l : List Sibling) : List PositionUpdate := l.map fun s => ⟨s.id, s.position⟩

theorem mem_entries_filter {l : List Sibling} {m : Id} {u : PositionUpdate} (hu : u ∈ entries l)
    (hne : u.id ≠ m) : u ∈ entries (l.filter fun s => s.id ≠ m) := by
  obtain ⟨s, hs, rfl⟩ := List.mem_map.mp hu
  exact List.mem_map.mpr ⟨s, List.mem_filter.mpr ⟨hs, decide_eq_true hne⟩, rfl⟩

/-- Entries left out, the others still stand apart. -/
theorem Separated.filter {l : List Sibling} (h : Separated (entries l)) (p : Sibling → Bool) :
    Separated (entries (l.filter p)) :=
  h.subset (List.map_subset _ (List.filter_subset_self l))

/-- A midpoint stands apart from every entry of the list it was taken in. -/
theorem separated_midpoint {l : List Sibling}
    (hs : l.Pairwise fun a b => a.position ≤ b.position) (hsep : Separated (entries l))
    {slot : InsertionSlot Sibling} (hslice : slot = sliceSlot l slot.insertionIndex)
    (hk : slot.insertionIndex ≤ l.length)
    (hn : needsRebalance (slot.prev.map Sibling.position) (slot.next.map Sibling.position) = false)
    (m : Id) :
    Separated (⟨m, midpoint (slot.prev.map Sibling.position) (slot.next.map Sibling.position)⟩ ::
      entries l) := by
  obtain ⟨hbefore, hafter⟩ := midpoint_between hs hk
    (congrArg (fun s => s.prev.map Sibling.position) hslice)
    (congrArg (fun s => s.next.map Sibling.position) hslice) hn
  refine hsep.cons fun a ha _ => ?_
  obtain ⟨s, hs', rfl⟩ := List.mem_map.mp ha
  rw [← List.take_append_drop slot.insertionIndex l] at hs'
  rcases List.mem_append.mp hs' with hs' | hs'
  · have hle : s.position + minGap / 2 ≤ _ := hbefore s hs'
    rw [abs_sub_comm]
    exact le_trans (by linarith) (le_abs_self _)
  · have hle : _ + minGap / 2 ≤ s.position := hafter s hs'
    exact le_trans (by linarith) (le_abs_self _)

/-- What a create's rebalance hands out, to the siblings and to the new task. -/
theorem separated_createUpdates {l : List Sibling} {k : Nat} (hk : k ≤ l.length) (m : Id) :
    Separated (⟨m, (rebalancePositions (l.length + 1)).getD k 0⟩ ::
      createUpdates l k (rebalancePositions (l.length + 1))) := by
  have hshift : ∀ j, (if j < k then j else j + 1) ≠ k := by
    intro j
    split <;> omega
  refine Separated.cons (fun a ha b hb hne => ?_) (fun a ha _ => ?_)
  · obtain ⟨j, hj, rfl⟩ := List.mem_mapIdx.mp ha
    obtain ⟨j', hj', rfl⟩ := List.mem_mapIdx.mp hb
    have hjj : j ≠ j' := by
      rintro rfl
      exact hne rfl
    apply rebalancePositions_apart
    · split <;> omega
    · split <;> omega
    · split <;> split <;> omega
  · obtain ⟨j, hj, rfl⟩ := List.mem_mapIdx.mp ha
    apply rebalancePositions_apart
    · split <;> omega
    · omega
    · exact hshift j

theorem mem_moveUpdates {l : List Sibling} {m : Id} {positions : List Position}
    {u : PositionUpdate} (h : u ∈ moveUpdates l m positions) :
    ∃ j, ∃ (hj : j < l.length), l[j].id ≠ m ∧ u = ⟨l[j].id, positions.getD j 0⟩ := by
  obtain ⟨p, hp, rfl⟩ := List.mem_map.mp h
  obtain ⟨hmem, hne⟩ := List.mem_filter.mp hp
  obtain ⟨j, hj, rfl⟩ := List.mem_mapIdx.mp hmem
  exact ⟨j, hj, of_decide_eq_true hne, rfl⟩

theorem moveUpdates_covers {l : List Sibling} {m : Id} (positions : List Position) {s : Sibling}
    (hs : s ∈ l) (hne : s.id ≠ m) : ∃ u ∈ moveUpdates l m positions, u.id = s.id := by
  obtain ⟨j, hj, rfl⟩ := List.mem_iff_getElem.mp hs
  refine ⟨⟨l[j].id, positions.getD j 0⟩, List.mem_map.mpr ⟨(l[j], j), ?_, rfl⟩, rfl⟩
  exact List.mem_filter.mpr ⟨List.mem_mapIdx.mpr ⟨j, hj, rfl⟩, decide_eq_true hne⟩

/-- What a move's rebalance hands out, to the others and to the moved task. -/
theorem separated_moveUpdates {l : List Sibling} {k : Nat} {m : Id} (hk : k < l.length)
    (hself : l[k].id = m) :
    Separated (⟨m, (rebalancePositions l.length).getD k 0⟩ ::
      moveUpdates l m (rebalancePositions l.length)) := by
  refine Separated.cons (fun a ha b hb hne => ?_) (fun a ha _ => ?_)
  · obtain ⟨j, hj, _, rfl⟩ := mem_moveUpdates ha
    obtain ⟨j', hj', _, rfl⟩ := mem_moveUpdates hb
    refine rebalancePositions_apart hj hj' ?_
    rintro rfl
    exact hne rfl
  · obtain ⟨j, hj, hjm, rfl⟩ := mem_moveUpdates ha
    refine rebalancePositions_apart hj hk ?_
    rintro rfl
    exact hjm hself


/-! ## Lists whose positions stand apart -/

section Lists

variable (R : Type) [Model R] [Placed R]

/-- In a list positions are distinct, and neighbours stand at least `minGap / 2` apart. -/
structure SpacedIn (db : Db) (listId : Id) : Prop where
  distinct : ((ordered R db listId).map Placed.position).Nodup
  gaps : (ordered R db listId).IsChain fun a b =>
    minGap / 2 ≤ Placed.position b - Placed.position a

/-- Any two rows of a list stand at least `minGap / 2` apart. -/
def ApartIn (db : Db) (listId : Id) : Prop :=
  ∀ r ∈ rows R db, ∀ s ∈ rows R db, Placed.list r = listId → Placed.list s = listId →
    Model.id r ≠ Model.id s → minGap / 2 ≤ |Placed.position r - Placed.position s|

/-- Every row of a list that is there afterwards was there before, at the same position. -/
def Sheds (listId : Id) (db db' : Db) : Prop :=
  ∀ r' ∈ rows R db', Placed.list r' = listId → ∃ r ∈ rows R db, Model.id r = Model.id r' ∧
    Placed.list r = listId ∧ Placed.position r = Placed.position r'

variable {R} {db db' db₁ : Db} {c : Id}

theorem spacedIn_iff : SpacedIn R db c ↔ ApartIn R db c := by
  constructor
  · intro h r hr s hs hrc hsc hid
    have htrans : IsTrans R fun a b => minGap / 2 ≤ Placed.position b - Placed.position a :=
      ⟨fun a b d hab hbd => by have := minGap_pos; linarith⟩
    have hpair := (List.isChain_iff_pairwise.mp h.gaps).imp
      (S := fun a b : R => minGap / 2 ≤ |Placed.position a - Placed.position b|)
      fun {a b} hab => by
        rw [abs_sub_comm]
        exact hab.trans (le_abs_self _)
    have hsymm : Std.Symm fun a b : R => minGap / 2 ≤ |Placed.position a - Placed.position b| :=
      ⟨fun a b hab => by rwa [abs_sub_comm]⟩
    exact hpair.forall (mem_ordered.mpr ⟨hr, hrc⟩) (mem_ordered.mpr ⟨hs, hsc⟩)
      fun heq => hid (by rw [heq])
  · intro h
    have hpair : (ordered R db c).Pairwise
        fun a b => minGap / 2 ≤ Placed.position b - Placed.position a := by
      refine (ordered_lt R db c).imp_of_mem fun {a b} ha hb hab => ?_
      obtain ⟨ha, hac⟩ := mem_ordered.mp ha
      obtain ⟨hb, hbc⟩ := mem_ordered.mp hb
      have hle : Placed.position a ≤ Placed.position b := position_le_of_rank_lt hab
      have hne : Model.id a ≠ Model.id b := by
        intro heq
        rw [eq_of_id ha hb heq] at hab
        exact lt_irrefl _ hab
      have hgap := h a ha b hb hac hbc hne
      rwa [abs_sub_comm, abs_of_nonneg (by linarith)] at hgap
    refine ⟨?_, hpair.isChain⟩
    rw [List.Nodup, List.pairwise_map]
    refine hpair.imp fun {a b} hab heq => ?_
    have := minGap_pos
    rw [heq, sub_self] at hab
    linarith

theorem Sheds.refl (R : Type) [Model R] [Placed R] (c : Id) (db : Db) : Sheds R c db db :=
  fun r hr hc => ⟨r, hr, rfl, hc, rfl⟩

theorem Sheds.trans (h : Sheds R c db db₁) (h' : Sheds R c db₁ db') : Sheds R c db db' := by
  intro r' hr' hc'
  obtain ⟨r, hr, hid, hc, hp⟩ := h' r' hr' hc'
  obtain ⟨r₀, hr₀, hid₀, hc₀, hp₀⟩ := h r hr hc
  exact ⟨r₀, hr₀, hid₀.trans hid, hc₀, hp₀.trans hp⟩

/-- The entries of a list that is apart. -/
theorem separated_siblings (h : ApartIn R db c) : Separated (entries (siblings R db c)) := by
  intro a ha b hb hne
  simp only [entries, siblings, List.map_map, List.mem_map, mem_ordered] at ha hb
  obtain ⟨r, ⟨hr, hrc⟩, rfl⟩ := ha
  obtain ⟨s, ⟨hs, hsc⟩, rfl⟩ := hb
  exact h r hr s hs hrc hsc hne

end Lists

/-! ## Writing into a list -/

theorem wrote_of_put {R : Type} [Model R] {own : Local kurul} {r : R}
    (h : .put (Model.row r) ∈ own.delta) : own.Wrote ⟨Model.table R, Model.id r⟩ :=
  List.mem_map.mpr ⟨_, h, by rw [Write.key_put, keyed_key, Model.key_row]⟩

/-- A write that gives a row the transaction sees another position. -/
def Repositions (R : Type) [Model R] [Placed R] (seen : Db) (w : Write Key Row) : Prop :=
  ∃ r ∈ rows R seen, ∃ p, w = .put (Model.row ((Placed.setPosition p).apply r))

theorem Repositions.table {R : Type} [Model R] [Placed R] {seen : Db} {w : Write Key Row}
    (h : Repositions R seen w) : w.key.table = Model.table R := by
  obtain ⟨r, _, p, rfl⟩ := h
  rw [Write.key_put, keyed_key, Model.key_row]

/-- What else a transaction knows while it writes into list `c`: it stays known while others take at
most rows out of the list, and while the transaction only repositions rows. -/
structure Guarding {ι : Type} (P : Protocol kurul ι) (R : Type) [Model R] [Placed R] (c : Id)
    (J : Local kurul → Db → Prop) : Prop where
  later : ∀ {own db db'}, P.Later own db db' → J own db → J own db' ∧ Sheds R c db db'
  add : ∀ {own db} (e : Effect kurul Nat), (∀ w ∈ e.writes, Repositions R (own.view db) w) →
    J own db → J (own.add e) db

/-- A transaction that has written rows only into list `c`: every row it sees there is an entry of
`ps`, or waits to be written by an entry of `us`. -/
structure Listed (R : Type) [Model R] [Placed R] (c : Id) (ps us : List PositionUpdate)
    (own : Local kurul) (db : Db) : Prop where
  owns : ∀ r : R, .put (Model.row r) ∈ own.delta → Placed.list r = c
  listed : ∀ r ∈ rows R (own.view db), Placed.list r = c →
    ⟨Model.id r, Placed.position r⟩ ∈ ps ∨ ∃ u ∈ us, u.id = Model.id r

namespace Listed

variable {R : Type} [Model R] [Placed R] {c : Id} {ps us : List PositionUpdate} {own : Local kurul}
  {db db' : Db}

/-- A list read before anything is written: every row is an entry. -/
theorem read (hdelta : own.delta = []) : Listed R c (entries (siblings R db c)) [] own db := by
  refine ⟨by simp [hdelta], fun r hr hc => .inl ?_⟩
  rw [Local.view_of_nil hdelta] at hr
  have hmem : toSibling r ∈ siblings R db c :=
    List.mem_map_of_mem (mem_ordered.mpr ⟨hr, hc⟩)
  exact List.mem_map.mpr ⟨_, hmem, rfl⟩

/-- Others only take rows out of the list. -/
theorem sheds (h : Listed R c ps us own db) (hs : Sheds R c db db') : Listed R c ps us own db' := by
  refine ⟨h.owns, fun r hr hc => ?_⟩
  by_cases hw : own.Wrote ⟨Model.table R, Model.id r⟩
  · exact h.listed r (mem_rows_view_of_wrote hw hr) hc
  · rcases mem_rows_view hr with hput | ⟨_, hold⟩
    · exact absurd (wrote_of_put hput) hw
    · obtain ⟨r₀, hr₀, hid, hc₀, hp⟩ := hs r hold hc
      have hw₀ : ¬ own.Wrote ⟨Model.table R, Model.id r₀⟩ := by rw [hid]; exact hw
      have := h.listed r₀ (mem_rows_view_of_not_wrote hw₀ hr₀) hc₀
      rwa [hid, hp] at this

/-- Statements about other tables change nothing here. -/
theorem add {β : Type} (h : Listed R c ps us own db) {e : Effect kurul β}
    (he : ∀ w ∈ e.writes, w.key.table ≠ Model.table R) : Listed R c ps us (own.add e) db := by
  refine ⟨fun r hr => ?_, ?_⟩
  · rcases List.mem_append.mp hr with hr | hr
    · exact h.owns r hr
    · refine absurd ?_ (he _ hr)
      rw [Write.key_put, keyed_key, Model.key_row]
  · rw [Local.view_add, rows_applyAll_of_ne he]
    exact h.listed

/-- A row put into the list, with its entry. -/
theorem put {β : Type} (h : Listed R c ps [] own db) {x : R} (hx : Placed.list x = c)
    {e : Effect kurul β} (he : e.writes = [.put (Model.row x)]) {ps' : List PositionUpdate}
    (hself : ⟨Model.id x, Placed.position x⟩ ∈ ps') (hps : ∀ u ∈ ps, u.id ≠ Model.id x → u ∈ ps') :
    Listed R c ps' [] (own.add e) db := by
  refine ⟨fun r hr => ?_, fun r hr hc => ?_⟩
  · rw [Local.delta_add, he] at hr
    rcases List.mem_append.mp hr with hr | hr
    · exact h.owns r hr
    · rw [row_injective (Write.put.inj (List.mem_singleton.mp hr))]
      exact hx
  · rw [Local.view_add, he] at hr
    have hr' : r ∈ rows R ((own.view db).put (Model.row x)) := hr
    rcases mem_rows_put.mp hr' with rfl | ⟨hr, hne⟩
    · exact .inl hself
    · rcases h.listed r hr hc with hmem | ⟨u, hu, _⟩
      · exact .inl (hps _ hmem hne)
      · cases hu

/-- With nothing left to write, the list is apart if its entries are. -/
theorem apart (h : Listed R c ps [] own db) (hsep : Separated ps) : ApartIn R (own.view db) c := by
  have hentry : ∀ r ∈ rows R (own.view db), Placed.list r = c →
      ⟨Model.id r, Placed.position r⟩ ∈ ps := by
    intro r hr hc
    rcases h.listed r hr hc with hmem | ⟨u, hu, _⟩
    · exact hmem
    · cases hu
  intro r hr s hs hrc hsc hid
  exact hsep ⟨Model.id r, Placed.position r⟩ (hentry r hr hrc) ⟨Model.id s, Placed.position s⟩
    (hentry s hs hsc) hid

/-- The other lists are as they were. -/
theorem elsewhere (h : Listed R c ps us own db) {b : Id} (hb : b ≠ c) (hap : ApartIn R db b) :
    ApartIn R (own.view db) b := by
  have hold : ∀ r ∈ rows R (own.view db), Placed.list r = b → r ∈ rows R db := by
    intro r hr hrb
    rcases mem_rows_view hr with hput | ⟨_, hdb⟩
    · exact absurd (hrb.symm.trans (h.owns r hput)) hb
    · exact hdb
  exact fun r hr s hs hrb hsb => hap r (hold r hr hrb) s (hold s hs hsb) hrb hsb

end Listed

section Branches

variable {R : Type} [Model R] [Placed R] {ι : Type} {P : Protocol kurul ι} {i : ι} {c : Id}
  {ps : List PositionUpdate} {J : Local kurul → Db → Prop} {own : Local kurul} {db : Db}

/-- The loop of the bulk write: each step turns a waiting entry into a written one. -/
theorem writePositions_listed (hJ : Guarding P R c J) {Q : Unit → Local kurul → Db → Prop}
    (hQ : ∀ own db, J own db → Listed R c ps [] own db → Q () own db) :
    ∀ (us : List PositionUpdate), us ⊆ ps → ∀ {own db}, J own db → Listed R c ps us own db →
      (writePositions R c us).Safe P i Q own db := by
  intro us
  induction us with
  | nil => intro _ own db hj h; exact hQ own db hj h
  | cons u us ih =>
    intro hus own db hj h
    simp only [writePositions, Tx.Safe_bind]
    intro db' hl _ e he
    have hws := (eval_updateMany he).2
    have hself : u ∈ ps := hus (by simp)
    obtain ⟨hj, hsheds⟩ := hJ.later hl hj
    replace h := h.sheds hsheds
    refine ih (fun v hv => hus (List.mem_cons_of_mem u hv)) (hJ.add e ?_ hj)
      ⟨fun r hr => ?_, fun r hr hc => ?_⟩
    · intro w hw
      rw [hws] at hw
      obtain ⟨r, hr, rfl⟩ := List.mem_map.mp hw
      exact ⟨r, (List.mem_filter.mp hr).1, _, rfl⟩
    · rw [Local.delta_add, hws] at hr
      rcases List.mem_append.mp hr with hr | hr
      · exact h.owns r hr
      · obtain ⟨r₀, hr₀, heq⟩ := List.mem_map.mp hr
        have hp := (List.mem_filter.mp hr₀).2
        simp only [Bool.and_eq_true, decide_eq_true_eq] at hp
        obtain rfl : (Placed.setPosition u.position).apply r₀ = r := row_injective (Write.put.inj heq)
        rw [Placed.list_set]
        exact hp.2
    · rw [Local.view_add, hws] at hr
      obtain ⟨r₀, hr₀, rfl⟩ := mem_rows_updateMany.mp hr
      split
      · rename_i hp
        simp only [Bool.and_eq_true, decide_eq_true_eq] at hp
        refine .inl ?_
        rw [Patch.id_apply, Placed.position_set, hp.1]
        exact hself
      · rename_i hp
        rw [if_neg hp] at hc
        rcases h.listed r₀ hr₀ hc with hmem | ⟨v, hv, hid⟩
        · exact .inl hmem
        · refine .inr ⟨v, ?_, hid⟩
          rcases List.mem_cons.mp hv with rfl | hv
          · refine absurd ?_ hp
            simp only [Bool.and_eq_true, decide_eq_true_eq]
            exact ⟨hid.symm, hc⟩
          · exact hv

/-- The bulk write, when every row listed so far is up to date or named by an update. -/
theorem batch_listed (hJ : Guarding P R c J) {Q : Unit → Local kurul → Db → Prop}
    (ps' : List PositionUpdate) {updates : List PositionUpdate} (hup : updates ⊆ ps')
    (hps : ∀ a ∈ ps, a ∈ ps' ∨ ∃ u ∈ updates, u.id = a.id)
    (hQ : ∀ own db, J own db → Listed R c ps' [] own db → Q () own db) (hj : J own db)
    (h : Listed R c ps [] own db) :
    (batchUpdatePositions R c updates).Safe P i Q own db := by
  have hentry : ∀ {own db}, Listed R c ps [] own db → ∀ r ∈ rows R (own.view db),
      Placed.list r = c →
      ⟨Model.id r, Placed.position r⟩ ∈ ps' ∨ ∃ u ∈ updates, u.id = Model.id r := by
    intro own db h r hr hc
    rcases h.listed r hr hc with hmem | ⟨u, hu, _⟩
    · exact hps _ hmem
    · cases hu
  simp only [batchUpdatePositions]
  split
  · rename_i hnil
    obtain rfl : updates = [] := List.isEmpty_iff.mp hnil
    exact hQ own db hj ⟨h.owns, hentry h⟩
  · rw [Tx.Safe_bind]
    refine Safe_query fun db' hl => ?_
    obtain ⟨hj, hsheds⟩ := hJ.later hl hj
    replace h := h.sheds hsheds
    refine writePositions_listed hJ hQ _ ?_ hj ⟨h.owns, fun r hr hc => ?_⟩
    · intro u hu
      obtain ⟨r, _, _, _, hfind⟩ := mem_matched.mp hu
      exact hup (List.mem_of_find?_eq_some hfind)
    · rcases hentry h r hr hc with hmem | ⟨u, hu, hid⟩
      · exact .inl hmem
      · refine .inr ?_
        cases hv : updates.find? fun v => v.id = Model.id r with
        | none => exact absurd (by simpa using hid) (List.find?_eq_none.mp hv u hu)
        | some v =>
          have hvid : v.id = Model.id r := by simpa using List.find?_some hv
          exact ⟨v, mem_matched.mpr ⟨r, hr, hc, hvid, hv⟩, hvid⟩

/-- Making room for a new row, under the lock: whatever its id, its position will stand apart if the
list stood apart before. -/
theorem makeRoom_listed (hJ : Guarding P R c J) {Q : Position → Local kurul → Db → Prop}
    {l : List Sibling} {slot : InsertionSlot Sibling}
    (hs : l.Pairwise fun a b => a.position ≤ b.position)
    (hslice : slot = sliceSlot l slot.insertionIndex) (hk : slot.insertionIndex ≤ l.length)
    (hQ : ∀ p own db ps, J own db → Listed R c ps [] own db →
      (Separated (entries l) → ∀ m, Separated (⟨m, p⟩ :: ps)) → Q p own db)
    (hj : J own db) (h : Listed R c (entries l) [] own db) :
    (makeRoom R c l slot).Safe P i Q own db := by
  simp only [makeRoom]
  split
  · rw [Tx.Safe_bind]
    refine batch_listed hJ _ (List.Subset.refl _) ?_ ?_ hj h
    · intro a ha
      obtain ⟨s, hs', rfl⟩ := List.mem_map.mp ha
      obtain ⟨j, hj, rfl⟩ := List.mem_iff_getElem.mp hs'
      exact .inr ⟨_, List.mem_mapIdx.mpr ⟨j, hj, rfl⟩, rfl⟩
    · intro own db hj h
      exact hQ _ own db _ hj h fun _ m => separated_createUpdates hk m
  · rename_i hn
    exact hQ _ own db _ hj h fun hsep m =>
      separated_midpoint hs hsep hslice hk (by simpa using hn) m

/-- The second half of a move's rebalance: its row is written, the others are respread around it. -/
theorem moveBatch_listed (hJ : Guarding P R c J) {Q : Unit → Local kurul → Db → Prop}
    {remaining : List Sibling} {k : Nat} (hk : k ≤ remaining.length) {m : Sibling}
    (hother : ∀ s ∈ remaining, s.id ≠ m.id)
    (hQ : ∀ own db ps, J own db → Listed R c ps [] own db → Separated ps → Q () own db)
    (hj : J own db)
    (h : Listed R c (⟨m.id, (rebalancePositions (remaining.insertIdx k m).length).getD k 0⟩ ::
      entries remaining) [] own db) :
    (batchUpdatePositions R c (moveUpdates (remaining.insertIdx k m) m.id
      (rebalancePositions (remaining.insertIdx k m).length))).Safe P i Q own db := by
  have hlt : k < (remaining.insertIdx k m).length := by
    rw [List.length_insertIdx_of_le_length hk]
    omega
  have hself : (remaining.insertIdx k m)[k].id = m.id := by simp only [List.getElem_insertIdx_self]
  refine batch_listed hJ _ (fun u hu => List.mem_cons_of_mem
    ⟨m.id, (rebalancePositions (remaining.insertIdx k m).length).getD k 0⟩ hu) ?_
    (fun own db hj h => hQ own db _ hj h (separated_moveUpdates hlt hself)) hj h
  intro a ha
  rcases List.mem_cons.mp ha with rfl | ha
  · exact .inl (List.mem_cons_self ..)
  · obtain ⟨s, hs', rfl⟩ := List.mem_map.mp ha
    refine .inr (moveUpdates_covers _ ?_ (hother s hs'))
    rw [List.mem_insertIdx hk]
    exact .inr hs'

end Branches
end Kurul
