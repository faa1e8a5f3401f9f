import Kurul.Board.ColumnService
import Kurul.Db.Kept
import Kurul.Position.Spread

/-!
# Kurul.Board.Seeding

Seeding a board's default columns among creates and moves of columns.

The rows a seeding guards do not exist yet, so all three calls take the lock of the board before they
read its columns. While a transaction holds it the others leave the board's columns alone, up to
taking some out (`Sheds`); boards and the board of a column never change.

* `Seeding`, `Seeds` — the rows a seeding writes, and what it makes of the committed rows.
* `columnSpacing`    — the protocol; `HoldsBoard` is what a transaction under the lock knows.
* `defaults_seeded_once` — a seeding commits whole on a bare board or leaves nothing, at most one
  commits, and the board's positions stay apart.
-/

namespace Kurul

open Sql ColumnService

/-- A call that adds columns to a board or moves them on it. -/
inductive ColumnOp where
  | createDefaults (rt : Runtime) (workspaceId boardId actorId : Id)
      (acceptLanguage : Option JsString)
  | create (workspaceId boardId actorId : Id) (dto : CreateColumnDto)
  | move (workspaceId columnId actorId : Id) (dto : MoveColumnDto)

def ColumnOp.call : ColumnOp → Call kurul Unit
  | .createDefaults rt workspaceId boardId actorId acceptLanguage => do
    let _ ← ColumnService.createDefaults rt workspaceId boardId actorId acceptLanguage
  | .create workspaceId boardId actorId dto => do
    let _ ← ColumnService.create workspaceId boardId actorId dto
  | .move workspaceId columnId actorId dto => do
    let _ ← ColumnService.move workspaceId columnId actorId dto

/-! ## What a seeding writes -/

/-- An entry that records what it was asked to. -/
structure Records (input : RecordActivityInput) (v : ActivityRow) : Prop where
  workspaceId : v.workspaceId = input.workspaceId
  taskId : v.taskId = input.taskId
  userId : v.userId = input.userId
  type : v.type = input.type
  payload : v.payload = .obj input.payload

/-- The default list of a language as columns of a board, each with its audit entry. -/
structure Seeding (workspaceId boardId actorId : Id) where
  locale : Locale
  columns : List ColumnRow
  entries : List ActivityRow
  whole : List.Forall₂ (fun d c => c = seedRow boardId c.id d) (defaultColumnsFor locale) columns
  audited : List.Forall₂ (fun c v => Records (seededInput workspaceId boardId actorId c) v)
    columns entries

section Seeding

variable {workspaceId boardId actorId : Id}

def Seeding.rows (s : Seeding workspaceId boardId actorId) : List Row :=
  s.columns.map Row.column ++ s.entries.map Row.activity

/-- A board that had no column has the whole list; nothing else is different. -/
structure Seeds (s : Seeding workspaceId boardId actorId) (db db' : Db) : Prop where
  bare : ∀ c ∈ Kurul.rows ColumnRow db, c.boardId ≠ boardId
  fresh : ∀ v ∈ s.rows, db.get? v.key = none
  distinct : (s.rows.map Row.key).Nodup
  result : db' = db.applyAll (s.rows.map .put)

end Seeding

/-- The default list on a board: every column is the board's, and they stand in order, each at least
a thousand after the last. -/
theorem seeded_columns {boardId : Id} {locale : Locale} {columns : List ColumnRow}
    (h : List.Forall₂ (fun d c => c = seedRow boardId c.id d) (defaultColumnsFor locale) columns) :
    (∀ c ∈ columns, c.boardId = boardId) ∧
      columns.Pairwise fun a b => a.position + 1000 ≤ b.position := by
  have hmap : ∀ {β : Type} (f : ColumnRow → β) (g : DefaultColumn → β),
      (∀ d id, f (seedRow boardId id d) = g d) →
      columns.map f = (defaultColumnsFor locale).map g := by
    intro β f g hfg
    rw [← List.forall₂_eq_eq_eq, List.forall₂_map_left_iff, List.forall₂_map_right_iff]
    refine List.Forall₂.flip (h.imp fun d c hc => ?_)
    rw [hc]
    exact hfg d c.id
  refine ⟨fun c hc => ?_, ?_⟩
  · have hmem := List.mem_map_of_mem (f := ColumnRow.boardId) hc
    rw [hmap ColumnRow.boardId (fun _ => boardId) fun _ _ => rfl] at hmem
    obtain ⟨_, _, heq⟩ := List.mem_map.mp hmem
    exact heq.symm
  · have hapart : (columns.map ColumnRow.position).Pairwise fun p q => p + 1000 ≤ q := by
      rw [hmap ColumnRow.position DefaultColumn.position fun _ _ => rfl]
      exact List.pairwise_map.mpr (defaultColumnsFor_apart locale)
    exact List.pairwise_map.mp hapart

theorem Seeds.leaves_column {workspaceId boardId actorId : Id}
    {s : Seeding workspaceId boardId actorId} {db db' : Db} (h : Seeds s db db') :
    ∃ c ∈ rows ColumnRow db', c.boardId = boardId := by
  obtain ⟨d, ds, hds⟩ : ∃ d ds, defaultColumnsFor s.locale = d :: ds := ⟨_, _, rfl⟩
  obtain ⟨c, cs, _, _, hcs⟩ := List.forall₂_cons_left_iff.mp (hds ▸ s.whole)
  have hput : .put (Row.column c) ∈ s.rows.map (Write.put : Row → Write Key Row) := by
    refine List.mem_map_of_mem (List.mem_append_left _ (List.mem_map_of_mem ?_))
    rw [hcs]
    exact List.mem_cons_self
  have hsome : (db'.get? ⟨.column, c.id⟩).isSome = true := by
    rw [h.result]
    exact Store.isSome_get?_of_put hput (by simp) db
  obtain ⟨v, hv⟩ := Option.isSome_iff_exists.mp hsome
  obtain ⟨c', rfl, hc', _⟩ := (get?_eq_some (R := ColumnRow)).mp hv
  refine ⟨c', hc', ?_⟩
  rw [h.result] at hv
  have hwritten := Store.put_mem_of_get?_applyAll (List.mem_map.mpr ⟨_, hput, rfl⟩) db hv
  obtain ⟨v, hmem, heq⟩ := List.mem_map.mp hwritten
  rw [Write.put.inj heq] at hmem
  rcases List.mem_append.mp hmem with hmem | hmem
  · obtain ⟨x, hx, heq⟩ := List.mem_map.mp hmem
    rw [← Row.column.inj heq]
    exact (seeded_columns s.whole).1 x hx
  · obtain ⟨x, _, heq⟩ := List.mem_map.mp hmem
    cases heq

/-- The seeded columns, as entries of the board's list, stand apart. -/
theorem separated_seeded {columns : List ColumnRow}
    (h : columns.Pairwise fun a b => a.position + 1000 ≤ b.position) :
    Separated (columns.map fun c => ⟨c.id, c.position⟩) := by
  have hsymm : Std.Symm fun a b : ColumnRow => minGap / 2 ≤ |a.position - b.position| :=
    ⟨fun a b hab => by rwa [abs_sub_comm]⟩
  have hpair : columns.Pairwise fun a b => minGap / 2 ≤ |a.position - b.position| := by
    refine h.imp fun {a b} hab => ?_
    have hgap : minGap / 2 ≤ 1000 := by norm_num [minGap]
    rw [abs_sub_comm]
    exact le_trans (by linarith) (le_abs_self _)
  intro u hu v hv hne
  obtain ⟨a, ha, rfl⟩ := List.mem_map.mp hu
  obtain ⟨b, hb, rfl⟩ := List.mem_map.mp hv
  exact hpair.forall ha hb fun heq => hne (by rw [heq])

/-! ## The protocol -/

/-- Columns stay, on the boards they are on. -/
def ColumnsStay (db db' : Db) : Prop :=
  ∀ c ∈ rows ColumnRow db, ∃ c' ∈ rows ColumnRow db', c'.id = c.id ∧ c'.boardId = c.boardId

theorem ColumnsStay.refl (db : Db) : ColumnsStay db db := fun c hc => ⟨c, hc, rfl, rfl⟩

theorem ColumnsStay.trans {db db₁ db₂ : Db} (h : ColumnsStay db db₁) (h' : ColumnsStay db₁ db₂) :
    ColumnsStay db db₂ := by
  intro c hc
  obtain ⟨c₁, hc₁, hid₁, hb₁⟩ := h c hc
  obtain ⟨c₂, hc₂, hid₂, hb₂⟩ := h' c₁ hc₁
  exact ⟨c₂, hc₂, hid₂.trans hid₁, hb₂.trans hb₁⟩

/-- What a call's commits do: a seeding's change is the whole seeding. -/
def ColumnOp.Changes (op : ColumnOp) (db db' : Db) : Prop :=
  match op with
  | .createDefaults _ workspaceId boardId actorId _ =>
    db' = db ∨ ∃ s : Seeding workspaceId boardId actorId, Seeds s db db'
  | _ => True

theorem ColumnOp.changes_refl (op : ColumnOp) (db : Db) : op.Changes db db := by
  cases op with
  | createDefaults => exact .inl rfl
  | _ => trivial

/-- Boards stay as they were at the start, and the columns of one board stay apart; a locked board
only loses columns. -/
def columnSpacing {ι : Type} (ops : ι → ColumnOp) (db₀ : Db) (boardId : Id) : Protocol kurul ι where
  Inv db := (∀ b, db.get? ⟨.board, b⟩ = db₀.get? ⟨.board, b⟩) ∧ ApartIn ColumnRow db boardId
  Rely own db db' := own.Held db db' ∧ ColumnsStay db db' ∧
    ∀ b, ⟨⟨.board, b⟩, .update⟩ ∈ own.locks → Sheds ColumnRow b db db'
  Guar i _ db db' := ColumnsStay db db' ∧ (ops i).Changes db db'
  Cond _ _ _ := True
  guar_refl i _ db := ⟨.refl db, (ops i).changes_refl db⟩
  rely_refl own db := ⟨own.held_refl db, .refl db, fun b _ => .refl ColumnRow b db⟩
  rely_trans h h' := ⟨h.1.trans h'.1, h.2.1.trans h'.2.1, fun b hb => (h.2.2 b hb).trans (h'.2.2 b hb)⟩

/-- The transaction holds the lock of board `b`; it has deleted nothing and written no board, and its
columns are on the boards they are stored on. -/
structure HoldsBoard (b : Id) (own : Local kurul) (db : Db) : Prop where
  lock : ⟨⟨.board, b⟩, .update⟩ ∈ own.locks
  puts : ∀ w ∈ own.delta, ∃ v : Row, w = .put v ∧ v.key.table ≠ .board
  stays : ∀ c : ColumnRow, .put (.column c) ∈ own.delta →
    ∀ c₀ ∈ rows ColumnRow db, c₀.id = c.id → c₀.boardId = c.boardId

section Protocol

variable {ι : Type} {i : ι} {ops : ι → ColumnOp} {db₀ : Db} {boardId b : Id} {own : Local kurul}
  {db db' : Db}

namespace HoldsBoard

theorem start (hdelta : own.delta = []) (hlock : ⟨⟨.board, b⟩, .update⟩ ∈ own.locks) :
    HoldsBoard b own db :=
  ⟨hlock, by simp [hdelta], by simp [hdelta]⟩

/-- A row that has been written stays as it is stored. -/
theorem held (h : HoldsBoard b own db) (hh : own.Held db db') : HoldsBoard b own db' := by
  refine ⟨h.lock, h.puts, fun c hput c₀ hc₀ hid => h.stays c hput c₀ ?_ hid⟩
  have hget := get?_row hc₀
  have hw : own.Wrote ⟨.column, c₀.id⟩ := by
    rw [hid]
    exact wrote_of_put (R := ColumnRow) hput
  exact mem_rows.mpr (Store.mem_of_get? ((hh.wrote hw).symm.trans hget))

/-- Writes that go with what is known: no deletion, no board, and a column only where it is. -/
theorem add {β : Type} (h : HoldsBoard b own db) {e : Effect kurul β}
    (hputs : ∀ w ∈ e.writes, ∃ v : Row, w = .put v ∧ v.key.table ≠ .board)
    (hstays : ∀ c : ColumnRow, .put (.column c) ∈ e.writes →
      ∀ c₀ ∈ rows ColumnRow db, c₀.id = c.id → c₀.boardId = c.boardId) :
    HoldsBoard b (own.add e) db := by
  refine ⟨List.mem_append_left _ h.lock, fun w hw => ?_, fun c hc => ?_⟩
  · rcases List.mem_append.mp hw with hw | hw
    · exact h.puts w hw
    · exact hputs w hw
  · rcases List.mem_append.mp hc with hc | hc
    · exact h.stays c hc
    · exact hstays c hc

/-- A column the transaction sees is on the board it is stored on. -/
theorem board_eq (h : HoldsBoard b own db) {c c₀ : ColumnRow}
    (hc : c ∈ rows ColumnRow (own.view db)) (hc₀ : c₀ ∈ rows ColumnRow db) (hid : c₀.id = c.id) :
    c₀.boardId = c.boardId := by
  rcases mem_rows_view hc with hput | ⟨_, hold⟩
  · exact h.stays c hput c₀ hc₀ hid
  · rw [eq_of_id hc₀ hold hid]

/-- Columns can be repositioned. -/
theorem reposition {β : Type} (h : HoldsBoard b own db) {e : Effect kurul β}
    (he : ∀ w ∈ e.writes, Repositions ColumnRow (own.view db) w) :
    HoldsBoard b (own.add e) db := by
  refine h.add (fun w hw => ?_) (fun c hc c₀ hc₀ hid => ?_)
  · obtain ⟨r, _, p, rfl⟩ := he w hw
    exact ⟨_, rfl, nofun⟩
  · obtain ⟨r, hr, p, heq⟩ := he _ hc
    obtain rfl : c = (Placed.setPosition p).apply r := row_injective (Write.put.inj heq)
    exact h.board_eq (c := r) hr hc₀ hid

/-- A column that was not there is on the board it is put on. -/
theorem create {β : Type} (h : HoldsBoard b own db) {c : ColumnRow} {e : Effect kurul β}
    (he : e.writes = [.put (.column c)]) (hnew : (own.view db).get? ⟨.column, c.id⟩ = none) :
    HoldsBoard b (own.add e) db := by
  refine h.add (fun w hw => ?_) (fun c' hc' c₀ hc₀ hid => ?_)
  · rw [he] at hw
    exact ⟨_, List.mem_singleton.mp hw, nofun⟩
  · rw [he] at hc'
    obtain rfl : c' = c := by simpa using hc'
    have hdel : .del ⟨.column, c'.id⟩ ∉ own.delta := by
      intro hd
      obtain ⟨v, hv, _⟩ := h.puts _ hd
      cases hv
    have hget : db.get? ⟨.column, c'.id⟩ = some (.column c₀) := by
      rw [← hid]
      exact get?_row (R := ColumnRow) hc₀
    have hsome : ((own.view db).get? ⟨.column, c'.id⟩).isSome = true :=
      Store.isSome_get?_applyAll hdel db (by rw [hget]; rfl)
    rw [hnew] at hsome
    cases hsome

/-- Nothing the transaction has written takes a column away. -/
theorem columnsStay (h : HoldsBoard b own db) : ColumnsStay db (own.view db) := by
  intro c hc
  have hdel : .del ⟨.column, c.id⟩ ∉ own.delta := by
    intro hd
    obtain ⟨v, hv, _⟩ := h.puts _ hd
    cases hv
  have hget : db.get? ⟨.column, c.id⟩ = some (.column c) := get?_row (R := ColumnRow) hc
  have hsome : ((own.view db).get? ⟨.column, c.id⟩).isSome = true :=
    Store.isSome_get?_applyAll hdel db (by rw [hget]; rfl)
  obtain ⟨v, hv⟩ := Option.isSome_iff_exists.mp hsome
  obtain ⟨c', rfl, hc', hid⟩ := (get?_eq_some (R := ColumnRow)).mp hv
  exact ⟨c', hc', hid, (h.board_eq hc' hc hid.symm).symm⟩

/-- Under the lock the transaction can work on the board's columns. -/
theorem guarding : Guarding (columnSpacing ops db₀ boardId) ColumnRow b (HoldsBoard b) where
  later hl h := ⟨h.held hl.1.1, hl.1.2.2 b h.lock⟩
  add _ he h := h.reposition he

/-- A transaction that has put columns only on the board it has locked may commit, if the columns of
the one board are apart then. -/
theorem commits {a : Act kurul} (h : HoldsBoard b own db)
    (howns : ∀ c : ColumnRow, .put (.column c) ∈ own.delta → c.boardId = b)
    (hinv : (columnSpacing ops db₀ boardId).Inv db) (hap : ApartIn ColumnRow (own.view db) boardId)
    (hdoes : (ops i).Changes db (own.view db)) :
    (columnSpacing ops db₀ boardId).Commits i a own.locks db (own.view db) := by
  refine ⟨⟨fun k => ?_, hap⟩, ⟨h.columnsStay, hdoes⟩, fun o hcomp => ⟨?_, h.columnsStay, ?_⟩⟩
  · rw [Local.get?_view_of_not_wrote (fun hw => ?_), hinv.1]
    obtain ⟨w, hw, heq⟩ := List.mem_map.mp hw
    obtain ⟨v, rfl, hv⟩ := h.puts w hw
    exact hv (by rw [← keyed_key, ← Write.key_put, heq])
  · exact Local.held_of_compatible (fun w hw => own.covered w hw) hcomp db
  · intro k hk c hc hboard
    rcases mem_rows_view hc with hput | ⟨_, hold⟩
    · refine absurd ⟨?_, rfl⟩ (hcomp _ h.lock _ hk)
      rw [← howns c hput, ← hboard]
      rfl
    · exact ⟨c, hold, rfl, hboard, rfl⟩

end HoldsBoard

/-! ## Creating and moving -/

/-- What a body's answer has to come with for its `COMMIT` to be safe. -/
def Committable {α : Type} (ops : ι → ColumnOp) (db₀ : Db) (boardId : Id) (i : ι) :
    α → Local kurul → Db → Prop :=
  CommitSafe (columnSpacing ops db₀ boardId) i .transaction fun _ _ => True

/-- A list written in full is committable: apart, if it is the list of the one board. -/
theorem Listed.committable {α : Type} {ps : List PositionUpdate}
    (hdoes : ∀ db', (columnSpacing ops db₀ boardId).Later own db db' →
      (ops i).Changes db' (own.view db')) (hb : HoldsBoard b own db)
    (hl : Listed ColumnRow b ps [] own db) (hsep : b = boardId → Separated ps) (a : α) :
    Committable ops db₀ boardId i a own db := by
  intro db' hlater _
  have hchanges := hdoes db' hlater
  obtain ⟨hb, hsheds⟩ := HoldsBoard.guarding.later hlater hb
  replace hl := hl.sheds hsheds
  refine ⟨hb.commits hl.owns hlater.2 ?_ hchanges, trivial⟩
  by_cases heq : boardId = b
  · rw [heq]
    exact hl.apart (hsep heq.symm)
  · exact hl.elsewhere heq hlater.2.2

/-- The lock of a board that is there. -/
theorem Safe_lockBoard {Q : Unit → Local kurul → Db → Prop}
    (hthere : (db₀.get? ⟨.board, b⟩).isSome = true)
    (h : ∀ db', (columnSpacing ops db₀ boardId).Later .empty db db' → ∀ own : Local kurul,
      own.delta = [] → ⟨⟨.board, b⟩, .update⟩ ∈ own.locks → Q () own db') :
    (lockRow ⟨.board, b⟩).Safe (columnSpacing ops db₀ boardId) i Q .empty db := by
  refine Safe_lockRow fun db' hl own hdelta _ hlock => h db' hl own hdelta ?_
  refine hlock.resolve_left fun hgone => ?_
  rw [Local.view_empty, hl.2.1 b] at hgone
  rw [hgone] at hthere
  cases hthere

/-- A new column of the board, under the lock. -/
theorem create_listed {Q : ColumnRow → Local kurul → Db → Prop} {c : ColumnRow}
    {ps : List PositionUpdate} (hc : c.boardId = b)
    (hQ : ∀ own db, HoldsBoard b own db →
      Listed ColumnRow b (⟨c.id, c.position⟩ :: ps) [] own db → Q c own db)
    (hb : HoldsBoard b own db) (hl : Listed ColumnRow b ps [] own db) :
    (Kurul.create c).Safe (columnSpacing ops db₀ boardId) i Q own db := by
  refine Safe_create fun db' hlater hnew => ?_
  obtain ⟨hb, hsheds⟩ := HoldsBoard.guarding.later hlater hb
  refine hQ _ db' (hb.create rfl (get?_of_insertRefusal hnew)) ((hl.sheds hsheds).put hc rfl ?_ ?_)
  · exact List.mem_cons_self ..
  · exact fun u hu _ => List.mem_cons_of_mem _ hu

theorem createBody_committable {dto : CreateColumnDto} (hfree : ∀ db db', (ops i).Changes db db')
    (hthere : (db₀.get? ⟨.board, b⟩).isSome = true) :
    (createBody b dto).Safe (columnSpacing ops db₀ boardId) i (Committable ops db₀ boardId i)
      .empty db := by
  simp only [createBody, Tx.Safe_bind]
  refine Safe_lockBoard hthere fun db₁ _ own₁ hdelta hlock => ?_
  refine Safe_query fun db₂ hl₂ => Safe_ofExcept fun slot hslot => ?_
  rw [Local.view_of_nil hdelta] at hslot ⊢
  have hof := resolveCreateNeighbors_ok hslot
  refine makeRoom_listed HoldsBoard.guarding (siblings_sorted ..) hof.slice hof.le
    (fun p own db₃ ps hb hl hsep => ?_) (HoldsBoard.start hdelta hlock) (Listed.read hdelta)
  intro id
  refine create_listed rfl (fun own db hb hl => Safe_query fun db₄ hl₄ => ?_) hb hl
  obtain ⟨hb, hsheds⟩ := HoldsBoard.guarding.later hl₄ hb
  refine Listed.committable (fun _ _ => hfree _ _) hb (hl.sheds hsheds) (fun heq => hsep ?_ id) _
  obtain rfl : b = boardId := heq
  exact separated_siblings hl₂.2.2

/-- The write of a move, under the lock of the board the column is on. -/
theorem writeMove_listed {Q : ColumnRow → Local kurul → Db → Prop} {workspaceId columnId : Id}
    {p : Position} {ps ps' : List PositionUpdate} (hself : ⟨columnId, p⟩ ∈ ps')
    (hps : ∀ u ∈ ps, u.id ≠ columnId → u ∈ ps')
    (hthere : ∃ c ∈ rows ColumnRow db, c.id = columnId ∧ c.boardId = b)
    (hQ : ∀ x own db, HoldsBoard b own db → Listed ColumnRow b ps' [] own db → Q x own db)
    (hb : HoldsBoard b own db) (hl : Listed ColumnRow b ps [] own db) :
    (writeMove workspaceId columnId p).Safe (columnSpacing ops db₀ boardId) i Q own db := by
  refine Safe_update fun db' hlater r hr _ => ?_
  obtain ⟨hb, hsheds⟩ := HoldsBoard.guarding.later hlater hb
  obtain ⟨hmem, hid⟩ := byId_eq_some.mp (of_columnScope hr)
  have hboard : r.boardId = b := by
    obtain ⟨c, hc, hcid, hcb⟩ := hthere
    obtain ⟨c', hc', hcid', hcb'⟩ := hlater.1.2.1 c hc
    rw [← hb.board_eq hmem hc' ((hcid'.trans hcid).trans hid.symm), hcb', hcb]
  have hlist : Placed.list ((Placed.setPosition p).apply r) = b := by
    rw [Placed.list_set]
    exact hboard
  refine hQ _ _ db' (hb.reposition fun w hw => ?_) ((hl.sheds hsheds).put hlist rfl ?_ ?_)
  · exact ⟨r, hmem, p, List.mem_singleton.mp hw⟩
  · rw [Patch.id_apply, Placed.position_set, hid]
    exact hself
  · rw [Patch.id_apply, hid]
    exact hps

theorem place_committable {workspaceId : Id} {column : ColumnRow} {l : List Sibling}
    {slot : InsertionSlot Sibling} (hfree : ∀ db db', (ops i).Changes db db')
    (hs : l.Pairwise fun a b => a.position ≤ b.position)
    (hsep : column.boardId = boardId → Separated (entries l))
    (hslice : slot = sliceSlot (l.filter fun s => s.id ≠ column.id) slot.insertionIndex)
    (hk : slot.insertionIndex ≤ (l.filter fun s => s.id ≠ column.id).length)
    (hthere : ∃ c ∈ rows ColumnRow db, c.id = column.id ∧ c.boardId = column.boardId)
    (hb : HoldsBoard column.boardId own db)
    (hl : Listed ColumnRow column.boardId (entries l) [] own db) :
    (place workspaceId column.id column (l.filter fun s => s.id ≠ column.id) slot).Safe
      (columnSpacing ops db₀ boardId) i (Committable ops db₀ boardId i) own db := by
  have hkeep : ∀ u ∈ entries l, u.id ≠ column.id →
      u ∈ entries (l.filter fun s => s.id ≠ column.id) := fun u => mem_entries_filter
  have hsepr : column.boardId = boardId → Separated (entries (l.filter fun s => s.id ≠ column.id)) :=
    fun heq => (hsep heq).filter _
  have hsr : (l.filter fun s => s.id ≠ column.id).Pairwise fun a b => a.position ≤ b.position :=
    hs.filter _
  have hother : ∀ s ∈ l.filter fun s => s.id ≠ column.id, s.id ≠ column.id :=
    fun s hs' => of_decide_eq_true (List.mem_filter.mp hs').2
  generalize (l.filter fun s => s.id ≠ column.id) = remaining at hslice hk hkeep hsepr hsr hother ⊢
  simp only [place]
  split
  · simp only [Tx.Safe_bind]
    refine writeMove_listed (List.mem_cons_self ..)
      (fun u hu hne => List.mem_cons_of_mem _ (hkeep u hu hne)) hthere (fun x own db hb hl => ?_) hb hl
    refine moveBatch_listed (m := ⟨column.id, column.position⟩) HoldsBoard.guarding hk hother
      (fun own db ps hb hl hsep => ?_) hb hl
    refine Safe_query fun db₁ hl₁ => Safe_orThrow fun refreshed _ => Safe_query fun db₂ hl₂ => ?_
    obtain ⟨hb, hsheds⟩ := HoldsBoard.guarding.later hl₁ hb
    obtain ⟨hb, hsheds'⟩ := HoldsBoard.guarding.later hl₂ hb
    exact Listed.committable (fun _ _ => hfree _ _) hb ((hl.sheds hsheds).sheds hsheds') (fun _ => hsep) _
  · rename_i hn
    simp only [Tx.Safe_bind]
    refine writeMove_listed (List.mem_cons_self ..)
      (fun u hu hne => List.mem_cons_of_mem _ (hkeep u hu hne)) hthere (fun x own db hb hl => ?_) hb hl
    refine Safe_query fun db₁ hl₁ => ?_
    obtain ⟨hb, hsheds⟩ := HoldsBoard.guarding.later hl₁ hb
    exact Listed.committable (fun _ _ => hfree _ _) hb (hl.sheds hsheds) (fun heq =>
      separated_midpoint hsr (hsepr heq) hslice hk (by simpa using hn) column.id) _

theorem moveBody_committable {workspaceId columnId : Id} {dto : MoveColumnDto}
    (hfree : ∀ db db', (ops i).Changes db db') :
    (moveBody workspaceId columnId dto).Safe (columnSpacing ops db₀ boardId) i
      (Committable ops db₀ boardId i) .empty db := by
  simp only [moveBody, Tx.Safe_bind]
  refine Safe_query fun db₁ hl₁ => Safe_orThrow fun column hcolumn => Safe_throwIf fun _ => ?_
  rw [Local.view_empty] at hcolumn
  obtain ⟨hmem, rfl⟩ := byId_eq_some.mp (of_columnScope hcolumn)
  have hthere : (db₀.get? ⟨.board, column.boardId⟩).isSome = true := by
    have hp := List.find?_some hcolumn
    simp only [columnScope, Bool.and_eq_true, onBoardOf] at hp
    obtain ⟨board, hboard, _⟩ := (Option.any_eq_true _ _).mp hp.2
    obtain ⟨hbmem, hbid⟩ := byId_eq_some.mp hboard
    have hget : db₁.get? ⟨.board, board.id⟩ = some (.board board) := get?_row (R := BoardRow) hbmem
    rw [← hl₁.2.1, ← show board.id = column.boardId from hbid, hget]
    rfl
  refine Safe_lockBoard hthere fun db₂ hl₂ own₁ hdelta hlock => ?_
  refine Safe_query fun db₃ hl₃ => Safe_ofExcept fun slot hslot => ?_
  rw [Local.view_of_nil hdelta] at hslot ⊢
  have hof := resolveMoveNeighbors_ok hslot
  refine place_committable hfree (siblings_sorted ..) (fun heq => ?_) hof.slice hof.le
    ((hl₂.1.2.1.trans hl₃.1.2.1) column hmem) (HoldsBoard.start hdelta hlock) (Listed.read hdelta)
  rw [heq]
  exact separated_siblings hl₃.2.2

/-! ## Seeding -/

/-- The transaction holds the lock of board `b`, which has no column; all it has written are new
rows, none of them a board. -/
structure Filling (b : Id) (vs : List Row) (own : Local kurul) (db : Db) : Prop where
  lock : ⟨⟨.board, b⟩, .update⟩ ∈ own.locks
  delta : own.delta = vs.map .put
  tables : ∀ v ∈ vs, v.key.table ≠ .board
  bare : ∀ c ∈ rows ColumnRow db, c.boardId ≠ b
  fresh : ∀ v ∈ vs, db.get? v.key = none
  distinct : (vs.map Row.key).Nodup

namespace Filling

variable {vs : List Row}

theorem wrote_iff (h : Filling b vs own db) {k : Key} : own.Wrote k ↔ ∃ v ∈ vs, v.key = k := by
  rw [Local.Wrote, h.delta, List.map_map, List.mem_map]
  rfl

theorem later (h : Filling b vs own db) (hl : (columnSpacing ops db₀ boardId).Later own db db') :
    Filling b vs own db' := by
  refine ⟨h.lock, h.delta, h.tables, fun c hc hboard => ?_, fun v hv => ?_, h.distinct⟩
  · obtain ⟨c₀, hc₀, _, hb₀, _⟩ := hl.1.2.2 b h.lock c hc hboard
    exact h.bare c₀ hc₀ hb₀
  · rw [hl.1.1.wrote (h.wrote_iff.mpr ⟨v, hv, rfl⟩)]
    exact h.fresh v hv

/-- One more new row. -/
theorem create {β : Type} (h : Filling b vs own db) {v : Row} (hv : v.key.table ≠ .board)
    (hnew : (own.view db).get? v.key = none) {e : Effect kurul β} (he : e.writes = [.put v]) :
    Filling b (vs ++ [v]) (own.add e) db := by
  have hwrote : ¬ own.Wrote v.key := by
    intro hw
    obtain ⟨u, hu, hkey⟩ := h.wrote_iff.mp hw
    have hput : .put u ∈ own.delta := by
      rw [h.delta]
      exact List.mem_map_of_mem hu
    have hdel : .del (Keyed.key u) ∉ own.delta := by
      rw [h.delta]
      simp
    have hsome : ((own.view db).get? u.key).isSome = true :=
      Store.isSome_get?_of_put hput hdel db
    rw [hkey, hnew] at hsome
    cases hsome
  refine ⟨List.mem_append_left _ h.lock, ?_, ?_, h.bare, ?_, ?_⟩
  · rw [Local.delta_add, h.delta, he, List.map_append, List.map_singleton]
  · intro u hu
    rcases List.mem_append.mp hu with hu | hu
    · exact h.tables u hu
    · rw [List.mem_singleton.mp hu]
      exact hv
  · intro u hu
    rcases List.mem_append.mp hu with hu | hu
    · exact h.fresh u hu
    · rw [List.mem_singleton.mp hu, ← Local.get?_view_of_not_wrote hwrote]
      exact hnew
  · rw [List.map_append, List.nodup_append]
    refine ⟨h.distinct, by simp, fun k hk k' hk' heq => hwrote ?_⟩
    obtain ⟨u, hu, rfl⟩ := List.mem_map.mp hk
    exact h.wrote_iff.mpr ⟨u, hu, heq.trans (List.mem_singleton.mp hk')⟩

theorem holdsBoard (h : Filling b vs own db) : HoldsBoard b own db := by
  refine ⟨h.lock, fun w hw => ?_, fun c hc c₀ hc₀ hid => ?_⟩
  · rw [h.delta] at hw
    obtain ⟨v, hv, rfl⟩ := List.mem_map.mp hw
    exact ⟨v, rfl, h.tables v hv⟩
  · rw [h.delta] at hc
    obtain ⟨v, hv, heq⟩ := List.mem_map.mp hc
    obtain rfl : v = .column c := Write.put.inj heq
    have hget : db.get? ⟨.column, c₀.id⟩ = some (.column c₀) := get?_row (R := ColumnRow) hc₀
    have hnone : db.get? ⟨.column, c.id⟩ = none := h.fresh _ hv
    rw [hid, hnone] at hget
    cases hget

/-- The board's columns, as the transaction sees them, are the ones it put there. -/
theorem mem_columns (h : Filling b vs own db) {c : ColumnRow}
    (hc : c ∈ rows ColumnRow (own.view db)) (hboard : c.boardId = b) : .column c ∈ vs := by
  rcases mem_rows_view hc with hput | ⟨_, hold⟩
  · rw [h.delta] at hput
    obtain ⟨v, hv, heq⟩ := List.mem_map.mp hput
    rwa [Write.put.inj heq] at hv
  · exact absurd hboard (h.bare c hold)

end Filling

theorem record_filling {vs : List Row} {input : RecordActivityInput}
    {Q : ActivityRow → Local kurul → Db → Prop}
    (hQ : ∀ v own db, Records input v → Filling b (vs ++ [.activity v]) own db → Q v own db)
    (h : Filling b vs own db) :
    (ActivityService.record input).Safe (columnSpacing ops db₀ boardId) i Q own db := by
  intro id now
  refine Safe_create fun db' hl hnew => hQ _ _ db' ⟨rfl, rfl, rfl, rfl, rfl⟩ ?_
  refine (h.later hl).create ?_ (get?_of_insertRefusal hnew) rfl
  nofun

/-- The audit entries of the seeded columns. -/
theorem recordSeeded_filling {workspaceId actorId : Id} {Q : Unit → Local kurul → Db → Prop} :
    ∀ (columns : List ColumnRow) {vs : List Row} {own : Local kurul} {db : Db},
      (∀ entries own db, List.Forall₂ (fun c v => Records (seededInput workspaceId b actorId c) v)
        columns entries → Filling b (vs ++ entries.map Row.activity) own db → Q () own db) →
      Filling b vs own db → (recordSeeded workspaceId b actorId columns).Safe
        (columnSpacing ops db₀ boardId) i Q own db := by
  intro columns
  induction columns with
  | nil =>
    intro vs own db hQ h
    exact hQ [] own db .nil (by simpa using h)
  | cons c columns ih =>
    intro vs own db hQ h
    simp only [recordSeeded, Tx.Safe_bind]
    refine record_filling (fun v own db hv h => ih (fun entries own db hentries h => ?_) h) h
    refine hQ (v :: entries) own db (.cons hv hentries) ?_
    rwa [List.append_assoc] at h

theorem createDefaultsBody_committable {workspaceId actorId : Id} {locale : Locale}
    (hop : ∀ db db', (∃ s : Seeding workspaceId b actorId, Seeds s db db') → (ops i).Changes db db')
    (hthere : (db₀.get? ⟨.board, b⟩).isSome = true) :
    (createDefaultsBody workspaceId b actorId locale).Safe (columnSpacing ops db₀ boardId) i
      (Committable ops db₀ boardId i) .empty db := by
  simp only [createDefaultsBody, Tx.Safe_bind]
  refine Safe_lockBoard hthere fun db₁ _ own₁ hdelta hlock => ?_
  refine Safe_query fun db₂ hl₂ => Safe_throwIf fun hcount => ?_
  have hbare : ∀ c ∈ rows ColumnRow db₂, c.boardId ≠ b := by
    rw [Local.view_of_nil hdelta] at hcount
    simpa using hcount
  refine Safe_withIds fun columns hcolumns => Safe_createMany fun db₃ hl₃ hnew e he => ?_
  have hwhole : List.Forall₂ (fun d c => c = seedRow b c.id d) (defaultColumnsFor locale) columns :=
    hcolumns.imp fun d c hc => by
      obtain ⟨id, rfl⟩ := hc
      rfl
  obtain ⟨howns, happart⟩ := seeded_columns hwhole
  have hfill : Filling b (columns.map Row.column) (own₁.add e) db₃ := by
    rw [Local.view_of_nil hdelta] at hnew
    refine ⟨List.mem_append_left _ hlock, ?_, ?_, fun c hc hboard => ?_, ?_, ?_⟩
    · rw [Local.delta_add, hdelta, he, List.nil_append, List.map_map]
      rfl
    · intro v hv
      obtain ⟨c, _, rfl⟩ := List.mem_map.mp hv
      nofun
    · obtain ⟨c₀, hc₀, _, hb₀, _⟩ := hl₃.1.2.2 b hlock c hc hboard
      exact hbare c₀ hc₀ hb₀
    · exact get?_of_insertManyRefusal hnew
    · exact nodup_of_insertManyRefusal hnew
  refine Safe_query fun db₄ hl₄ => ?_
  replace hfill := hfill.later hl₄
  have hview : (own₁.add e).view db₄ = db₄.applyAll (columns.map fun c => .put (Model.row c)) := by
    rw [Local.view, hfill.delta, List.map_map]
    rfl
  have hids : (columns.map fun c => Model.id c).Nodup := by
    refine List.Nodup.of_map (fun id => (⟨.column, id⟩ : Key)) ?_
    rw [List.map_map]
    have hdistinct := hfill.distinct
    rwa [List.map_map] at hdistinct
  have hread : ordered ColumnRow ((own₁.add e).view db₄) b = columns := by
    refine ordered_eq (happart.imp fun hgap => rank_lt ?_) fun c => ⟨fun hc => ?_, fun hc => ?_⟩
    · exact lt_of_lt_of_le (lt_add_of_pos_right _ (by norm_num)) hgap
    · refine ⟨?_, howns c hc⟩
      rw [hview]
      exact (mem_rows_puts hids).mpr (.inl ⟨c, hc, rfl⟩)
    · have hmem := hfill.mem_columns hc.1 hc.2
      obtain ⟨c', hc', heq⟩ := List.mem_map.mp hmem
      rwa [← Row.column.inj heq]
  have hfst : ∀ n : ColumnRow → Nat, (columns.map fun c => (c, n c)).map Prod.fst = columns := by
    intro n
    rw [List.map_map]
    exact List.map_id columns
  rw [hread, hfst]
  refine recordSeeded_filling columns (fun entries own db₅ hentries hfill => ?_) hfill
  have hcolumn : ∀ c, Row.column c ∈ columns.map Row.column ++ entries.map Row.activity →
      c ∈ columns := by
    intro c hc
    rcases List.mem_append.mp hc with hc | hc
    · obtain ⟨c', hc', heq⟩ := List.mem_map.mp hc
      rwa [← Row.column.inj heq]
    · obtain ⟨v, _, heq⟩ := List.mem_map.mp hc
      cases heq
  have hlisted : Listed ColumnRow b (columns.map fun c => ⟨c.id, c.position⟩) [] own db₅ := by
    refine ⟨fun c hc => ?_, fun c hc hboard => .inl ?_⟩
    · rw [hfill.delta] at hc
      obtain ⟨v, hv, heq⟩ := List.mem_map.mp hc
      rw [Write.put.inj heq] at hv
      exact howns c (hcolumn c hv)
    · exact List.mem_map.mpr ⟨c, hcolumn c (hfill.mem_columns hc hboard), rfl⟩
  refine Listed.committable (fun db₆ hl₆ => ?_) hfill.holdsBoard hlisted
    (fun _ => separated_seeded happart) _
  have hfill₆ := hfill.later hl₆
  refine hop _ _ ⟨⟨locale, columns, entries, hwhole, hentries⟩, hfill₆.bare, hfill₆.fresh,
    hfill₆.distinct, ?_⟩
  rw [Local.view, hfill₆.delta]
  rfl

/-! ## The calls -/

/-- A board that is found is there from the start. -/
theorem assertBoard_safe {workspaceId : Id} {Q : BoardRow → Db → Prop}
    (hQ : ∀ r db, (columnSpacing ops db₀ boardId).Inv db →
      (db₀.get? ⟨.board, b⟩).isSome = true → Q r db) :
    (Call.auto (assertBoard workspaceId b)).Safe (columnSpacing ops db₀ boardId) i Q db := by
  rw [assertBoard, Call.auto_bind, Call.Safe_bind, findFirst, query, Call.auto_exec]
  refine Call.Safe_exec fun db' hl _ e he => ?_
  rw [← Except.ok.inj he]
  refine ⟨Protocol.Commits.refl hl.2, ?_⟩
  rw [Store.applyAll_nil]
  cases hfound : (rows BoardRow db').find? (boardScope workspaceId b db') with
  | none => trivial
  | some board =>
    obtain ⟨hmem, hid⟩ := byId_eq_some.mp (of_boardScope hfound)
    have hget : db'.get? ⟨.board, board.id⟩ = some (.board board) := get?_row (R := BoardRow) hmem
    refine hQ board db' hl.2 ?_
    rw [← hl.2.1, ← show board.id = b from hid, hget]
    rfl

theorem resolve_safe {rt : Runtime} {userId : Id} {acceptLanguage : Option JsString}
    {Q : Locale → Db → Prop} (hQ : ∀ l db, (columnSpacing ops db₀ boardId).Inv db → Q l db)
    (hinv : (columnSpacing ops db₀ boardId).Inv db) :
    (LocaleService.resolve rt (some userId) acceptLanguage).Safe (columnSpacing ops db₀ boardId) i Q
      db := by
  rw [LocaleService.resolve, Call.Safe_bind]
  refine Call.Safe_tryCatch_read (LocaleService.readOnly_read rt userId) (fun stored db hinv => ?_)
    (fun e db hinv => ?_) hinv
  · exact hQ _ db hinv
  · exact hQ _ db hinv

theorem emitEach_safe {workspaceId actorId : Id} {ids : List Id} {Q : Unit → Db → Prop}
    (hQ : Q () db) :
    (emitEach workspaceId actorId b ids).Safe (columnSpacing ops db₀ boardId) i Q db := by
  induction ids with
  | nil => exact hQ
  | cons id rest ih =>
    rw [emitEach, Call.Safe_bind]
    exact ih

theorem record_commits {v : ActivityRow} {a : Act kurul}
    (hfree : ∀ db db', (ops i).Changes db db') (hinv : (columnSpacing ops db₀ boardId).Inv db) :
    (columnSpacing ops db₀ boardId).Commits i a
      (refLocks (Row.activity v) ++ [Write.lock (.put (Row.activity v))]) db
      (db.put (Row.activity v)) := by
  have hcolumns : rows ColumnRow (db.put (Row.activity v)) = rows ColumnRow db := rows_put_of_ne nofun
  have hstay : ColumnsStay db (db.put (Row.activity v)) := by
    intro c hc
    exact ⟨c, hcolumns ▸ hc, rfl, rfl⟩
  refine ⟨⟨fun k => ?_, ?_⟩, ⟨hstay, hfree _ _⟩, fun o hcomp => ⟨?_, hstay, fun k _ => ?_⟩⟩
  · rw [Store.get?_put, if_neg nofun, hinv.1]
  · rw [ApartIn, hcolumns]
    exact hinv.2
  · have hlock : ∀ w ∈ [Write.put (Row.activity v)], w.lock ∈
        refLocks (Row.activity v) ++ [Write.lock (.put (Row.activity v))] := by
      intro w hw
      rw [List.mem_singleton.mp hw]
      exact List.mem_append_right _ List.mem_cons_self
    exact Local.held_of_compatible hlock hcomp db
  · rw [Sheds, hcolumns]
    exact Sheds.refl ColumnRow k db

/-- An audit entry written by itself. -/
theorem record_safe_auto {input : RecordActivityInput} {Q : ActivityRow → Db → Prop}
    (hfree : ∀ db db', (ops i).Changes db db') (hQ : ∀ v db, Q v db) :
    (Call.auto (ActivityService.record input)).Safe (columnSpacing ops db₀ boardId) i Q db := by
  simp only [ActivityService.record, Tx.fresh, Tx.now, Tx.draw_bind, Tx.ret_bind, Tx.clock_bind,
    Call.auto]
  intro id now
  show (Call.auto (Tx.exec (createStmt _))).Safe _ i Q db
  rw [Call.auto_exec]
  refine Call.Safe_exec fun db' hl _ e he => ?_
  obtain ⟨_, rfl⟩ := eval_create he
  exact ⟨record_commits hfree hl.2, hQ _ _⟩

theorem ColumnOp.call_safe :
    (ops i).call.Safe (columnSpacing ops db₀ boardId) i (fun _ _ => True) db := by
  cases hop : ops i with
  | createDefaults rt workspaceId b actorId acceptLanguage =>
    have hseeds : ∀ db db', (∃ s : Seeding workspaceId b actorId, Seeds s db db') →
        (ops i).Changes db db' := by
      intro db db' h
      rw [hop]
      exact .inr h
    simp only [ColumnOp.call, ColumnService.createDefaults, Call.Safe_bind]
    refine assertBoard_safe fun _ db hinv hthere => ?_
    refine resolve_safe (fun locale db hinv => ?_) hinv
    refine Call.Safe_transaction (Tx.Safe.mono (fun r own db h => ?_)
      (createDefaultsBody_committable hseeds hthere))
    exact fun db' hl hc => ⟨(h db' hl hc).1, emitEach_safe trivial⟩
  | create workspaceId b actorId dto =>
    have hfree : ∀ db db', (ops i).Changes db db' := by
      intro db db'
      rw [hop]
      trivial
    simp only [ColumnOp.call, ColumnService.create, Call.Safe_bind]
    refine assertBoard_safe fun _ db hinv hthere => ?_
    refine Call.Safe_transaction (Tx.Safe.mono (fun r own db h => ?_)
      (createBody_committable hfree hthere))
    exact fun db' hl hc => ⟨(h db' hl hc).1, record_safe_auto hfree fun _ _ => trivial⟩
  | move workspaceId columnId actorId dto =>
    have hfree : ∀ db db', (ops i).Changes db db' := by
      intro db db'
      rw [hop]
      trivial
    simp only [ColumnOp.call, ColumnService.move, Call.Safe_bind]
    exact Call.Safe_transaction (moveBody_committable hfree)

end Protocol

/-! ## What has been committed when a seeding ends -/

/-- Whether a session has committed. -/
def noteCommit (g : Option Unit) (a : Act kurul) (_saw _before _after : Db) : Option Unit :=
  match a with
  | .commit _ => some ()
  | _ => g

def ColumnOp.IsSeeding : ColumnOp → Prop
  | .createDefaults .. => True
  | _ => False

section Commits

variable {ι : Type} {i : ι} {ops : ι → ColumnOp} {b : Id} {own : Local kurul} {db db' : Db}

/-- A seeding changes the rows when it commits, and has committed when it has answered. -/
def committing (ops : ι → ColumnOp) : Sql.Ledger kurul ι (Option Unit) where
  note := noteCommit
  Within g g' := g' = g
  Inv _ := True
  Cond _ _ _ _ := True
  Guar i _ a db db' := (ops i).IsSeeding → (∃ l, a = .commit l) ∧ db' ≠ db
  Ends i r g := (ops i).IsSeeding → (r = none ↔ g = some ())
  note_quiet _ _ _ := rfl
  within_refl _ := rfl
  within_trans h h' := h'.trans h
  within_exec _ _ _ _ := rfl

/-- The transaction has put a row that is not stored. -/
def Adds (own : Local kurul) (db : Db) : Prop :=
  ∃ v : Row, .put v ∈ own.delta ∧ .del v.key ∉ own.delta ∧ db.get? v.key = none

namespace Adds

theorem held (h : Adds own db) (hh : own.Held db db') : Adds own db' := by
  obtain ⟨v, hput, hdel, hnone⟩ := h
  refine ⟨v, hput, hdel, ?_⟩
  rw [hh.wrote (k := v.key) (List.mem_map.mpr ⟨_, hput, rfl⟩)]
  exact hnone

theorem put {β : Type} (h : Adds own db) {v : Row} {e : Effect kurul β} (he : e.writes = [.put v]) :
    Adds (own.add e) db := by
  obtain ⟨u, hput, hdel, hnone⟩ := h
  refine ⟨u, List.mem_append_left _ hput, fun hd => ?_, hnone⟩
  rw [Local.delta_add, he] at hd
  rcases List.mem_append.mp hd with hd | hd
  · exact hdel hd
  · cases List.mem_singleton.mp hd

theorem view_ne (h : Adds own db) : own.view db ≠ db := by
  obtain ⟨v, hput, hdel, hnone⟩ := h
  intro heq
  have hsome : ((own.view db).get? v.key).isSome = true := Store.isSome_get?_of_put hput hdel db
  rw [heq, hnone] at hsome
  cases hsome

end Adds

theorem recordSeeded_kept {workspaceId actorId : Id}
    {Q : Unit → Option Unit → Local kurul → Db → Prop} (hQ : ∀ own db, Adds own db → Q () none own db) :
    ∀ (columns : List ColumnRow) {own : Local kurul} {db : Db}, Adds own db →
      (recordSeeded workspaceId b actorId columns).Kept (committing ops) i Q none own db := by
  intro columns
  induction columns with
  | nil => exact fun h => hQ _ _ h
  | cons c columns ih =>
    intro own db h
    simp only [recordSeeded, Tx.Kept_bind]
    exact Kept_record fun v db' hn _ _ _ _ _ => ih ((h.held hn.1).put rfl)

/-- With notes taken only of commits, a transaction that adds a row commits a change. -/
theorem Adds.commitKept {α : Type} {Q : α → Option Unit → Prop} {a : α} (h : Adds own db)
    (hQ : Q a (some ())) : CommitKept (committing ops) i .transaction Q a none own db :=
  fun _ hn => ⟨⟨trivial, .inr fun _ => ⟨⟨_, rfl⟩, (h.held hn.1).view_ne⟩⟩, hQ⟩

theorem createDefaultsBody_kept {workspaceId actorId : Id} {locale : Locale}
    {Q : List (ColumnRow × Nat) → Option Unit → Prop} (hQ : ∀ r, Q r (some ())) :
    (createDefaultsBody workspaceId b actorId locale).Kept (committing ops) i
      (CommitKept (committing ops) i .transaction Q) none .empty db := by
  simp only [createDefaultsBody, Tx.Kept_bind]
  refine Kept_lockRow fun db₁ _ own₁ hdelta => Kept_query fun db₂ _ => Kept_throwIf fun _ => ?_
  obtain ⟨d, ds, hds⟩ : ∃ d ds, defaultColumnsFor locale = d :: ds := ⟨_, _, rfl⟩
  rw [hds, withIds]
  simp only [Tx.Kept_bind]
  intro id
  refine Kept_withIds fun columns _ => ?_
  intro db₃ _ e he
  obtain ⟨hnew, rfl⟩ := eval_createMany he
  rw [Local.view_of_nil hdelta] at hnew
  refine Kept_query fun db₄ hn₄ => recordSeeded_kept (fun own db h => h.commitKept (hQ _)) _ ?_
  refine Adds.held ⟨.column (seedRow b id d), ?_, ?_, ?_⟩ hn₄.1
  · rw [Local.delta_add, hdelta]
    exact List.mem_cons_self
  · rw [Local.delta_add, hdelta]
    simp
  · exact get?_of_insertManyRefusal hnew _ List.mem_cons_self

theorem emitEach_committing {workspaceId actorId : Id} {ids : List Id} {g : Option Unit}
    {Q : Unit → Option Unit → Prop} {E : ApiError → Option Unit → Prop} (hQ : Q () g) :
    (emitEach workspaceId actorId b ids).Kept (committing ops) i Q E g := by
  induction ids with
  | nil => exact hQ
  | cons id rest ih =>
    rw [emitEach, Call.Kept_bind]
    exact fun _ _ => ih

theorem createDefaults_kept {rt : Runtime} {workspaceId actorId : Id}
    {acceptLanguage : Option JsString} {Q : List ColumnDto → Option Unit → Prop}
    {E : ApiError → Option Unit → Prop} (hQ : ∀ r, Q r (some ())) (hE : ∀ x, E x none) :
    (createDefaults rt workspaceId b actorId acceptLanguage).Kept (committing ops) i Q E none := by
  have hrest : ∀ locale, (do
      let created ← Call.transaction .transaction (createDefaultsBody workspaceId b actorId locale)
      emitEach workspaceId actorId b (created.map fun r => r.1.id)
      return created.map fun r => toDto r.1 r.2 : Call kurul (List ColumnDto)).Kept (committing ops) i
        Q E none := by
    intro locale
    simp only [Call.Kept_bind]
    refine Call.Kept_transaction (fun x g' hg => ?_) fun db _ => createDefaultsBody_kept fun r => ?_
    · rw [show g' = none from hg]
      exact hE x
    · exact emitEach_committing (hQ _)
  rw [createDefaults, Call.Kept_bind]
  refine Call.Kept_auto_unnoted (readOnly_assertBoard _ _) (fun _ _ _ => rfl) (fun _ => ?_) hE
  rw [Call.Kept_bind, LocaleService.resolve, Call.Kept_bind, LocaleService.readQuietly,
    Call.Kept_tryCatch]
  refine Call.Kept_auto_unnoted (LocaleService.readOnly_read rt actorId) (fun _ _ _ => rfl)
    (fun stored => ?_) (fun e => ?_)
  · exact hrest _
  · exact hrest _

theorem ColumnOp.call_kept : (ops i).call.Kept (committing ops) i
    (fun _ => (committing ops).Ends i none) (fun e => (committing ops).Ends i (some e)) none := by
  by_cases hseeding : (ops i).IsSeeding
  · cases hop : ops i with
    | createDefaults rt workspaceId b actorId acceptLanguage =>
      rw [ColumnOp.call, Call.Kept_bind]
      exact createDefaults_kept (fun _ _ => by simp) fun _ _ => by simp
    | create => simp [hop, ColumnOp.IsSeeding] at hseeding
    | move => simp [hop, ColumnOp.IsSeeding] at hseeding
  · exact Call.Kept_any (fun _ => trivial) (fun _ _ _ _ h => absurd h hseeding)
      (fun _ _ h => absurd h hseeding) (fun _ _ h => absurd h hseeding) _

/-- A commit stays on record. -/
theorem committed_of_booked [DecidableEq ι] {σ₀ σ : Config kurul ι} {g : ι → Option Unit}
    {Ok : ι → Option Unit → Act kurul → Db → Prop} {past : List (Past kurul ι (Option Unit))}
    (h : Booked noteCommit none Ok σ₀ σ g past) :
    ∀ p ∈ past, (∃ l, p.act = .commit l) → g p.who = some () := by
  induction h with
  | refl => intro p hp; cases hp
  | @step σ σ' g past j a _ _ _ ih =>
    intro p hp hcommit
    by_cases hj : p.who = j
    · rw [hj, Function.update_self]
      rcases List.mem_append.mp hp with hp | hp
      · have hbefore := ih p hp hcommit
        rw [hj] at hbefore
        cases a <;> first | rfl | exact hbefore
      · obtain ⟨l, hl⟩ := hcommit
        rw [List.mem_singleton.mp hp] at hl
        obtain rfl : a = .commit l := hl
        rfl
    · rw [Function.update_of_ne hj]
      rcases List.mem_append.mp hp with hp | hp
      · exact ih p hp hcommit
      · rw [List.mem_singleton.mp hp] at hj
        exact absurd rfl hj

end Commits

/-! ## Any number of calls -/

/-- A step that seeds a board: one of a seeding's, and the committed rows change. -/
def SeedStep {ι : Type} (ops : ι → ColumnOp) (boardId : Id)
    (p : Past kurul ι (Option Unit)) : Prop :=
  (∃ rt workspaceId actorId acceptLanguage,
    ops p.who = .createDefaults rt workspaceId boardId actorId acceptLanguage) ∧ p.after ≠ p.before

section Runs

variable {ι : Type} [DecidableEq ι] {ops : ι → ColumnOp} {db : Db} {boardId : Id}
  {σ : Config kurul ι} {g : ι → Option Unit} {past : List (Past kurul ι (Option Unit))}

theorem good_of_booked (h : SpacedIn ColumnRow db boardId)
    (hrun : Booked noteCommit none (fun _ _ _ _ => True) (Config.start db fun i => (ops i).call)
      σ g past) :
    σ.Good (columnSpacing ops db boardId) ∧ ∀ p ∈ past, p.after = p.before ∨
      (columnSpacing ops db boardId).Guar p.who p.act p.before p.after :=
  hrun.safe (Config.Good.start ⟨fun _ => rfl, spacedIn_iff.mp h⟩ fun _ => ColumnOp.call_safe)
    fun _ _ _ _ _ => trivial

/-- The first seeding leaves columns, columns stay, and a seeding finds none. -/
theorem one_seedStep (h : SpacedIn ColumnRow db boardId)
    (hrun : Booked noteCommit none (fun _ _ _ _ => True) (Config.start db fun i => (ops i).call)
      σ g past) :
    (past.Pairwise fun p q => ¬ (SeedStep ops boardId p ∧ SeedStep ops boardId q)) ∧
      ((∃ p ∈ past, SeedStep ops boardId p) → ∃ c ∈ rows ColumnRow σ.db, c.boardId = boardId) := by
  induction hrun with
  | refl => exact ⟨.nil, fun ⟨p, hp, _⟩ => by cases hp⟩
  | @step σ σ' g past i a hbefore hok hs ih =>
    obtain ⟨hpairs, hleft⟩ := ih
    have hguar := (good_of_booked h (hbefore.step hok hs)).2 _
      (List.mem_append_right past (List.mem_singleton_self _))
    have hseeds : SeedStep ops boardId ⟨i, g i, a, σ.db, σ'.db⟩ →
        ∃ workspaceId actorId, ∃ s : Seeding workspaceId boardId actorId, Seeds s σ.db σ'.db := by
      rintro ⟨⟨rt, workspaceId, actorId, acceptLanguage, hop⟩, hne⟩
      have hdoes := (hguar.resolve_left hne).2
      rw [show ops (Past.who ⟨i, g i, a, σ.db, σ'.db⟩) = _ from hop] at hdoes
      exact ⟨workspaceId, actorId, hdoes.resolve_left hne⟩
    refine ⟨?_, ?_⟩
    · rw [List.pairwise_append]
      refine ⟨hpairs, List.pairwise_singleton _ _, fun p hp q hq hboth => ?_⟩
      rw [List.mem_singleton.mp hq] at hboth
      obtain ⟨_, _, s, hs'⟩ := hseeds hboth.2
      obtain ⟨c, hc, hcb⟩ := hleft ⟨p, hp, hboth.1⟩
      exact hs'.bare c hc hcb
    · rintro ⟨p, hp, hseed⟩
      rcases List.mem_append.mp hp with hp | hp
      · obtain ⟨c, hc, hcb⟩ := hleft ⟨p, hp, hseed⟩
        rcases hguar with heq | hguar
        · have hsame : σ'.db = σ.db := heq
          exact ⟨c, hsame ▸ hc, hcb⟩
        · obtain ⟨c', hc', _, hcb'⟩ := hguar.1 c hc
          exact ⟨c', hc', hcb'.trans hcb⟩
      · rw [List.mem_singleton.mp hp] at hseed
        obtain ⟨_, _, s, hs'⟩ := hseeds hseed
        exact hs'.leaves_column

/-- A seeding commits the whole list on a board that has no column, or leaves nothing behind; at most
one does; and in every committed state the board's columns stand apart. -/
theorem defaults_seeded_once (h : SpacedIn ColumnRow db boardId)
    (hrun : Booked noteCommit none (fun _ _ _ _ => True) (Config.start db fun i => (ops i).call)
      σ g past) :
    (∀ i rt workspaceId actorId acceptLanguage,
      ops i = .createDefaults rt workspaceId boardId actorId acceptLanguage →
      (∀ p ∈ past, p.who = i → p.after = p.before ∨
        ∃ s : Seeding workspaceId boardId actorId, Seeds s p.before p.after) ∧
      ((∃ e, σ.ended i = some (some e)) → ∀ p ∈ past, p.who = i → p.after = p.before) ∧
      (σ.ended i = some none → ∃ p ∈ past, p.who = i ∧
        ∃ s : Seeding workspaceId boardId actorId, Seeds s p.before p.after)) ∧
    (past.Pairwise fun p q => ¬ (SeedStep ops boardId p ∧ SeedStep ops boardId q)) ∧
    SpacedIn ColumnRow σ.db boardId := by
  obtain ⟨hgood, hguar⟩ := good_of_booked h hrun
  obtain ⟨hkept, hcommits⟩ := hrun.good (L := committing ops)
    (Config.Kept.start trivial fun _ => ColumnOp.call_kept) fun _ _ _ _ _ => trivial
  refine ⟨fun i rt workspaceId actorId acceptLanguage hop => ?_, (one_seedStep h hrun).1,
    spacedIn_iff.mpr hgood.inv.2⟩
  have hseeding : (ops i).IsSeeding := by
    rw [hop]
    trivial
  have hstep : ∀ p ∈ past, p.who = i → p.after = p.before ∨
      ∃ s : Seeding workspaceId boardId actorId, Seeds s p.before p.after := by
    rintro p hp rfl
    rcases hguar p hp with heq | ⟨_, hdoes⟩
    · exact .inl heq
    · rwa [hop] at hdoes
  refine ⟨hstep, fun ⟨e, hended⟩ p hp hi => ?_, fun hended => ?_⟩
  · subst hi
    rcases (hcommits p hp).2 with ⟨heq, _⟩ | hchange
    · exact heq
    · have hnoted := committed_of_booked hrun p hp (hchange hseeding).1
      cases (hkept.ends hended hseeding).mpr hnoted
  · have hnoted := (hkept.ends hended hseeding).mp rfl
    obtain ⟨p, hp, rfl, hbefore, saw, hafter⟩ :=
      hrun.noted (f := fun g => g) rfl hnoted
    have hchange : ∃ l, p.act = .commit l := by
      cases hact : p.act with
      | commit l => exact ⟨l, rfl⟩
      | _ =>
        rw [hact] at hafter
        exact absurd hafter hbefore
    refine ⟨p, hp, rfl, (hstep p hp rfl).resolve_left ?_⟩
    rcases (hcommits p hp).2 with ⟨_, hquiet⟩ | hguar
    · exact absurd hchange.choose_spec (hquiet _)
    · exact (hguar hseeding).2

end Runs

/-- A board without columns. -/
def bareBoard : Db where
  rows := [
    .user ⟨js "u", js "u@x", js "U", true, none, none, none⟩,
    .workspace ⟨js "w", js "W", js "w"⟩,
    .board ⟨js "b", js "w", js "B", none, 0⟩]
  nodup := by decide +kernel

/-- Two seedings and a create. -/
def seedRace : Fin 3 → ColumnOp
  | 0 => .createDefaults .bare (js "w") (js "b") (js "u") (some (js "en;q=0.4, tr"))
  | 1 => .createDefaults .bare (js "w") (js "b") (js "u") none
  | 2 => .create (js "w") (js "b") (js "u") ⟨js "N", none, none, none⟩

/-- The second seeding begins, the first one overtakes it, and the create comes last. -/
def seedSchedule : List (Fin 3 × kurul.Id) :=
  let fresh (name : String) (n : Nat) : kurul.Id := js name ++ List.replicate n 97
  List.replicate 3 (1, js "x") ++ (List.range 23).map (fun n => (0, fresh "s" n)) ++
    List.replicate 3 (1, js "x") ++ (List.range 12).map fun n => (2, fresh "n" n)

theorem defaults_seeded_once_race : ∃ σ g past,
    Booked noteCommit none (fun _ _ _ _ => True)
      (Config.start bareBoard fun i => (seedRace i).call) σ g past ∧
    (rows ColumnRow σ.db).length = 4 ∧
    (∃ p ∈ past, p.who = 0 ∧ ∃ s : Seeding (js "w") (js "b") (js "u"), Seeds s p.before p.after) ∧
    (∀ p ∈ past, p.who = 1 → p.after = p.before) ∧ SpacedIn ColumnRow σ.db (js "b") := by
  have hstart : SpacedIn ColumnRow bareBoard (js "b") :=
    spacedIn_iff.mpr fun c hc => by
      rw [show rows ColumnRow bareBoard = [] from by decide +kernel] at hc
      cases hc
  have hgoes : ((Config.start (S := kurul) bareBoard fun i => (seedRace i).call).booked noteCommit
      (0 : Instant) (fun _ _ _ _ => true) seedSchedule (fun _ => none) []).any (fun r =>
        (rows ColumnRow r.1.db).length = 4 && r.1.ended 0 = some none &&
          r.1.ended 1 = some (some (.conflict (js "Board already has columns")))) = true := by
    decide +kernel
  obtain ⟨⟨σ, g, past⟩, hσ, hends⟩ := (Option.any_eq_true _ _).mp hgoes
  have hrun := booked_of_schedule (fun _ _ _ _ _ => trivial) .refl hσ
  simp only [Bool.and_eq_true, decide_eq_true_eq] at hends
  obtain ⟨hcalls, _, hspaced⟩ := defaults_seeded_once hstart hrun
  obtain ⟨⟨hlength, hfirst⟩, hsecond⟩ := hends
  exact ⟨σ, g, past, hrun, hlength, (hcalls 0 _ _ _ _ rfl).2.2 hfirst,
    (hcalls 1 _ _ _ _ rfl).2.1 ⟨_, hsecond⟩, hspaced⟩

end Kurul
