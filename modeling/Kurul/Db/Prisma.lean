import Kurul.Db.Schema
import Kurul.Sql.Ends
import Kurul.Sql.RelyGuarantee

/-!
# Kurul.Db.Prisma

The client the services talk to: exceptions, published events, and one definition for each kind of
statement Prisma sends.

* `insertRefusal`, `updateRefusal` — the constraint a write breaks, if it breaks one.
* `query`, `create`, `createMany`, `update`, `updateMany`, `deleteMany`, `lockRow` — the statements.
* `run_create_ok` and its siblings — what a statement that succeeded, alone, has done.
* `Safe_query` and its siblings — what it does among others.
* `ends_create` and its siblings — a row that is written, or not.
-/

namespace Kurul

open Sql

/-- The error codes the client reports. -/
inductive PrismaFault where
  /-- `P2002`: a unique constraint. -/
  | p2002
  /-- `P2003`: a foreign key. -/
  | p2003
  /-- `P2025`: the row to write does not exist. -/
  | p2025
  /-- Arguments of the wrong type, which the client does not send at all. -/
  | validation
  /-- A timeout, a deadlock, a lost connection. -/
  | unavailable
  deriving DecidableEq

/-- What a service throws. -/
inductive ApiError where
  | badRequest (message : JsString)
  | unauthorized (message : JsString)
  | forbidden (message : JsString)
  | notFound (message : JsString)
  | conflict (message : JsString)
  | unprocessableEntity (message : JsString)
  | prisma (fault : PrismaFault)
  /-- An `APIError` of the auth library. -/
  | betterAuth (statusCode : Nat) (code : Option JsString)
  deriving DecidableEq

/-- What goes to a board's room. -/
inductive BoardEvent where
  | taskCreated (taskId : Id)
  | taskUpdated (taskId : Id)
  | taskMoved (taskId columnId : Id) (position : Position)
  | taskDeleted (taskId : Id)
  | columnChanged (columnId : Id)
  | commentAdded (taskId commentId : Id)
  deriving DecidableEq

/-- What the realtime service publishes, and to which room. -/
inductive Event where
  | toBoard (boardId workspaceId actorId : Id) (event : BoardEvent)
  /-- `notification:unread-changed`. -/
  | toUser (workspaceId userId : Id)
  /-- A user's sockets are taken out of the rooms of a workspace. -/
  | evicted (workspaceId userId : Id)
  deriving DecidableEq

/-- Names of statements and transactions. -/
inductive Label where
  | query
  | lock
  | insert (t : Table)
  | update (t : Table)
  | delete (t : Table)
  | transaction
  deriving DecidableEq

abbrev kurul : Sig where
  Key := Key
  Row := Row
  keyed := inferInstance
  decKey := inferInstance
  Fault := PrismaFault
  Error := ApiError
  raise := .prisma
  Event := Event
  Label := Label
  Id := Id
  Time := Instant

/-- An environment in which nothing fails. -/
def calm : Env kurul where
  id n := List.replicate (n + 1) 120
  time _ := 0
  fails _ := none

/-! ## Refusals -/

/-- Why a row may not be inserted. -/
def insertRefusal (v : Row) (db : Db) : Option PrismaFault :=
  if (db.get? v.key).isSome || !v.unique db then some .p2002
  else if v.resolves db then none
  else some .p2003

/-- Why a row may not be rewritten: foreign keys are checked only when they change. -/
def updateRefusal (v v' : Row) (db : Db) : Option PrismaFault :=
  if !v'.unique db then some .p2002
  else if decide (v'.refs = v.refs) || v'.resolves db then none
  else some .p2003

/-- Why a list of rows may not be inserted, one after the other. -/
def insertManyRefusal : List Row → Db → Option PrismaFault
  | [], _ => none
  | v :: vs, db =>
    match insertRefusal v db with
    | some f => some f
    | none => insertManyRefusal vs (db.put v)

/-- A row is kept from going away while references to it are written. -/
def refLocks (v : Row) : List (Lock Key) := v.refs.map fun r => ⟨r.1, .keyShare⟩

/-- An update locks only the references it changes. -/
def newRefLocks (v v' : Row) : List (Lock Key) := if v'.refs = v.refs then [] else refLocks v'

theorem get?_of_insertRefusal {v : Row} {db : Db} (h : insertRefusal v db = none) :
    db.get? v.key = none := by
  cases hget : db.get? v.key with
  | none => rfl
  | some u => simp [insertRefusal, hget] at h

theorem resolves_of_insertRefusal {v : Row} {db : Db} (h : insertRefusal v db = none) :
    v.resolves db = true := by
  simp only [insertRefusal] at h
  split at h
  · cases h
  · split at h
    · assumption
    · cases h

theorem get?_of_put_none {db : Db} {v : Row} {k : Key} (h : (db.put v).get? k = none) :
    db.get? k = none := by
  rw [Store.get?_put] at h
  split at h
  · cases h
  · exact h

theorem get?_of_insertManyRefusal {vs : List Row} {db : Db} (h : insertManyRefusal vs db = none) :
    ∀ v ∈ vs, db.get? v.key = none := by
  induction vs generalizing db with
  | nil => intro v hv; cases hv
  | cons u vs ih =>
    simp only [insertManyRefusal] at h
    split at h
    · cases h
    · rename_i hu
      intro v hv
      rcases List.mem_cons.mp hv with rfl | hv
      · exact get?_of_insertRefusal hu
      · exact get?_of_put_none (ih h v hv)

/-- Rows inserted together have different keys. -/
theorem nodup_of_insertManyRefusal {vs : List Row} {db : Db} (h : insertManyRefusal vs db = none) :
    (vs.map Row.key).Nodup := by
  induction vs generalizing db with
  | nil => exact List.nodup_nil
  | cons u vs ih =>
    simp only [insertManyRefusal] at h
    split at h
    · cases h
    · rw [List.map_cons, List.nodup_cons]
      refine ⟨fun hmem => ?_, ih h⟩
      obtain ⟨v, hv, hkey⟩ := List.mem_map.mp hmem
      have hnone := get?_of_insertManyRefusal h v hv
      rw [hkey, Store.get?_put, keyed_key, if_pos rfl] at hnone
      cases hnone

/-! ## Statements -/

/-- A change to the columns of a row that leaves its id alone. -/
structure Patch (R : Type) [Model R] where
  apply : R → R
  id_apply : ∀ r, Model.id (apply r) = Model.id r

section Statements

variable {R α : Type} [Model R]

theorem Patch.key_apply (p : Patch R) (r : R) :
    (Model.row (p.apply r)).key = (Model.row r).key := by
  rw [Model.key_row, Model.key_row, p.id_apply]

def query (f : Db → α) : Tx kurul α := Tx.exec ⟨.query, fun db => .ok ⟨f db, [], []⟩⟩

def findFirst (p : Db → R → Bool) : Tx kurul (Option R) := query fun db => (rows R db).find? (p db)

def findMany (p : Db → R → Bool) : Tx kurul (List R) := query fun db => (rows R db).filter (p db)

def count (p : Db → R → Bool) : Tx kurul Nat := query fun db => ((rows R db).filter (p db)).length

/-- `SELECT id FROM … WHERE id = … FOR UPDATE`: it locks the row if there is one. -/
def lockRow (k : Key) : Tx kurul Unit :=
  Tx.exec ⟨.lock, fun db => .ok ⟨(), [], if (db.get? k).isSome then [⟨k, .update⟩] else []⟩⟩

def createStmt (r : R) : Stmt kurul R :=
  ⟨.insert (Model.table R), fun db =>
    match insertRefusal (Model.row r) db with
    | some f => .error f
    | none => .ok ⟨r, [.put (Model.row r)], refLocks (Model.row r)⟩⟩

def create (r : R) : Tx kurul R := Tx.exec (createStmt r)

def createManyStmt (rs : List R) : Stmt kurul Nat :=
  ⟨.insert (Model.table R), fun db =>
    match insertManyRefusal (rs.map Model.row) db with
    | some f => .error f
    | none => .ok ⟨rs.length, rs.map fun r => .put (Model.row r),
        rs.flatMap fun r => refLocks (Model.row r)⟩⟩

def createMany (rs : List R) : Tx kurul Nat := Tx.exec (createManyStmt rs)

/-- The rows of a list that break no unique constraint, against the stored rows or the ones before
them. -/
def insertable : List R → Db → Except PrismaFault (List R)
  | [], _ => .ok []
  | r :: rs, db =>
    match insertRefusal (Model.row r) db with
    | some .p2002 => insertable rs db
    | some f => .error f
    | none => (insertable rs (db.put (Model.row r))).map (r :: ·)

/-- `createMany` with `skipDuplicates: true`. -/
def createManySkippingStmt (rs : List R) : Stmt kurul Nat :=
  ⟨.insert (Model.table R), fun db =>
    match insertable rs db with
    | .error f => .error f
    | .ok kept => .ok ⟨kept.length, kept.map fun r => .put (Model.row r),
        kept.flatMap fun r => refLocks (Model.row r)⟩⟩

def createManySkipping (rs : List R) : Tx kurul Nat := Tx.exec (createManySkippingStmt rs)

/-- The rows of a list of items, each under an identifier of its own. -/
def withIds {T R : Type} (row : Id → T → R) : List T → Tx kurul (List R)
  | [] => return []
  | item :: rest => do
    let id ← Tx.fresh
    let created ← withIds row rest
    return row id item :: created

def updateStmt (p : Db → R → Bool) (data : Patch R) : Stmt kurul R :=
  ⟨.update (Model.table R), fun db =>
    match (rows R db).find? (p db) with
    | none => .error .p2025
    | some r =>
      match updateRefusal (Model.row r) (Model.row (data.apply r)) db with
      | some f => .error f
      | none => .ok ⟨data.apply r, [.put (Model.row (data.apply r))],
          newRefLocks (Model.row r) (Model.row (data.apply r))⟩⟩

def update (p : Db → R → Bool) (data : Patch R) : Tx kurul R := Tx.exec (updateStmt p data)

def updateManyStmt (p : Db → R → Bool) (data : Patch R) : Stmt kurul Nat :=
  ⟨.update (Model.table R), fun db =>
    let found := (rows R db).filter (p db)
    match found.findSome? fun r => updateRefusal (Model.row r) (Model.row (data.apply r)) db with
    | some f => .error f
    | none => .ok ⟨found.length, found.map fun r => .put (Model.row (data.apply r)),
        found.flatMap fun r => newRefLocks (Model.row r) (Model.row (data.apply r))⟩⟩

def updateMany (p : Db → R → Bool) (data : Patch R) : Tx kurul Nat :=
  Tx.exec (updateManyStmt p data)

def deleteManyStmt (p : Db → R → Bool) : Stmt kurul Nat :=
  ⟨.delete (Model.table R), fun db =>
    let found := (rows R db).filter (p db)
    match db.deletion references (found.map fun r => (⟨Model.table R, Model.id r⟩ : Key)) with
    | none => .error .p2003
    | some ws => .ok ⟨found.length, ws, []⟩⟩

def deleteMany (p : Db → R → Bool) : Tx kurul Nat := Tx.exec (deleteManyStmt p)

def deleteStmt (p : Db → R → Bool) : Stmt kurul R :=
  ⟨.delete (Model.table R), fun db =>
    match (rows R db).find? (p db) with
    | none => .error .p2025
    | some r =>
      match db.deletion references [(⟨Model.table R, Model.id r⟩ : Key)] with
      | none => .error .p2003
      | some ws => .ok ⟨r, ws, []⟩⟩

def delete (p : Db → R → Bool) : Tx kurul R := Tx.exec (deleteStmt p)

/-- `groupBy` with `_count: { _all: true }`. -/
def groupCount (f : R → Id) (p : Db → R → Bool) : Tx kurul (List (Id × Nat)) := query fun db =>
  let found := (rows R db).filter (p db)
  (found.map f).dedup.map fun k => (k, (found.filter fun r => f r = k).length)

end Statements

/-! ## What a statement that succeeded has done -/

section Eval

variable {R : Type} [Model R] {db : Db}

theorem eval_create {r : R} {e : Effect kurul R} (h : (createStmt r).eval db = .ok e) :
    insertRefusal (Model.row r) db = none ∧
      e = ⟨r, [.put (Model.row r)], refLocks (Model.row r)⟩ := by
  simp only [createStmt] at h
  split at h
  · cases h
  · rename_i hr
    exact ⟨hr, (Except.ok.inj h).symm⟩

theorem eval_createMany {rs : List R} {e : Effect kurul Nat}
    (h : (createManyStmt rs).eval db = .ok e) :
    insertManyRefusal (rs.map Model.row) db = none ∧
      e = ⟨rs.length, rs.map fun r => .put (Model.row r),
        rs.flatMap fun r => refLocks (Model.row r)⟩ := by
  simp only [createManyStmt] at h
  split at h
  · cases h
  · rename_i hr
    exact ⟨hr, (Except.ok.inj h).symm⟩

theorem mem_of_insertable {rs kept : List R} (h : insertable rs db = .ok kept) :
    ∀ r ∈ kept, r ∈ rs := by
  induction rs generalizing db kept with
  | nil =>
    cases h
    intro r hr
    cases hr
  | cons x rs ih =>
    intro r hr
    simp only [insertable] at h
    split at h
    · exact List.mem_cons_of_mem x (ih h r hr)
    · cases h
    · cases hrest : insertable rs (db.put (Model.row x)) with
      | error f =>
        rw [hrest] at h
        cases h
      | ok kept' =>
        rw [hrest] at h
        cases h
        rcases List.mem_cons.mp hr with rfl | hr
        · exact List.mem_cons_self
        · exact List.mem_cons_of_mem x (ih hrest r hr)

/-- A row that is not skipped is new. -/
theorem get?_of_insertable {rs kept : List R} (h : insertable rs db = .ok kept) :
    ∀ r ∈ kept, db.get? (Model.row r).key = none := by
  induction rs generalizing db kept with
  | nil =>
    cases h
    intro r hr
    cases hr
  | cons x rs ih =>
    simp only [insertable] at h
    split at h
    · exact ih h
    · cases h
    · rename_i hx
      cases hrest : insertable rs (db.put (Model.row x)) with
      | error f =>
        rw [hrest] at h
        cases h
      | ok kept' =>
        rw [hrest] at h
        cases h
        intro r hr
        rcases List.mem_cons.mp hr with rfl | hr
        · exact get?_of_insertRefusal hx
        · exact get?_of_put_none (ih hrest r hr)

theorem eval_createManySkipping {rs : List R} {e : Effect kurul Nat}
    (h : (createManySkippingStmt rs).eval db = .ok e) :
    ∃ kept, insertable rs db = .ok kept ∧ e.result = kept.length ∧
      e.writes = kept.map fun r => .put (Model.row r) := by
  simp only [createManySkippingStmt] at h
  split at h
  · cases h
  · rename_i kept hkept
    rw [← Except.ok.inj h]
    exact ⟨kept, hkept, rfl, rfl⟩

theorem eval_update {p : Db → R → Bool} {data : Patch R} {e : Effect kurul R}
    (h : (updateStmt p data).eval db = .ok e) :
    ∃ r, (rows R db).find? (p db) = some r ∧
      updateRefusal (Model.row r) (Model.row (data.apply r)) db = none ∧
      e = ⟨data.apply r, [.put (Model.row (data.apply r))],
        newRefLocks (Model.row r) (Model.row (data.apply r))⟩ := by
  simp only [updateStmt] at h
  split at h
  · cases h
  · rename_i r hr
    split at h
    · cases h
    · rename_i hu
      exact ⟨r, hr, hu, (Except.ok.inj h).symm⟩

theorem eval_updateMany {p : Db → R → Bool} {data : Patch R} {e : Effect kurul Nat}
    (h : (updateManyStmt p data).eval db = .ok e) :
    e.result = ((rows R db).filter (p db)).length ∧
      e.writes = ((rows R db).filter (p db)).map fun r => .put (Model.row (data.apply r)) := by
  simp only [updateManyStmt] at h
  split at h
  · cases h
  · rw [← Except.ok.inj h]
    exact ⟨rfl, rfl⟩

theorem eval_deleteMany {p : Db → R → Bool} {e : Effect kurul Nat}
    (h : (deleteManyStmt p).eval db = .ok e) :
    ∃ ws, db.deletion references
        (((rows R db).filter (p db)).map fun r => (⟨Model.table R, Model.id r⟩ : Key)) = some ws ∧
      e = ⟨((rows R db).filter (p db)).length, ws, []⟩ := by
  simp only [deleteManyStmt] at h
  split at h
  · cases h
  · rename_i ws hws
    exact ⟨ws, hws, (Except.ok.inj h).symm⟩

theorem eval_delete {p : Db → R → Bool} {e : Effect kurul R} (h : (deleteStmt p).eval db = .ok e) :
    ∃ r ws, (rows R db).find? (p db) = some r ∧
      db.deletion references [(⟨Model.table R, Model.id r⟩ : Key)] = some ws ∧ e = ⟨r, ws, []⟩ := by
  simp only [deleteStmt] at h
  split at h
  · cases h
  · rename_i r hr
    split at h
    · cases h
    · rename_i ws hws
      exact ⟨r, ws, hr, hws, (Except.ok.inj h).symm⟩

/-- The rows an `updateMany` leaves: the matching ones patched, the others as they were. -/
theorem mem_rows_updateMany {p : R → Bool} {data : Patch R} {r' : R} :
    r' ∈ rows R (db.applyAll
        (((rows R db).filter p).map fun r => .put (Model.row (data.apply r)))) ↔
      ∃ r ∈ rows R db, r' = if p r then data.apply r else r := by
  have hnd : (((rows R db).filter p).map fun r => Model.id (data.apply r)).Nodup := by
    simp only [data.id_apply]
    exact (nodup_ids R db).sublist ((List.filter_sublist).map Model.id)
  rw [mem_rows_puts hnd]
  simp only [List.mem_filter, data.id_apply]
  constructor
  · rintro (⟨r, ⟨hr, hp⟩, rfl⟩ | ⟨hr, hne⟩)
    · exact ⟨r, hr, by simp [hp]⟩
    · refine ⟨r', hr, ?_⟩
      have : p r' = false := by
        by_contra h
        exact hne r' ⟨hr, by simpa using h⟩ rfl
      simp [this]
  · rintro ⟨r, hr, rfl⟩
    by_cases hp : p r = true
    · exact .inl ⟨r, ⟨hr, hp⟩, by simp [hp]⟩
    · refine .inr ⟨by simpa [hp] using hr, ?_⟩
      rintro u ⟨hu, hpu⟩ hid
      rw [if_neg hp] at hid
      exact hp (eq_of_id hr hu hid ▸ hpu)

end Eval

/-! ## Exceptions -/

/-- `if (!x) throw …`. -/
def orThrow {α : Type} (x : Option α) (e : ApiError) : Tx kurul α :=
  match x with
  | some a => .ret a
  | none => .throw e

/-- `if (…) throw …`. -/
def throwIf (c : Bool) (e : ApiError) : Tx kurul Unit := if c then .throw e else .ret ()

/-- A pure check of the source, inside a transaction. -/
def ofExcept {α : Type} : Except ApiError α → Tx kurul α
  | .ok a => .ret a
  | .error e => .throw e

/-! ## Which writes a statement makes -/

section Writes

variable {R α : Type} [Model R] {p : Write Key Row → Prop}

theorem readOnly_query (f : Db → α) : (query f).ReadOnly :=
  ⟨fun _ _ he => by rw [← Except.ok.inj he]; exact ⟨rfl, rfl⟩, fun _ => trivial⟩

theorem readOnly_orThrow (x : Option α) (e : ApiError) : (orThrow x e).ReadOnly := by
  cases x <;> trivial

theorem readOnly_ofExcept (x : Except ApiError α) : (ofExcept x).ReadOnly := by
  cases x <;> trivial

theorem readOnly_throwIf (c : Bool) (e : ApiError) : (throwIf c e).ReadOnly := by
  cases c <;> trivial

theorem writes_query (f : Db → α) : (query f).Writes p := (readOnly_query f).writes

theorem writes_orThrow (x : Option α) (e : ApiError) : (orThrow x e).Writes p :=
  (readOnly_orThrow x e).writes

theorem writes_ofExcept (x : Except ApiError α) : (ofExcept x).Writes p :=
  (readOnly_ofExcept x).writes

theorem writes_throwIf (c : Bool) (e : ApiError) : (throwIf c e).Writes p :=
  (readOnly_throwIf c e).writes

theorem writes_lockRow (k : Key) : (lockRow k).Writes p :=
  ⟨fun _ _ he w hw => absurd hw (by rw [← Except.ok.inj he]; exact List.not_mem_nil),
    fun _ => trivial⟩

variable (hp : ∀ r : R, p (.put (Model.row r)))

include hp in
theorem writes_create (r : R) : (create r).Writes p := by
  refine ⟨fun db e he w hw => ?_, fun _ => trivial⟩
  rw [(eval_create he).2] at hw
  rw [List.mem_singleton.mp hw]
  exact hp r

include hp in
theorem writes_update (q : Db → R → Bool) (data : Patch R) : (update q data).Writes p := by
  refine ⟨fun db e he w hw => ?_, fun _ => trivial⟩
  obtain ⟨r, _, _, rfl⟩ := eval_update he
  rw [List.mem_singleton.mp hw]
  exact hp _

include hp in
theorem writes_updateMany (q : Db → R → Bool) (data : Patch R) : (updateMany q data).Writes p := by
  refine ⟨fun db e he w hw => ?_, fun _ => trivial⟩
  rw [(eval_updateMany he).2] at hw
  obtain ⟨r, _, rfl⟩ := List.mem_map.mp hw
  exact hp _

end Writes

/-! ## A transaction body, among others and alone -/

section Safe

variable {R α : Type} [Model R] {ι : Type} {P : Protocol kurul ι} {i : ι} {own : Local kurul}
  {db : Db}

/-- A row a transaction sees is one it put there, or one it has not written. -/
theorem mem_rows_view {r : R} (h : r ∈ rows R (own.view db)) :
    .put (Model.row r) ∈ own.delta ∨
      (¬ own.Wrote ⟨Model.table R, Model.id r⟩ ∧ r ∈ rows R db) := by
  have hget := get?_row h
  by_cases hw : own.Wrote ⟨Model.table R, Model.id r⟩
  · exact .inl (Store.put_mem_of_get?_applyAll hw db hget)
  · rw [Local.get?_view_of_not_wrote hw] at hget
    exact .inr ⟨hw, mem_rows.mpr (Store.mem_of_get? hget)⟩

theorem mem_rows_view_of_not_wrote {r : R} (hw : ¬ own.Wrote ⟨Model.table R, Model.id r⟩)
    (h : r ∈ rows R db) : r ∈ rows R (own.view db) := by
  have hget := get?_row h
  rw [← Local.get?_view_of_not_wrote hw] at hget
  exact mem_rows.mpr (Store.mem_of_get? hget)

/-- What a transaction wrote it sees, whatever the others commit. -/
theorem mem_rows_view_of_wrote {r : R} (hw : own.Wrote ⟨Model.table R, Model.id r⟩) {db' : Db}
    (h : r ∈ rows R (own.view db')) : r ∈ rows R (own.view db) := by
  have hget := get?_row h
  rw [Local.get?_view_of_wrote hw db' db] at hget
  exact mem_rows.mpr (Store.mem_of_get? hget)

/-- A read inside a transaction: it sees the rows committed by then, under the writes so far. -/
theorem Safe_query {Q : α → Local kurul → Db → Prop} {f : Db → α}
    (h : ∀ db', P.Later own db db' → Q (f (own.view db')) own db') :
    (query f).Safe P i Q own db := by
  intro db' hl _ e he
  rw [← Except.ok.inj he]
  show Q (f (own.view db')) (own.add ⟨f (own.view db'), [], []⟩) db'
  rw [Local.add_read]
  exact h db' hl

theorem Safe_orThrow {Q : α → Local kurul → Db → Prop} {x : Option α} {e : ApiError}
    (h : ∀ a, x = some a → Q a own db) : (orThrow x e).Safe P i Q own db := by
  cases x with
  | none => trivial
  | some a => exact h a rfl

theorem Safe_ofExcept {Q : α → Local kurul → Db → Prop} {x : Except ApiError α}
    (h : ∀ a, x = .ok a → Q a own db) : (ofExcept x).Safe P i Q own db := by
  cases x with
  | error e => trivial
  | ok a => exact h a rfl

theorem Safe_throwIf {Q : Unit → Local kurul → Db → Prop} {c : Bool} {e : ApiError}
    (h : c = false → Q () own db) : (throwIf c e).Safe P i Q own db := by
  cases c with
  | true => trivial
  | false => exact h rfl

theorem Safe_create {Q : R → Local kurul → Db → Prop} {r : R}
    (h : ∀ db', P.Later own db db' → insertRefusal (Model.row r) (own.view db') = none →
      Q r (own.add ⟨r, [.put (Model.row r)], refLocks (Model.row r)⟩) db') :
    (create r).Safe P i Q own db := by
  intro db' hl _ e he
  obtain ⟨hnew, rfl⟩ := eval_create he
  exact h db' hl hnew

theorem Safe_createMany {Q : Nat → Local kurul → Db → Prop} {rs : List R}
    (h : ∀ db', P.Later own db db' → insertManyRefusal (rs.map Model.row) (own.view db') = none →
      ∀ e : Effect kurul Nat, e.writes = (rs.map fun r => .put (Model.row r)) →
      Q e.result (own.add e) db') :
    (createMany rs).Safe P i Q own db := by
  intro db' hl _ e he
  obtain ⟨hnew, heq⟩ := eval_createMany he
  exact h db' hl hnew e (by rw [heq])

omit [Model R] in
/-- Each item becomes a row of its own, in the order of the items. -/
theorem Safe_withIds {T : Type} {row : Id → T → R} {Q : List R → Local kurul → Db → Prop}
    {items : List T}
    (h : ∀ data, List.Forall₂ (fun item r => ∃ id, r = row id item) items data → Q data own db) :
    (withIds row items).Safe P i Q own db := by
  induction items generalizing Q with
  | nil => exact h [] .nil
  | cons item rest ih =>
    simp only [withIds, Tx.Safe_bind]
    intro id
    exact ih fun data hdata => h _ (.cons ⟨id, rfl⟩ hdata)

theorem Safe_update {Q : R → Local kurul → Db → Prop} {p : Db → R → Bool} {data : Patch R}
    (h : ∀ db', P.Later own db db' → ∀ r, (rows R (own.view db')).find? (p (own.view db')) = some r →
      updateRefusal (Model.row r) (Model.row (data.apply r)) (own.view db') = none →
      Q (data.apply r) (own.add ⟨data.apply r, [.put (Model.row (data.apply r))],
        newRefLocks (Model.row r) (Model.row (data.apply r))⟩) db') :
    (update p data).Safe P i Q own db := by
  intro db' hl _ e he
  obtain ⟨r, hr, hok, rfl⟩ := eval_update he
  exact h db' hl r hr hok

theorem Safe_deleteMany {Q : Nat → Local kurul → Db → Prop} {p : Db → R → Bool}
    (h : ∀ db', P.Later own db db' → P.Cond i (.exec (.delete (Model.table R))) db' → ∀ ws,
      (own.view db').deletion references (((rows R (own.view db')).filter (p (own.view db'))).map
        fun r => (⟨Model.table R, Model.id r⟩ : Key)) = some ws →
      Q ((rows R (own.view db')).filter (p (own.view db'))).length
        (own.add (⟨((rows R (own.view db')).filter (p (own.view db'))).length, ws, []⟩ :
          Effect kurul Nat)) db') :
    (deleteMany p).Safe P i Q own db := by
  intro db' hl hc e he
  obtain ⟨ws, hws, rfl⟩ := eval_deleteMany he
  exact h db' hl hc ws hws

/-- A statement that locks a row, if there is one. -/
theorem Safe_lockRow {Q : Unit → Local kurul → Db → Prop} {k : Key}
    (h : ∀ db', P.Later own db db' → ∀ own' : Local kurul, own'.delta = own.delta →
      own.locks ⊆ own'.locks →
      ((own.view db').get? k = none ∨ ⟨k, .update⟩ ∈ own'.locks) → Q () own' db') :
    (lockRow k).Safe P i Q own db := by
  intro db' hl _ e he
  rw [← Except.ok.inj he]
  refine h db' hl _ (List.append_nil _) (List.subset_append_left _ _) ?_
  cases hk : (own.view db').get? k with
  | none => exact .inl rfl
  | some v => exact .inr (List.mem_append_right _ (by simp [Effect.needs]))

end Safe

section Run

variable {R α : Type} [Model R] {env : Env kurul} {w w' : World kurul}

theorem run_query_ok {f : Db → α} {a : α} (h : (query f).run env w = (.ok a, w')) :
    a = f w.db ∧ w' = { w with stmts := w.stmts + 1 } := by
  obtain ⟨e, he, rfl, rfl⟩ := Tx.run_exec_ok h
  rw [← Except.ok.inj he]
  exact ⟨rfl, rfl⟩

theorem run_lockRow_ok {k : Key} {a : Unit} (h : (lockRow k).run env w = (.ok a, w')) :
    w' = { w with stmts := w.stmts + 1 } := by
  obtain ⟨e, he, rfl, rfl⟩ := Tx.run_exec_ok h
  rw [← Except.ok.inj he]
  rfl

theorem run_create_ok {r r' : R} (h : (create r).run env w = (.ok r', w')) :
    insertRefusal (Model.row r) w.db = none ∧ r' = r ∧
      w' = { w with db := w.db.put (Model.row r), stmts := w.stmts + 1 } := by
  obtain ⟨e, he, rfl, rfl⟩ := Tx.run_exec_ok h
  obtain ⟨hr, rfl⟩ := eval_create he
  exact ⟨hr, rfl, rfl⟩

theorem run_update_ok {p : Db → R → Bool} {data : Patch R} {r' : R}
    (h : (update p data).run env w = (.ok r', w')) :
    ∃ r, (rows R w.db).find? (p w.db) = some r ∧ r' = data.apply r ∧
      w' = { w with db := w.db.put (Model.row (data.apply r)), stmts := w.stmts + 1 } := by
  obtain ⟨e, he, rfl, rfl⟩ := Tx.run_exec_ok h
  obtain ⟨r, hr, _, rfl⟩ := eval_update he
  exact ⟨r, hr, rfl, rfl⟩

theorem run_updateMany_ok {p : Db → R → Bool} {data : Patch R} {n : Nat}
    (h : (updateMany p data).run env w = (.ok n, w')) :
    n = ((rows R w.db).filter (p w.db)).length ∧
      w' = { w with
        db := w.db.applyAll
          (((rows R w.db).filter (p w.db)).map fun r => .put (Model.row (data.apply r)))
        stmts := w.stmts + 1 } := by
  obtain ⟨e, he, rfl, rfl⟩ := Tx.run_exec_ok h
  obtain ⟨hres, hws⟩ := eval_updateMany he
  rw [hws]
  exact ⟨hres, rfl⟩

theorem run_deleteMany_ok {p : Db → R → Bool} {n : Nat}
    (h : (deleteMany p).run env w = (.ok n, w')) :
    ∃ ws, w.db.deletion references
        (((rows R w.db).filter (p w.db)).map fun r => (⟨Model.table R, Model.id r⟩ : Key)) =
          some ws ∧
      n = ((rows R w.db).filter (p w.db)).length ∧
      w' = { w with db := w.db.applyAll ws, stmts := w.stmts + 1 } := by
  obtain ⟨e, he, rfl, rfl⟩ := Tx.run_exec_ok h
  obtain ⟨ws, hws, rfl⟩ := eval_deleteMany he
  exact ⟨ws, hws, rfl, rfl⟩

theorem run_orThrow_ok {x : Option α} {e : ApiError} {a : α}
    (h : (orThrow x e).run env w = (.ok a, w')) : x = some a ∧ w' = w := by
  cases x with
  | none => simp [orThrow] at h
  | some b =>
    simp only [orThrow, Tx.run_ret, Prod.mk.injEq, Except.ok.injEq] at h
    exact ⟨by rw [h.1], h.2.symm⟩

theorem run_throwIf_ok {c : Bool} {e : ApiError} {a : Unit}
    (h : (throwIf c e).run env w = (.ok a, w')) : c = false ∧ w' = w := by
  cases c with
  | true => simp [throwIf] at h
  | false =>
    simp only [throwIf, Bool.false_eq_true, if_false, Tx.run_ret, Prod.mk.injEq] at h
    exact ⟨rfl, h.2.symm⟩

theorem run_ofExcept_ok {x : Except ApiError α} {a : α}
    (h : (ofExcept x).run env w = (.ok a, w')) : x = .ok a ∧ w' = w := by
  cases x with
  | error e => simp [ofExcept] at h
  | ok b =>
    simp only [ofExcept, Tx.run_ret, Prod.mk.injEq, Except.ok.injEq] at h
    exact ⟨by rw [h.1], h.2.symm⟩

theorem run_fresh_ok {i : Id} (h : (Tx.fresh : Tx kurul Id).run env w = (.ok i, w')) :
    w'.db = w.db := by
  simp only [Tx.fresh, Tx.run, Prod.mk.injEq] at h
  rw [← h.2]

theorem run_now_ok {t : Instant} (h : (Tx.now : Tx kurul Instant).run env w = (.ok t, w')) :
    w'.db = w.db := by
  simp only [Tx.now, Tx.run, Prod.mk.injEq] at h
  rw [← h.2]

/-- A body, alone, leaves the tables it does not write as they were. -/
theorem rows_of_writes {b : Tx kurul α} (hb : b.Writes fun x : Write Key Row => x.key.table ≠ Model.table R)
    (env : Env kurul) (w : World kurul) : rows R (b.run env w).2.db = rows R w.db := by
  obtain ⟨ws, hws, hdb⟩ := hb.run env w
  rw [hdb]
  exact rows_applyAll_of_ne hws

/-- A call that ends by announcing its result. -/
theorem run_publish_ret_ok {α : Type} {e : Event} {a b : α}
    (h : (do Call.publish e; return a : Call kurul α).run env w = (.ok b, w')) :
    a = b ∧ w' = { w with events := w.events ++ [e] } := by
  simp only [Call.publish, Call.emit_bind, Call.ret_bind, Call.pure_eq, Call.run, Prod.mk.injEq,
    Except.ok.injEq] at h
  exact ⟨h.1, h.2.symm⟩

theorem ends_create {r : R} {ok : R → World kurul → Prop} {err : ApiError → World kurul → Prop}
    (hok : ∀ w', insertRefusal (Model.row r) w.db = none → w'.db = w.db.put (Model.row r) → ok r w')
    (herr : ∀ e w', w'.db = w.db → err e w') : (Call.auto (create r)).Ends env w ok err := by
  rw [create, Call.auto_exec]
  refine Call.ends_exec (fun e w' he hdb => ?_) herr
  obtain ⟨hnew, rfl⟩ := eval_create he
  exact hok w' hnew hdb

theorem ends_update {p : Db → R → Bool} {data : Patch R} {ok : R → World kurul → Prop}
    {err : ApiError → World kurul → Prop}
    (hok : ∀ r w', (rows R w.db).find? (p w.db) = some r →
      w'.db = w.db.put (Model.row (data.apply r)) → ok (data.apply r) w')
    (herr : ∀ e w', w'.db = w.db → err e w') : (Call.auto (update p data)).Ends env w ok err := by
  rw [update, Call.auto_exec]
  refine Call.ends_exec (fun e w' he hdb => ?_) herr
  obtain ⟨r, hr, _, rfl⟩ := eval_update he
  exact hok r w' hr hdb

theorem ends_deleteMany {p : Db → R → Bool} {ok : Nat → World kurul → Prop}
    {err : ApiError → World kurul → Prop}
    (hok : ∀ n ws w', w.db.deletion references (((rows R w.db).filter (p w.db)).map
      fun r => (⟨Model.table R, Model.id r⟩ : Key)) = some ws → w'.db = w.db.applyAll ws → ok n w')
    (herr : ∀ e w', w'.db = w.db → err e w') :
    (Call.auto (deleteMany p)).Ends env w ok err := by
  rw [deleteMany, Call.auto_exec]
  refine Call.ends_exec (fun e w' he hdb => ?_) herr
  obtain ⟨ws, hws, rfl⟩ := eval_deleteMany he
  exact hok _ ws w' hws hdb

/-- An inserted row was not there. -/
theorem not_mem_of_insertRefusal {R : Type} [Model R] {r : R} {db : Db}
    (h : insertRefusal (Model.row r) db = none) : ∀ r' ∈ rows R db, Model.id r' ≠ Model.id r := by
  intro r' hr' hid
  have hget := get?_row hr'
  rw [hid, ← Model.key_row] at hget
  simp [insertRefusal, hget] at h

end Run
end Kurul
