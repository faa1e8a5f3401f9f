import Kurul.Db.Kept
import Kurul.Task.ChecklistGaps

/-!
# Kurul.Task.ChecklistRaces

Creates, removals and moves on one list, statement by statement. A create reads under a lock of the
list's owner, but a move takes none: it reads, and writes in a statement of its own, and whoever writes
in between may have taken the same gap.

* `Stands`   — the gap a call has read is there as it was.
* `Behind`   — where a move puts its row.
* `Edit.distinct`, `Edit.behind` — what a write into a gap that stands does.
* `checklist_races` — in a run whose calls all write into gaps that stand, no two positions are equal
  and every move ends behind the row it names.
-/

namespace Kurul

open Sql TaskReadService

section Lists

variable {R : Type} [Model R] [Placed R] {db db' : Db} {listId m : Id} {afterId : Option Id}
  {slot : InsertionSlot Sibling} {target : Option (Id × Option Id)}

/-! ## Positions that differ -/

/-- No two rows of the list have one position. -/
def Distinct (R : Type) [Model R] [Placed R] (db : Db) (listId : Id) : Prop :=
  ∀ r ∈ rows R db, ∀ s ∈ rows R db, Placed.list r = listId → Placed.list s = listId →
    Model.id r ≠ Model.id s → Placed.position r ≠ Placed.position s

/-- The row `m` comes right behind the row `after` in the order of the positions, or first of all. -/
def Behind (R : Type) [Model R] [Placed R] (db : Db) (listId m : Id) (after : Option Id) : Prop :=
  ∃ r ∈ byPosition R db listId, Model.id r = m ∧
    match after with
    | none => ∀ s ∈ byPosition R db listId, Model.id s ≠ m → Placed.position r < Placed.position s
    | some a => ∃ q ∈ byPosition R db listId, Model.id q = a ∧ Placed.position q < Placed.position r ∧
      ∀ s ∈ byPosition R db listId, Model.id s ≠ m →
        Placed.position s ≤ Placed.position q ∨ Placed.position r < Placed.position s

theorem midpoint_strict {prev next : Option Position}
    (h : ∀ p n, prev = some p → next = some n → p < n) :
    (∀ p, prev = some p → p < midpoint prev next) ∧ ∀ n, next = some n → midpoint prev next < n := by
  have hgap : 0 < positionGap := by norm_num [positionGap]
  cases prev with
  | none => cases next <;> simp [midpoint, hgap]
  | some p =>
    cases next with
    | none => simp [midpoint, hgap]
    | some n =>
      have hlt := h p n rfl rfl
      refine ⟨?_, ?_⟩
      · rintro _ ⟨⟩
        simp only [midpoint]
        linarith
      · rintro _ ⟨⟩
        simp only [midpoint]
        linarith

/-- Among rows in strict order the midpoint of a slot parts those before it from those behind it. -/
theorem slotPosition_parts {rest : List Sibling}
    (hs : rest.Pairwise fun a b => a.position < b.position) {k : Nat} (hk : k ≤ rest.length) :
    (∀ a ∈ rest.take k, a.position < slotPosition (sliceSlot rest k)) ∧
      ∀ a ∈ rest.drop k, slotPosition (sliceSlot rest k) < a.position := by
  have hbetween : ∀ p n, (sliceSlot rest k).prev.map Sibling.position = some p →
      (sliceSlot rest k).next.map Sibling.position = some n → p < n := by
    intro p n hp hn
    obtain ⟨a, ha, rfl⟩ := Option.map_eq_some_iff.mp hp
    obtain ⟨b, hb, rfl⟩ := Option.map_eq_some_iff.mp hn
    simp only [sliceSlot] at ha hb
    split at ha
    · cases ha
    · obtain ⟨hla, rfl⟩ := List.getElem?_eq_some_iff.mp ha
      obtain ⟨hlb, rfl⟩ := List.getElem?_eq_some_iff.mp hb
      exact List.pairwise_iff_getElem.mp hs _ _ hla hlb (by omega)
  obtain ⟨hbefore, hafter⟩ := midpoint_strict hbetween
  constructor
  · refine forall_take_of_pairwise hs ?_ (fun a b hab hb => hab.trans hb) hk
    intro a ha hpos
    apply hbefore
    simp [sliceSlot, ha, Nat.pos_iff_ne_zero.mp hpos]
  · refine forall_drop_of_pairwise hs ?_ (fun a b hab ha => lt_trans ha hab)
    intro a ha
    apply hafter
    simp [sliceSlot, ha]

theorem Distinct.siblings_lt (h : Distinct R db listId) :
    (siblingsByPosition R db listId).Pairwise fun a b => a.position < b.position := by
  have hids : (byPosition R db listId).Pairwise fun a b => Model.id a ≠ Model.id b :=
    List.pairwise_map.mp (nodup_byPosition_ids R db listId)
  refine List.pairwise_map.mpr
    (((byPosition_le R db listId).and hids).imp_of_mem fun {a b} ha hb hab => ?_)
  obtain ⟨hra, hla⟩ := mem_byPosition.mp ha
  obtain ⟨hrb, hlb⟩ := mem_byPosition.mp hb
  exact lt_of_le_of_ne hab.1 (h a hra b hrb hla hlb hab.2)

theorem endPosition_eq : endPosition R db listId =
    ((siblingsByPosition R db listId).getLast?.map Sibling.position).getD 0 + positionGap := by
  simp [endPosition, siblingsByPosition, Function.comp_def, toSibling]

/-! ## What a write does -/

/-- Where the slot of a move is, among rows in strict order. -/
theorem moveSlot_between {siblings : List Sibling}
    (hs : siblings.Pairwise fun a b => a.position < b.position)
    (hslot : moveSlot siblings m afterId = some slot) :
    (∀ s ∈ siblings, s.id ≠ m → s.position ≠ slotPosition slot) ∧
      match afterId.filter truthy with
      | none => ∀ s ∈ siblings, s.id ≠ m → slotPosition slot < s.position
      | some a => ∃ q ∈ siblings, q.id = a ∧ q.id ≠ m ∧ q.position < slotPosition slot ∧
        ∀ s ∈ siblings, s.id ≠ m → s.position ≤ q.position ∨ slotPosition slot < s.position := by
  obtain ⟨k, hk, rfl, hafter, hfirst⟩ := moveSlot_eq hslot
  have hrest := hs.filter fun row => row.id ≠ m
  have hother : ∀ s ∈ siblings, s.id ≠ m → s ∈ siblings.filter fun row => row.id ≠ m :=
    fun s hs hne => List.mem_filter.mpr ⟨hs, decide_eq_true hne⟩
  have hmem : ∀ q ∈ siblings.filter fun row => row.id ≠ m, q ∈ siblings ∧ q.id ≠ m :=
    fun q hq => ⟨(List.mem_filter.mp hq).1, of_decide_eq_true (List.mem_filter.mp hq).2⟩
  generalize siblings.filter (fun row => row.id ≠ m) = rest at *
  obtain ⟨hbefore, hbehind⟩ := slotPosition_parts hrest hk
  have hside : ∀ s ∈ siblings, s.id ≠ m → s ∈ rest.take k ∨ s ∈ rest.drop k := by
    intro s hs hne
    have h := hother s hs hne
    rw [← List.take_append_drop k rest] at h
    exact List.mem_append.mp h
  refine ⟨fun s hs hne => ?_, ?_⟩
  · rcases hside s hs hne with h | h
    · exact ne_of_lt (hbefore s h)
    · exact ne_of_gt (hbehind s h)
  cases hcase : afterId.filter truthy with
  | none =>
    intro s hs hne
    rw [hfirst hcase] at hside hbehind ⊢
    rcases hside s hs hne with h | h
    · cases h
    · exact hbehind s h
  | some a =>
    obtain ⟨hpos, q, hq, hqid⟩ := hafter a hcase
    obtain ⟨hlt, rfl⟩ := List.getElem?_eq_some_iff.mp hq
    obtain ⟨hqmem, hqne⟩ := hmem _ (List.getElem_mem hlt)
    -- the row named is the last one before the slot
    have hqtake : rest[k - 1] ∈ rest.take k :=
      List.mem_take_iff_getElem.mpr ⟨k - 1, by omega, rfl⟩
    have hlast : ∀ s ∈ rest.take k, s.position ≤ rest[k - 1].position := by
      intro s hs
      obtain ⟨j, hj, rfl⟩ := List.mem_take_iff_getElem.mp hs
      rcases Nat.lt_or_ge j (k - 1) with h | h
      · exact le_of_lt (List.pairwise_iff_getElem.mp hrest j (k - 1) _ hlt h)
      · obtain rfl : j = k - 1 := by omega
        exact le_refl _
    refine ⟨_, hqmem, hqid, hqne, hbefore _ hqtake, fun s hs hne => ?_⟩
    exact (hside s hs hne).imp (hlast s) (hbehind s)

/-- A row that is added to a list or changed in it has a position of its own. -/
theorem Distinct.with {x : R} {old : R → Prop} (h : Distinct R db listId)
    (hold : ∀ r, old r → r ∈ rows R db)
    (hx : Placed.list x = listId → ∀ r, old r → Placed.list r = listId →
      Placed.position x ≠ Placed.position r)
    (hrows : ∀ s ∈ rows R db', s = x ∨ old s) : Distinct R db' listId :=
  pairs_with (P := fun r s => Placed.position r ≠ Placed.position s) (fun _ _ => Ne.symm) h hold hx hrows

theorem Edit.distinct (h : Edit R target db db') (hdistinct : Distinct R db listId) :
    Distinct R db' listId := by
  cases h with
  | less hrows =>
    exact fun r hr s hs => hdistinct r (hrows r hr) s (hrows s hs)
  | appended x hpos hrows =>
    refine hdistinct.with (fun r hr => hr) (fun hl r hr hlr => ?_) hrows
    have hle := position_lt_end hr hlr
    have hgap : 0 < positionGap := by norm_num [positionGap]
    rw [hpos, hl]
    exact ne_of_gt (by linarith)
  | moved x m afterId slot htarget hx hid hslot hrows =>
    refine hdistinct.with (fun r hr => hr.1) (fun hl r hr hlr => ?_) hrows
    rw [Placed.list_set] at hl
    rw [hl] at hslot
    rw [Placed.position_set]
    have hother := (moveSlot_between hdistinct.siblings_lt hslot).1
    exact (hother (toSibling r) (mem_siblingsByPosition.mpr ⟨r, hr.1, hlr, rfl⟩) hr.2).symm

/-- A row that a move has written is right behind the one it names. -/
theorem Distinct.behind_put {r : R} (h : Distinct R db listId) (hid : Model.id r = m)
    (hlist : Placed.list r = listId)
    (hslot : moveSlot (siblingsByPosition R db listId) m afterId = some slot) :
    Behind R (db.put (Model.row ((Placed.setPosition (slotPosition slot)).apply r))) listId m
      (afterId.filter truthy) := by
  have hmoved : (Placed.setPosition (slotPosition slot)).apply r ∈ byPosition R
      (db.put (Model.row ((Placed.setPosition (slotPosition slot)).apply r))) listId :=
    mem_byPosition.mpr ⟨mem_rows_put.mpr (.inl rfl), (Placed.list_set _ r).trans hlist⟩
  have hsibling : ∀ s ∈ byPosition R
      (db.put (Model.row ((Placed.setPosition (slotPosition slot)).apply r))) listId, Model.id s ≠ m →
        toSibling s ∈ siblingsByPosition R db listId := by
    intro s hs hne
    obtain ⟨hs, hl⟩ := mem_byPosition.mp hs
    rcases mem_rows_put.mp hs with rfl | ⟨hs, _⟩
    · exact absurd (((Placed.setPosition _).id_apply r).trans hid) hne
    · exact mem_siblingsByPosition.mpr ⟨s, hs, hl, rfl⟩
  obtain ⟨_, hplace⟩ := moveSlot_between h.siblings_lt hslot
  refine ⟨_, hmoved, ((Placed.setPosition _).id_apply r).trans hid, ?_⟩
  rw [Placed.position_set]
  cases hcase : afterId.filter truthy with
  | none =>
    rw [hcase] at hplace
    exact fun s hs hne => hplace _ (hsibling s hs hne) hne
  | some a =>
    rw [hcase] at hplace
    obtain ⟨_, hsib, rfl, hqne, hlt, hrest⟩ := hplace
    obtain ⟨q, hq, hlq, rfl⟩ := mem_siblingsByPosition.mp hsib
    have hkept : q ∈ rows R (db.put (Model.row ((Placed.setPosition (slotPosition slot)).apply r))) :=
      mem_rows_put.mpr (.inr ⟨hq, fun hqr => hqne
        (hqr.trans (((Placed.setPosition _).id_apply r).trans hid))⟩)
    exact ⟨q, mem_byPosition.mpr ⟨hkept, hlq⟩, rfl, hlt,
      fun s hs hne => hrest _ (hsibling s hs hne) hne⟩

end Lists

/-! ## What a call has read and written -/

/-- The list as a call last read it, and the rows as it left them. -/
structure Noted where
  listing : List Sibling
  written : Option Db

def Noted.empty : Noted := ⟨[], none⟩

/-- A call notes the list at every read, and the committed rows after its write. -/
def Noted.note (R : Type) [Model R] [Placed R] (listId : Id) (g : Noted) (a : Act kurul)
    (saw _before after : Db) : Noted :=
  match a with
  | .exec .query => { g with listing := siblingsByPosition R saw listId }
  | .exec (.update table) => { g with written := if table = Model.table R then some after else g.written }
  | _ => g

def neighbours (slot : InsertionSlot Sibling) : Option Sibling × Option Sibling := (slot.prev, slot.next)

theorem slotPosition_eq {slot slot' : InsertionSlot Sibling} (h : neighbours slot = neighbours slot') :
    slotPosition slot = slotPosition slot' := by
  obtain ⟨hprev, hnext⟩ := Prod.mk.inj h
  rw [slotPosition, slotPosition, hprev, hnext]

/-- The place a call has found in the list is there still: for a move the slot between the same two
neighbours, for a create the same last position. -/
def Stands (R : Type) [Model R] [Placed R] (listId : Id) (target : Option (Id × Option Id))
    (listing : List Sibling) (db : Db) : Prop :=
  match target with
  | some (m, afterId) => (moveSlot listing m afterId).map neighbours =
      (moveSlot (siblingsByPosition R db listId) m afterId).map neighbours
  | none => (listing.getLast?.map Sibling.position) =
      (siblingsByPosition R db listId).getLast?.map Sibling.position

/-- Nobody has come between what a call read and what it writes: not when a move's statement runs, nor
when a create commits. -/
def Undisturbed (R : Type) [Model R] [Placed R] (listId : Id) {ι : Type}
    (targets : ι → Option (Id × Option Id)) (i : ι) (g : Noted) (a : Act kurul) (db : Db) : Prop :=
  a = .exec (.update (Model.table R)) ∨ a = .commit .transaction →
    Stands R listId (targets i) g.listing db

/-- The row a call moves is of this list. -/
def OnList (R : Type) [Model R] [Placed R] (db : Db) (listId : Id)
    (target : Option (Id × Option Id)) : Prop :=
  ∀ m afterId, target = some (m, afterId) → ∀ r ∈ rows R db, Model.id r = m → Placed.list r = listId

/-- Positions differ as long as nobody comes between, and a move that ends has put its row in place. -/
def racing (R : Type) [Model R] [Placed R] (listId : Id) {ι : Type}
    (targets : ι → Option (Id × Option Id)) : Sql.Ledger kurul ι Noted where
  note := Noted.note R listId
  Within _ _ := True
  Inv db := Distinct R db listId ∧ ∀ i, OnList R db listId (targets i)
  Cond := Undisturbed R listId targets
  Guar _ _ _ _ _ := True
  Ends i r g := r = none → ∀ m afterId, targets i = some (m, afterId) →
    ∃ db, g.written = some db ∧ Behind R db listId m (afterId.filter truthy)
  note_quiet _ _ _ := rfl
  within_refl _ := trivial
  within_trans _ _ := trivial
  within_exec _ _ _ _ := trivial

section Kept

variable {R : Type} [Model R] [Placed R] {ι : Type} {targets : ι → Option (Id × Option Id)} {i : ι}
  {db db' : Db} {g : Noted} {listId m : Id} {afterId : Option Id} {a : Act kurul}

/-- An edit that keeps rows on their lists, or adds one to this list. -/
theorem commits_edit (hinv : (racing R listId targets).Inv db) (hedit : Edit R (targets i) db db')
    (hlists : ∀ r ∈ rows R db', Placed.list r = listId ∨
      ∃ s ∈ rows R db, Model.id s = Model.id r ∧ Placed.list s = Placed.list r) :
    (racing R listId targets).Commits i g a db db' := by
  refine ⟨⟨hedit.distinct hinv.1, fun j m afterId htarget r hr hid => ?_⟩, .inr trivial⟩
  rcases hlists r hr with hl | ⟨s, hs, hsid, hl⟩
  · exact hl
  · rw [← hl]
    exact hinv.2 j m afterId htarget s hs (hsid.trans hid)

/-- What a call that changed the list has noted it still has, when it has read its answer. -/
theorem emitUpdated_noted {workspaceId taskId actorId : Id} {Q : Option Db → Prop}
    (hQ : Q g.written) :
    (TaskEventsService.emitUpdated workspaceId taskId actorId).Kept (racing R listId targets) i
      (fun _ g => Q g.written) (fun _ _ => True) g := by
  rw [TaskEventsService.emitUpdated, Call.Kept_bind, findTask, Call.auto_bind, Call.Kept_bind]
  refine Kept_auto_query (fun _ => trivial) fun db _ _ => ?_
  rw [Call.auto_bind, Call.Kept_bind]
  refine Kept_auto_orThrow trivial fun task _ => ?_
  rw [Call.auto_bind, Call.Kept_bind, countAttachments]
  refine Kept_auto_query (fun _ => trivial) fun db _ _ => ?_
  intro db _
  exact hQ

/-- A transaction that reads the end of the list under a lock and puts a row there. -/
theorem append_kept (owner : Key) (row : Id → Position → R) (hlist : ∀ id p, Placed.list (row id p) = listId)
    (hposition : ∀ id p, Placed.position (row id p) = p) (hnone : targets i = none)
    {Q : Unit → Noted → Prop} (hQ : ∀ g, Q () g) :
    (do
      lockRow owner
      let position ← query fun db => endPosition R db listId
      let id ← Tx.fresh
      let _ ← create (row id position) : Tx kurul Unit).Kept (racing R listId targets) i
        (CommitKept (racing R listId targets) i .transaction Q) g .empty db := by
  simp only [Tx.Kept_bind]
  refine Kept_lockRow fun db₁ _ own hown => ?_
  refine Kept_query fun db₂ _ => ?_
  intro id
  refine Kept_create fun db₃ _ _ => ?_
  intro db₄ hnow
  -- what the transaction saw when it read was what was committed
  have hview : ∀ db, own.view db = db := Local.view_of_nil hown
  have hstands := hnow.2.2 (.inr rfl)
  rw [hnone] at hstands
  have hend : endPosition R db₂ listId = endPosition R db₄ listId := by
    rw [endPosition_eq, endPosition_eq, ← hstands]
    simp only [racing, Noted.note, hview]
  refine ⟨?_, hQ _⟩
  rw [Local.view_add]
  simp only [hview, hend]
  refine commits_edit hnow.2.1 (.inserted ?_ rfl) ?_
  · rw [hlist, hposition]
  · intro r hr
    rcases mem_rows_put.mp hr with rfl | ⟨hr, _⟩
    · exact .inl (hlist _ _)
    · exact .inr ⟨r, hr, rfl, rfl⟩

/-- The write of a move. -/
theorem writeSlot_kept {siblings : List Sibling} {notFound : JsString} (htarget : targets i = some (m, afterId))
    (hlisting : g.listing = siblings) :
    (writeSlot R siblings m afterId notFound).Kept (racing R listId targets) i
      (fun _ g => ∃ db, g.written = some db ∧ Behind R db listId m (afterId.filter truthy))
      (fun _ _ => True) g := by
  rw [writeSlot, Call.Kept_bind]
  refine Kept_auto_orThrow trivial fun slot hslot => ?_
  rw [Call.Kept_bind]
  refine Kept_auto_update (fun _ => trivial) fun db hinv hcond r hfound => ?_
  have hr : r ∈ rows R db := List.mem_of_find?_eq_some hfound
  have hid : Model.id r = m := by simpa using List.find?_some hfound
  have hlist : Placed.list r = listId := hinv.2 i m afterId htarget r hr hid
  have hstands := hcond (.inl rfl)
  rw [htarget, hlisting] at hstands
  simp only [Stands, hslot] at hstands
  obtain ⟨slot', hnow, hsame⟩ := Option.map_eq_some_iff.mp hstands.symm
  rw [← slotPosition_eq hsame]
  refine ⟨commits_edit hinv ?_ ?_, _, if_pos rfl, hinv.1.behind_put hid hlist hnow⟩
  · rw [htarget]
    exact .put_moved hr hid (by rwa [hlist])
  · intro s hs
    rcases mem_rows_put.mp hs with rfl | ⟨hs, _⟩
    · exact .inr ⟨r, hr, ((Placed.setPosition _).id_apply r).symm, (Placed.list_set _ r).symm⟩
    · exact .inr ⟨s, hs, rfl, rfl⟩

/-- A deletion of rows below a task. -/
theorem deleteMany_kept {p : Db → R → Bool} {Q : Nat → Noted → Prop}
    (hbelow : (Model.table R).belowTask = true) (hR : Model.table R ≠ .notification)
    (hQ : ∀ n g, Q n g) :
    (Call.auto (deleteMany p)).Kept (racing R listId targets) i Q (fun _ _ => True) g := by
  refine Kept_auto_deleteMany (fun _ => trivial) fun db hinv _ ws hws => ⟨?_, hQ _ _⟩
  have hless : ∀ r ∈ rows R (db.applyAll ws), r ∈ rows R db := fun r => mem_rows_deleted hbelow hR hws
  exact commits_edit hinv (.less hless) fun r hr => .inr ⟨r, hless r hr, rfl, rfl⟩

variable {workspaceId taskId actorId checklistId itemId : Id}

/-- A call that moves nothing leaves nothing to show. -/
theorem ends_of_none (h : targets i = none) (r : Option ApiError) (g : Noted) :
    (racing R listId targets).Ends i r g := by
  intro _ m afterId htarget
  rw [h] at htarget
  cases htarget

theorem emitUpdated_ends_of_none (h : targets i = none) (g : Noted) :
    (TaskEventsService.emitUpdated workspaceId taskId actorId).Kept (racing R listId targets) i
      (fun _ => (racing R listId targets).Ends i none)
      (fun e => (racing R listId targets).Ends i (some e)) g :=
  (emitUpdated_noted (Q := fun _ => True) trivial).mono (fun _ g _ => ends_of_none h none g)
    fun e g _ => ends_of_none h (some e) g

/-- A failed call has nothing to show either. -/
theorem ends_of_error (e : ApiError) (g : Noted) : (racing R listId targets).Ends i (some e) g :=
  fun h => by cases h

/-- The answer of a move comes after its write, and leaves it as noted. -/
theorem emitUpdated_shows (htarget : targets i = some (m, afterId))
    (hplaced : ∃ db, g.written = some db ∧ Behind R db listId m (afterId.filter truthy)) :
    (TaskEventsService.emitUpdated workspaceId taskId actorId).Kept (racing R listId targets) i
      (fun _ => (racing R listId targets).Ends i none)
      (fun e => (racing R listId targets).Ends i (some e)) g := by
  refine (emitUpdated_noted (Q := fun written => ∃ db, written = some db ∧
    Behind R db listId m (afterId.filter truthy)) hplaced).mono (fun _ g hshown => ?_)
    fun e g _ => ends_of_error e g
  intro _ m' afterId' htarget'
  rw [htarget] at htarget'
  obtain ⟨rfl, rfl⟩ := Prod.mk.inj (Option.some.inj htarget')
  exact hshown

/-- A call that begins with its task. -/
theorem findTaskBasic_races {Q : TaskRow → Noted → Prop} (hQ : ∀ task g, task.id = taskId → Q task g) :
    (Call.auto (findTaskBasic workspaceId taskId)).Kept (racing R listId targets) i Q
      (fun e => (racing R listId targets).Ends i (some e)) g := by
  rw [findTaskBasic, findFirst, Call.auto_bind, Call.Kept_bind]
  refine Kept_auto_query (fun e => ends_of_error e g) fun db _ _ => ?_
  refine Kept_auto_orThrow (ends_of_error _ _) fun task hfound => ?_
  exact hQ task _ (byId_eq_some.mp (of_taskScope hfound)).2

/-- What one call keeps, however the others interleave. -/
def Races (R : Type) [Model R] [Placed R] (listId : Id) {ι : Type}
    (targets : ι → Option (Id × Option Id)) (i : ι) (call : Call kurul TaskDto) : Prop :=
  ∀ g, call.Kept (racing R listId targets) i (fun _ => (racing R listId targets).Ends i none)
    (fun e => (racing R listId targets).Ends i (some e)) g

theorem checklist_create_races (dto : CreateChecklistDto) (hnone : targets i = none) :
    Races ChecklistRow taskId targets i (ChecklistService.create workspaceId taskId actorId dto) := by
  intro g
  rw [ChecklistService.create, Call.Kept_bind]
  refine findTaskBasic_races fun task g htask => ?_
  rw [Call.Kept_bind, htask]
  refine Call.Kept_transaction (fun e g _ => ends_of_error e g) fun db _ => ?_
  exact append_kept ⟨.task, taskId⟩
    (fun id position => ({ id, taskId, title := dto.title, position } : ChecklistRow))
    (fun _ _ => rfl) (fun _ _ => rfl) hnone fun g => emitUpdated_ends_of_none hnone g

theorem checklist_remove_races (hnone : targets i = none) :
    Races ChecklistRow listId targets i (ChecklistService.remove workspaceId taskId actorId checklistId) := by
  intro g
  rw [ChecklistService.remove, Call.Kept_bind]
  refine findTaskBasic_races fun task g htask => ?_
  rw [Call.Kept_bind]
  refine (deleteMany_kept rfl (by decide) fun count g => ?_).mono (fun _ _ h => h)
    fun e g _ => ends_of_error e g
  rw [Call.Kept_bind]
  exact Kept_auto_throwIf (ends_of_error _ _) fun _ => emitUpdated_ends_of_none hnone g

theorem checklist_move_races (dto : MoveChecklistDto)
    (htarget : targets i = some (checklistId, dto.afterId)) :
    Races ChecklistRow taskId targets i
      (ChecklistService.move workspaceId taskId actorId checklistId dto) := by
  intro g
  rw [ChecklistService.move, Call.Kept_bind]
  refine findTaskBasic_races fun task g htask => ?_
  rw [Call.Kept_bind]
  refine Kept_auto_query (fun e => ends_of_error e g) fun db _ _ => ?_
  rw [Call.Kept_bind]
  refine Kept_auto_throwIf (ends_of_error _ _) fun _ => ?_
  rw [Call.Kept_bind]
  exact Call.Kept.mono (fun _ _ hplaced => emitUpdated_shows htarget hplaced)
    (fun e g _ => ends_of_error e g) (writeSlot_kept htarget rfl)

theorem item_create_races (dto : CreateChecklistItemDto) (hnone : targets i = none) :
    Races ChecklistItemRow checklistId targets i
      (ChecklistItemService.create workspaceId taskId actorId checklistId dto) := by
  intro g
  rw [ChecklistItemService.create, Call.Kept_bind]
  refine findTaskBasic_races fun task g htask => ?_
  rw [Call.Kept_bind]
  refine Kept_auto_query (fun e => ends_of_error e g) fun db _ _ => ?_
  rw [Call.Kept_bind]
  refine Kept_auto_orThrow (ends_of_error _ _) fun checklist _ => ?_
  rw [Call.Kept_bind]
  refine Call.Kept_transaction (fun e g _ => ends_of_error e g) fun db _ => ?_
  exact append_kept ⟨.checklist, checklistId⟩ (fun id position =>
      ({ id, checklistId, content := dto.content, isDone := false, position } : ChecklistItemRow))
    (fun _ _ => rfl) (fun _ _ => rfl) hnone fun g => emitUpdated_ends_of_none hnone g

theorem item_remove_races (hnone : targets i = none) :
    Races ChecklistItemRow listId targets i
      (ChecklistItemService.remove workspaceId taskId actorId itemId) := by
  intro g
  rw [ChecklistItemService.remove, Call.Kept_bind]
  refine findTaskBasic_races fun task g htask => ?_
  rw [Call.Kept_bind]
  refine (deleteMany_kept rfl (by decide) fun count g => ?_).mono (fun _ _ h => h)
    fun e g _ => ends_of_error e g
  rw [Call.Kept_bind]
  exact Kept_auto_throwIf (ends_of_error _ _) fun _ => emitUpdated_ends_of_none hnone g

theorem item_move_races (dto : MoveChecklistItemDto)
    (htarget : targets i = some (itemId, dto.afterId)) :
    Races ChecklistItemRow listId targets i
      (ChecklistItemService.move workspaceId taskId actorId itemId dto) := by
  intro g
  rw [ChecklistItemService.move, Call.Kept_bind]
  refine findTaskBasic_races fun task g htask => ?_
  rw [Call.Kept_bind]
  refine Kept_auto_query (fun e => ends_of_error e g) fun db hinv _ => ?_
  rw [Call.Kept_bind]
  refine Kept_auto_orThrow (ends_of_error _ _) fun owner howner => ?_
  rw [Call.Kept_bind]
  -- the item is of this list, so its siblings are
  have hlist : owner.checklistId = listId := by
    have hscope := List.find?_some howner
    simp only [ChecklistItemService.itemScope, Bool.and_eq_true, decide_eq_true_eq] at hscope
    exact hinv.2 i itemId dto.afterId htarget owner (List.mem_of_find?_eq_some howner) hscope.1
  rw [hlist]
  refine Kept_auto_query (fun e => ends_of_error e _) fun db _ _ => ?_
  rw [Call.Kept_bind]
  exact Call.Kept.mono (fun _ _ hplaced => emitUpdated_shows htarget hplaced)
    (fun e g _ => ends_of_error e g) (writeSlot_kept htarget rfl)

end Kept

/-! ## Runs -/

/-- The task a call names. -/
def ChecklistOp.list : ChecklistOp → Id
  | .create _ taskId _ _ => taskId
  | .remove _ taskId _ _ => taskId
  | .move _ taskId _ _ _ => taskId

/-- The checklist a call names, if it names one. -/
def ChecklistItemOp.list : ChecklistItemOp → Option Id
  | .create _ _ _ checklistId _ => some checklistId
  | _ => none

theorem ChecklistOp.races {ι : Type} {targets : ι → Option (Id × Option Id)} {i : ι} {taskId : Id}
    (op : ChecklistOp) (hlist : op.list = taskId) (htarget : targets i = op.target) :
    Races ChecklistRow taskId targets i op.call := by
  subst hlist
  cases op with
  | create workspaceId taskId actorId dto => exact checklist_create_races dto htarget
  | remove workspaceId taskId actorId checklistId => exact checklist_remove_races htarget
  | move workspaceId taskId actorId checklistId dto => exact checklist_move_races dto htarget

theorem ChecklistItemOp.races {ι : Type} {targets : ι → Option (Id × Option Id)} {i : ι}
    {checklistId : Id} (op : ChecklistItemOp) (hlist : ∀ l, op.list = some l → l = checklistId)
    (htarget : targets i = op.target) : Races ChecklistItemRow checklistId targets i op.call := by
  cases op with
  | create workspaceId taskId actorId c dto =>
    obtain rfl := hlist c rfl
    exact item_create_races dto htarget
  | remove workspaceId taskId actorId itemId => exact item_remove_races htarget
  | move workspaceId taskId actorId itemId dto => exact item_move_races dto htarget

section Runs

variable {R : Type} [Model R] [Placed R] {ι : Type} [DecidableEq ι] {listId : Id} {db₀ : Db}
  {σ σ₀ : Config kurul ι} {g : ι → Noted} {past : List (Past kurul ι Noted)}

/-- No two positions of the list are equal, and each move that has returned took a step that put its row
right behind the one it names. -/
def Arranged (R : Type) [Model R] [Placed R] (listId : Id) {ι : Type}
    (targets : ι → Option (Id × Option Id)) (σ : Config kurul ι) (past : List (Past kurul ι Noted)) :
    Prop :=
  Distinct R σ.db listId ∧ ∀ i m afterId, targets i = some (m, afterId) → σ.returned i = true →
    ∃ p ∈ past, p.who = i ∧ p.act = .exec (.update (Model.table R)) ∧
      Behind R p.after listId m (afterId.filter truthy)

/-- What a call has noted as written was left by a step it took. -/
theorem written_of_booked {Ok : ι → Noted → Act kurul → Db → Prop}
    (h : Booked (Noted.note R listId) .empty Ok σ₀ σ g past) {i : ι} {db : Db}
    (hwritten : (g i).written = some db) :
    ∃ p ∈ past, p.who = i ∧ p.act = .exec (.update (Model.table R)) ∧ p.after = db := by
  obtain ⟨p, hp, hwho, hbefore, saw, hnoted⟩ := h.noted (f := Noted.written) rfl hwritten
  refine ⟨p, hp, hwho, ?_⟩
  unfold Noted.note at hnoted
  split at hnoted
  · exact absurd hnoted hbefore
  · case h_2 table hact =>
    simp only at hnoted
    split at hnoted
    · case isTrue htable => exact ⟨by rw [hact, htable], Option.some.inj hnoted⟩
    · exact absurd hnoted hbefore
  · exact absurd hnoted hbefore

theorem inOrder_of_races {Op : Type} {call : Op → Call kurul TaskDto} {ops : ι → Op}
    {targets : ι → Option (Id × Option Id)}
    (hraces : ∀ i, Races R listId targets i (call (ops i))) (hdistinct : Distinct R db₀ listId)
    (honlist : ∀ i, OnList R db₀ listId (targets i))
    (hrun : Booked (Noted.note R listId) .empty (Undisturbed R listId targets)
      (Config.start db₀ fun i => do let _ ← call (ops i)) σ g past) :
    Arranged R listId targets σ past := by
  have hstart : (Config.start db₀ fun i => do let _ ← call (ops i)).Kept (racing R listId targets)
      fun _ => .empty := by
    refine .start ⟨hdistinct, honlist⟩ fun i => ?_
    rw [Call.Kept_bind]
    exact hraces i .empty
  obtain ⟨hkept, _⟩ := Booked.good hstart (fun _ _ _ _ h => h) hrun
  refine ⟨hkept.inv.1, fun i m afterId htarget hreturned => ?_⟩
  obtain ⟨db, hwritten, hbehind⟩ := hkept.returned hreturned rfl m afterId htarget
  obtain ⟨p, hp, hwho, hact, rfl⟩ := written_of_booked hrun hwritten
  exact ⟨p, hp, hwho, hact, hbehind⟩

end Runs

/-- However creates, removals and moves on one list interleave: if each writes into a place that is as it
was read, positions stay distinct and every move that returns has put its row behind the one it names. -/
theorem checklist_races {ι : Type} [DecidableEq ι] :
    (∀ taskId db₀ (ops : ι → ChecklistOp) σ g past, (∀ i, (ops i).list = taskId) →
      (∀ i, OnList ChecklistRow db₀ taskId (ops i).target) → Distinct ChecklistRow db₀ taskId →
      Booked (Noted.note ChecklistRow taskId) .empty
        (Undisturbed ChecklistRow taskId fun i => (ops i).target)
        (Config.start db₀ fun i => do let _ ← (ops i).call) σ g past →
      Arranged ChecklistRow taskId (fun i => (ops i).target) σ past) ∧
    ∀ checklistId db₀ (ops : ι → ChecklistItemOp) σ g past,
      (∀ i l, (ops i).list = some l → l = checklistId) →
      (∀ i, OnList ChecklistItemRow db₀ checklistId (ops i).target) →
      Distinct ChecklistItemRow db₀ checklistId →
      Booked (Noted.note ChecklistItemRow checklistId) .empty
        (Undisturbed ChecklistItemRow checklistId fun i => (ops i).target)
        (Config.start db₀ fun i => do let _ ← (ops i).call) σ g past →
      Arranged ChecklistItemRow checklistId (fun i => (ops i).target) σ past :=
  ⟨fun _ _ _ _ _ _ hlist honlist hdistinct hrun => inOrder_of_races
      (fun i => ChecklistOp.races _ (hlist i) rfl) hdistinct honlist hrun,
    fun _ _ _ _ _ _ hlist honlist hdistinct hrun => inOrder_of_races
      (fun i => ChecklistItemOp.races _ (hlist i) rfl) hdistinct honlist hrun⟩

/-! ## Two runs -/

/-- A task with four checklists. -/
def fourChecklists : Db where
  rows := bareTask.rows ++ [
    .checklist ⟨js "1", js "t", js "L", 1000⟩, .checklist ⟨js "2", js "t", js "L", 2000⟩,
    .checklist ⟨js "3", js "t", js "L", 3000⟩, .checklist ⟨js "4", js "t", js "L", 4000⟩]
  nodup := by decide

instance {R : Type} [Model R] [Placed R] (db : Db) (listId : Id) : Decidable (Distinct R db listId) :=
  inferInstanceAs (Decidable (∀ r ∈ rows R db, ∀ s ∈ rows R db, Placed.list r = listId →
    Placed.list s = listId → Model.id r ≠ Model.id s → Placed.position r ≠ Placed.position s))

instance {R : Type} [Model R] [Placed R] (listId : Id) (target : Option (Id × Option Id))
    (listing : List Sibling) (db : Db) : Decidable (Stands R listId target listing db) := by
  unfold Stands
  split <;> infer_instance

/-- A test of `Undisturbed`. -/
def undisturbed (R : Type) [Model R] [Placed R] (listId : Id) {ι : Type}
    (targets : ι → Option (Id × Option Id)) (i : ι) (g : Noted) (a : Act kurul) (db : Db) : Bool :=
  match a with
  | .exec (.update _) | .commit .transaction => Stands R listId (targets i) g.listing db
  | _ => true

theorem undisturbed_ok {R : Type} [Model R] [Placed R] {listId : Id} {ι : Type}
    {targets : ι → Option (Id × Option Id)} (i : ι) (g : Noted) (a : Act kurul) (db : Db)
    (h : undisturbed R listId targets i g a db = true) : Undisturbed R listId targets i g a db := by
  rintro (rfl | rfl)
  · exact of_decide_eq_true h
  · exact of_decide_eq_true h

/-- A row is moved up while another is added. -/
def moveAndCreate : Fin 2 → ChecklistOp
  | 0 => (moveBehind "1" "2").1
  | 1 => (add "5").1

/-- The create has read the end of the list when the move writes, and neither is in the other's way. -/
theorem checklist_races_apart : ∃ (σ : Config kurul (Fin 2)) (past : List (Past kurul (Fin 2) Noted)),
    (∀ i, σ.returned i = true) ∧ (rows ChecklistRow σ.db).length = 5 ∧
    Arranged ChecklistRow (js "t") (fun i => (moveAndCreate i).target) σ past := by
  have hgoes : ((Config.start (S := kurul) fourChecklists fun i => do
      let _ ← (moveAndCreate i).call).booked (Noted.note ChecklistRow (js "t")) (0 : Instant)
        (undisturbed ChecklistRow (js "t") fun i => (moveAndCreate i).target)
        ([(0, js "x"), (0, js "x"), (1, js "x"), (1, js "x"), (1, js "x"), (1, js "x")] ++
          List.replicate 4 (0, js "x") ++ List.replicate 6 (1, js "5"))
        (fun _ => .empty) []).any
      (fun (r : Config kurul (Fin 2) × (Fin 2 → Noted) × List (Past kurul (Fin 2) Noted)) =>
        decide ((∀ i, r.1.returned i = true) ∧ (rows ChecklistRow r.1.db).length = 5)) = true := by
    decide +kernel
  obtain ⟨⟨σ, g, past⟩, hσ, hend⟩ := (Option.any_eq_true _ _).mp hgoes
  obtain ⟨hdone, hlength⟩ := of_decide_eq_true hend
  have hlist : ∀ r ∈ rows ChecklistRow fourChecklists, Placed.list r = js "t" := by decide +kernel
  have hdistinct : Distinct ChecklistRow fourChecklists (js "t") := by decide +kernel
  exact ⟨σ, past, hdone, hlength, checklist_races.1 _ fourChecklists moveAndCreate σ g past (by decide)
    (fun _ _ _ _ r hr _ => hlist r hr) hdistinct (booked_of_schedule undisturbed_ok .refl hσ)⟩

/-- Two rows are moved behind the first. -/
def moveTwice : Fin 2 → ChecklistOp
  | 0 => (moveBehind "3" "1").1
  | 1 => (moveBehind "4" "1").1

/-- Both moves read before either writes, find the same gap, and leave two rows at one position. -/
theorem moves_collide :
    ¬ ∀ (taskId : Id) (db₀ : Db) (ops : Fin 2 → ChecklistOp) (σ : Config kurul (Fin 2))
      (g : Fin 2 → Noted) (past : List (Past kurul (Fin 2) Noted)), (∀ i, (ops i).list = taskId) →
      (∀ i, OnList ChecklistRow db₀ taskId (ops i).target) → Distinct ChecklistRow db₀ taskId →
      Booked (Noted.note ChecklistRow taskId) .empty (fun _ _ _ _ => True)
        (Config.start db₀ fun i => do let _ ← (ops i).call) σ g past →
      Arranged ChecklistRow taskId (fun i => (ops i).target) σ past := by
  intro h
  have hgoes : ((Config.start (S := kurul) fourChecklists fun i => do
      let _ ← (moveTwice i).call).booked (Noted.note ChecklistRow (js "t")) (0 : Instant)
        (fun _ _ _ _ => true)
        [(0, js "x"), (0, js "x"), (1, js "x"), (1, js "x"), (0, js "x"), (1, js "x")]
        (fun _ => .empty) []).any
      (fun (r : Config kurul (Fin 2) × (Fin 2 → Noted) × List (Past kurul (Fin 2) Noted)) =>
        decide (¬ Distinct ChecklistRow r.1.db (js "t"))) = true := by
    decide +kernel
  obtain ⟨⟨σ, g, past⟩, hσ, hend⟩ := (Option.any_eq_true _ _).mp hgoes
  have hlist : ∀ r ∈ rows ChecklistRow fourChecklists, Placed.list r = js "t" := by decide +kernel
  have hdistinct : Distinct ChecklistRow fourChecklists (js "t") := by decide +kernel
  exact of_decide_eq_true hend (h _ fourChecklists moveTwice σ g past (by decide)
    (fun _ _ _ _ r hr _ => hlist r hr) hdistinct (booked_of_schedule (fun _ _ _ _ _ => trivial) .refl hσ)).1

end Kurul
