import Kurul.Comment.Mentions
import Kurul.Import.Accounting

/-!
# Kurul.Import.LabelColors

Which slots the colours of an export are given.

* `slot_cases`        — what bracket access on the colour table answers, for every text.
* `inherited_iff`     — the one inherited name a colour can be.
* `planLabels_colors` — the colours of the planned labels are those of the export's, in order.
* `colors_to_slots`   — a colour gets a slot, and its labels rows that can be written, exactly unless it
  is that name.
-/

namespace Kurul

open Plan

/-- `LabelColorSlot`: what the column of a label's colour may hold. -/
def labelColorSlots : List JsString :=
  [js "slot-1", js "slot-2", js "slot-3", js "slot-4", js "slot-5", js "slot-6", js "slot-7",
    js "slot-8"]

/-- A colour in lower case, without its shade. -/
def colorBase (rt : Runtime) (color : Option JsString) : JsString :=
  (rt.toLowerCase (color.getD [])).takeWhile fun c => [c] ≠ js "_"

/-- Lower case has none of the letters A to Z. -/
def Runtime.LowersCase (rt : Runtime) : Prop :=
  ∀ s, ∀ c ∈ rt.toLowerCase s, ¬ (65 ≤ c.val ∧ c.val ≤ 90)

/-- The colour of a row that can be written. -/
def SlotValue.Allowed (value : SlotValue) : Prop := ∃ name ∈ labelColorSlots, value = .slot name

/-- A slot the schema allows, and a report exactly of a colour that is not known. -/
def MapsToSlot (rt : Runtime) (color : Option JsString) : Prop :=
  (trelloColorToSlot rt color).slot.Allowed ∧
    ((trelloColorToSlot rt color).defaulted = true ↔
      colorBase rt color ∉ trelloColorTable.map Prod.fst)

section Colors

variable {rt : Runtime} {color : Option JsString}

theorem lookup_slot {base slot : JsString} (h : trelloColorTable.lookup base = some slot) :
    slot ∈ labelColorSlots ∧ base ∈ trelloColorTable.map Prod.fst := by
  obtain ⟨l₁, l₂, hsplit, _⟩ := List.lookup_eq_some_iff.mp h
  have hmem : (base, slot) ∈ trelloColorTable := by
    rw [hsplit]
    simp
  have hslots : ∀ entry ∈ trelloColorTable, entry.2 ∈ labelColorSlots := by decide
  exact ⟨hslots _ hmem, List.mem_map_of_mem hmem⟩

theorem lookup_none {base : JsString} (h : trelloColorTable.lookup base = none) :
    base ∉ trelloColorTable.map Prod.fst := by
  intro hbase
  obtain ⟨entry, hentry, rfl⟩ := List.mem_map.mp hbase
  have hne := List.lookup_eq_none_iff.mp h entry hentry
  simp at hne

theorem trelloColorToSlot_some {slot : JsString}
    (h : trelloColorTable.lookup (colorBase rt color) = some slot) :
    trelloColorToSlot rt color = ⟨.slot slot, false⟩ := by
  unfold colorBase at h
  unfold trelloColorToSlot
  simp only [h]

theorem trelloColorToSlot_none (h : trelloColorTable.lookup (colorBase rt color) = none) :
    trelloColorToSlot rt color = if colorBase rt color ∈ inheritedNames then ⟨.inherited, false⟩
      else ⟨.slot (js "slot-1"), true⟩ := by
  unfold colorBase at h ⊢
  unfold trelloColorToSlot
  simp only [h]

/-- What the table answers: a slot, unless the answer is an inherited member. -/
theorem slot_cases (rt : Runtime) (color : Option JsString) :
    (trelloColorTable.lookup (colorBase rt color) = none ∧
      colorBase rt color ∈ inheritedNames ∧ ¬ (trelloColorToSlot rt color).slot.Allowed) ∨
    (¬ (trelloColorTable.lookup (colorBase rt color) = none ∧
      colorBase rt color ∈ inheritedNames) ∧ MapsToSlot rt color) := by
  unfold MapsToSlot
  cases hlookup : trelloColorTable.lookup (colorBase rt color) with
  | some slot =>
    rw [trelloColorToSlot_some hlookup]
    obtain ⟨hslot, hknown⟩ := lookup_slot hlookup
    simp [SlotValue.Allowed, hslot, hknown]
  | none =>
    rw [trelloColorToSlot_none hlookup]
    have hunknown := lookup_none hlookup
    have hfallback : js "slot-1" ∈ labelColorSlots := by decide
    by_cases hinherited : colorBase rt color ∈ inheritedNames
    · simp [SlotValue.Allowed, hinherited]
    · simp [SlotValue.Allowed, hinherited, hunknown, hfallback]

/-- Of the inherited names only one is in lower case and has no underscore. -/
theorem inherited_iff (h : rt.LowersCase) :
    colorBase rt color ∈ inheritedNames ↔ colorBase rt color = js "constructor" := by
  have hlower : ∀ c ∈ colorBase rt color, ¬ (65 ≤ c.val ∧ c.val ≤ 90) :=
    fun c hc => h _ c ((List.takeWhile_prefix _).subset hc)
  have hshade : ∀ c ∈ colorBase rt color, c.val ≠ 95 := by
    intro c hc hval
    have hne := List.mem_takeWhile_imp hc
    rw [decide_eq_true_eq] at hne
    exact hne (congrArg (fun c : CodeUnit => [c]) (Fin.ext hval : c = 95))
  have hnames : ∀ name ∈ inheritedNames, (name.any fun c =>
      (65 ≤ c.val && c.val ≤ 90) || c.val = 95) = true ∨ name = js "constructor" := by
    simp only [inheritedNames, List.forall_mem_cons]
    decide
  constructor
  · intro hmem
    refine (hnames _ hmem).resolve_left fun hany => ?_
    obtain ⟨c, hc, htest⟩ := List.any_eq_true.mp hany
    simp only [Bool.or_eq_true, Bool.and_eq_true, decide_eq_true_eq] at htest
    exact htest.elim (hlower c hc) (hshade c hc)
  · intro heq
    rw [heq]
    decide

/-- The slot, and with it the whole mapping, is right unless the colour is that name. -/
theorem slot_iff (h : rt.LowersCase) :
    (MapsToSlot rt color ↔ colorBase rt color ≠ js "constructor") ∧
      ((trelloColorToSlot rt color).slot.Allowed ↔ colorBase rt color ≠ js "constructor") := by
  have hunknown : colorBase rt color = js "constructor" →
      trelloColorTable.lookup (colorBase rt color) = none := by
    intro heq
    rw [heq]
    decide
  rcases slot_cases rt color with ⟨_, hmem, hslot⟩ | ⟨hne, hmaps⟩
  · have heq := (inherited_iff h).mp hmem
    simp [MapsToSlot, hslot, heq]
  · have hother : colorBase rt color ≠ js "constructor" :=
      fun heq => hne ⟨hunknown heq, (inherited_iff h).mpr heq⟩
    simp [hmaps, hmaps.1, hother]

end Colors

/-! ## The planned labels -/

section Labels

variable {rt : Runtime} {uuidv7 : Nat → Id} {actorId boardId : Id}

/-- One planned label for each of the export's, in its order and with its slot. -/
theorem planLabels_colors (labels : List TrelloLabel) : ∀ byId s,
    (planLabels rt uuidv7 boardId labels byId s).1.1.map PlannedLabel.color =
      labels.map fun label => (trelloColorToSlot rt label.color).slot := by
  induction labels with
  | nil => intro byId s; rfl
  | cons label rest ih =>
    intro byId s
    obtain ⟨_, s₁, _, heq⟩ := planLabels_cons rt boardId label rest byId s
    rw [heq]
    simp [ih]

/-- The colours of a plan are the slots of the export's. -/
theorem plan_colors (rt : Runtime) (uuidv7 : Nat → Id) (actorId : Id) (read : TrelloExportReadResult) :
    (planTrelloImport rt uuidv7 actorId read).labels.map PlannedLabel.color =
      read.source.labels.map fun label => (trelloColorToSlot rt label.color).slot :=
  planLabels_colors _ _ _

/-- Every colour has a slot the schema allows, and is reported exactly when it is not known, unless
it is the name every object inherits; and the labels of a plan can be written exactly when none of
the export's has that one. -/
theorem colors_to_slots (h : rt.LowersCase) :
    (∀ color, MapsToSlot rt color ↔ colorBase rt color ≠ js "constructor") ∧
      ∀ uuidv7 actorId read,
        (∀ label ∈ (planTrelloImport rt uuidv7 actorId read).labels, label.color.Allowed) ↔
          ∀ label ∈ read.source.labels, colorBase rt label.color ≠ js "constructor" := by
  refine ⟨fun color => (slot_iff h).1, fun uuidv7 actorId read => ?_⟩
  have hcolors := plan_colors rt uuidv7 actorId read
  calc (∀ label ∈ (planTrelloImport rt uuidv7 actorId read).labels, label.color.Allowed)
      ↔ ∀ color ∈ (planTrelloImport rt uuidv7 actorId read).labels.map PlannedLabel.color,
          color.Allowed := by simp
    _ ↔ ∀ label ∈ read.source.labels, (trelloColorToSlot rt label.color).slot.Allowed := by
        rw [hcolors]
        simp
    _ ↔ ∀ label ∈ read.source.labels, colorBase rt label.color ≠ js "constructor" :=
        forall₂_congr fun _ _ => (slot_iff h).2

/-- A runtime that lowers the letters A to Z. -/
def lowersAscii : Runtime := { Runtime.bare with toLowerCase := List.map foldCase }

theorem foldCase_lower (c : CodeUnit) : ¬ (65 ≤ (foldCase c).val ∧ (foldCase c).val ≤ 90) := by
  unfold foldCase
  split
  case isTrue h =>
    have hval : (c + 32).val = c.val + 32 := by
      rw [Fin.val_add]
      exact Nat.mod_eq_of_lt (show c.val + 32 < 65536 by omega)
    omega
  case isFalse h => exact h

theorem lowersAscii_lowersCase : lowersAscii.LowersCase := by
  intro s c hc
  obtain ⟨d, _, rfl⟩ := List.mem_map.mp hc
  exact foldCase_lower d

/-- Two labels, the second in the colour `Constructor_dark`. -/
def colouredExport : List (JsString × Json) :=
  [(js "labels", .arr [
    .obj [(js "id", .str (js "g")), (js "name", .str (js "G")), (js "color", .str (js "Sky_light"))],
    .obj [(js "id", .str (js "h")), (js "name", .str (js "H")),
      (js "color", .str (js "Constructor_dark"))]])]

/-- The first label alone can be written. -/
theorem colors_to_slots_sky :
    lowersAscii.LowersCase ∧ MapsToSlot lowersAscii (some (js "Sky_light")) ∧
      colorBase lowersAscii (some (js "Sky_light")) = js "sky" := by
  have hbase : colorBase lowersAscii (some (js "Sky_light")) = js "sky" := by decide +kernel
  refine ⟨lowersAscii_lowersCase, ((colors_to_slots lowersAscii_lowersCase).1 _).mpr ?_, hbase⟩
  rw [hbase]
  decide

/-- The second is given a member of `Object.prototype`, is not reported, and cannot be written. -/
theorem constructor_no_slot :
    ¬ MapsToSlot lowersAscii (some (js "Constructor_dark")) ∧
      ((planTrelloImport lowersAscii countedIds (js "u")
        (readExport (js "b") colouredExport)).labels.map fun label => label.color) =
          [.slot (js "slot-1"), .inherited] := by
  refine ⟨fun h => ?_, by decide +kernel⟩
  obtain ⟨name, _, hslot⟩ := h.1
  have hinherited : (trelloColorToSlot lowersAscii (some (js "Constructor_dark"))).slot =
      .inherited := by decide +kernel
  rw [hinherited] at hslot
  cases hslot

end Labels

end Kurul
