import Kurul.Scan
import Mathlib.Data.List.Nodup

/-!
# Kurul.Html

Texts in HTML: the characters that are written as references, and what a tokenizer makes of a document of
tags and texts. Comments, declarations, and what the standard calls a parse error are not read.

* `unescape_escape` — a text is read as it was before it was escaped.
* `read_write`      — tags and texts are read as they were written.
-/

namespace Html

abbrev Unit16 : Type := Fin 65536

/-! ## References -/

/-- The characters that are escaped, with what is written for them: `&`, `<`, `>`, the quote and the
apostrophe. -/
def references : List (Unit16 × List Unit16) :=
  [(38, [38, 97, 109, 112, 59]), (60, [38, 108, 116, 59]), (62, [38, 103, 116, 59]),
    (34, [38, 113, 117, 111, 116, 59]), (39, [38, 35, 51, 57, 59])]

def reference (u : Unit16) : List Unit16 :=
  ((references.find? fun r => r.1 = u).map Prod.snd).getD [u]

def escape (s : List Unit16) : List Unit16 := s.flatMap reference

def referenceAt : Scan.Pattern Unit16 Unit16 := fun s =>
  (references.find? fun r => r.2.isPrefixOf s).map fun r => (r.1, r.2.length)

def unescape (s : List Unit16) : List Unit16 := (Scan.pieces referenceAt 0 s).map (Sum.elim id id)

section Escape

variable {u : Unit16} {s : List Unit16}

theorem referenceAt_proper : referenceAt.Proper := by
  intro s b n h
  obtain ⟨r, hr, heq⟩ := Option.map_eq_some_iff.mp h
  cases heq
  have hprefix : r.2 <+: s := by simpa using List.find?_some hr
  have hmem := List.mem_of_find?_eq_some hr
  refine ⟨?_, hprefix.length_le⟩
  simp only [references, List.mem_cons, List.not_mem_nil, or_false] at hmem
  rcases hmem with rfl | rfl | rfl | rfl | rfl <;> simp

/-- What is written for a character that is escaped is read as that character. -/
theorem referenceAt_append {r : Unit16 × List Unit16} (h : r ∈ references) (s : List Unit16) :
    referenceAt (r.2 ++ s) = some (r.1, r.2.length) := by
  simp only [references, List.mem_cons, List.not_mem_nil, or_false] at h
  rcases h with rfl | rfl | rfl | rfl | rfl <;> rfl

theorem referenceAt_none (h : u ≠ 38) (s : List Unit16) : referenceAt (u :: s) = none := by
  have hnone : (references.find? fun r => r.2.isPrefixOf (u :: s)) = none := by
    refine List.find?_eq_none.mpr fun r hr hprefix => h ?_
    simp only [references, List.mem_cons, List.not_mem_nil, or_false] at hr
    rcases hr with rfl | rfl | rfl | rfl | rfl <;> simp_all
  rw [referenceAt, hnone, Option.map_none]

/-- A character is one of those that are escaped, or is written as itself. -/
theorem reference_cases (u : Unit16) :
    (∃ r ∈ references, r.1 = u ∧ reference u = r.2) ∨ (u ≠ 38 ∧ u ≠ 60 ∧ u ≠ 34 ∧ reference u = [u]) := by
  unfold reference
  cases hfind : references.find? fun r => r.1 = u with
  | some r =>
    have heq : r.1 = u := by simpa using List.find?_some hfind
    exact .inl ⟨r, List.mem_of_find?_eq_some hfind, heq, rfl⟩
  | none =>
    have hnot := List.find?_eq_none.mp hfind
    simp only [references, List.forall_mem_cons, decide_eq_true_eq] at hnot
    exact .inr ⟨Ne.symm hnot.1, Ne.symm hnot.2.1, Ne.symm hnot.2.2.2.1, rfl⟩

theorem unescape_escape (s : List Unit16) : unescape (escape s) = s := by
  induction s with
  | nil => rfl
  | cons u s ih =>
    rw [escape, List.flatMap_cons]
    rcases reference_cases u with ⟨r, hr, hu, heq⟩ | ⟨hu, -, -, heq⟩
    · have hdrop : (r.2 ++ s.flatMap reference).drop r.2.length = s.flatMap reference := List.drop_left
      rw [heq, unescape, Scan.pieces_hit referenceAt_proper (referenceAt_append hr _), hdrop, ← hu]
      exact congrArg (r.1 :: ·) ih
    · rw [heq, List.singleton_append, unescape, Scan.pieces_miss (referenceAt_none hu _)]
      exact congrArg (u :: ·) ih

/-- An escaped text opens no tag, and ends no value. -/
theorem not_mem_escape (s : List Unit16) : 60 ∉ escape s ∧ 34 ∉ escape s := by
  have hone : ∀ u ∈ s, 60 ∉ reference u ∧ 34 ∉ reference u := by
    intro u _
    rcases reference_cases u with ⟨r, hr, -, heq⟩ | ⟨-, hlt, hquote, heq⟩
    · rw [heq]
      simp only [references, List.mem_cons, List.not_mem_nil, or_false] at hr
      rcases hr with rfl | rfl | rfl | rfl | rfl <;> simp
    · rw [heq]
      simp [Ne.symm hlt, Ne.symm hquote]
  constructor
  · intro h
    obtain ⟨u, hu, hmem⟩ := List.mem_flatMap.mp h
    exact (hone u hu).1 hmem
  · intro h
    obtain ⟨u, hu, hmem⟩ := List.mem_flatMap.mp h
    exact (hone u hu).2 hmem

end Escape

/-! ## Tags -/

structure Tag where
  closing : Bool
  name : List Unit16
  /-- Names and values, the values as they are written. -/
  attributes : List (List Unit16 × List Unit16)
  deriving DecidableEq

/-- Where the tokenizer is. The tag is what is read of it so far. -/
inductive State where
  | data
  | tagOpen
  | endTagOpen
  | tagName (tag : Tag)
  | beforeAttributeName (tag : Tag)
  | attributeName (tag : Tag) (name : List Unit16)
  | beforeAttributeValue (tag : Tag) (name : List Unit16)
  /-- Between two quotes, double ones or single ones. -/
  | attributeValue (quote : Unit16) (tag : Tag) (name value : List Unit16)
  | afterAttributeValue (tag : Tag)

/-- A tab, a line feed, a form feed or a space; a carriage return is none in a document. -/
def isBlank (u : Unit16) : Bool := u = 9 || u = 10 || u = 12 || u = 32

def lower (u : Unit16) : Unit16 := if 65 ≤ u.val ∧ u.val ≤ 90 then u + 32 else u

def isLetter (u : Unit16) : Bool := (65 ≤ u.val && u.val ≤ 90) || (97 ≤ u.val && u.val ≤ 122)

/-- One character inside a tag: where it leads, or the tag that it ends. -/
def step : State → Unit16 → Option (State ⊕ Tag)
  | .data, _ => none
  | .tagOpen, u =>
    if u = 47 then some (.inl .endTagOpen)
    else if isLetter u then some (.inl (.tagName ⟨false, [lower u], []⟩)) else none
  | .endTagOpen, u => if isLetter u then some (.inl (.tagName ⟨true, [lower u], []⟩)) else none
  | .tagName tag, u =>
    if u = 62 then some (.inr tag)
    else if isBlank u then some (.inl (.beforeAttributeName tag))
    else if u = 0 ∨ u = 47 then none
    else some (.inl (.tagName { tag with name := tag.name ++ [lower u] }))
  | .beforeAttributeName tag, u =>
    if u = 62 then some (.inr tag)
    else if isBlank u then some (.inl (.beforeAttributeName tag))
    else if u = 0 ∨ u = 47 ∨ u = 61 ∨ u = 34 ∨ u = 39 ∨ u = 60 then none
    else some (.inl (.attributeName tag [lower u]))
  | .attributeName tag name, u =>
    if u = 61 then
      if name ∈ tag.attributes.map Prod.fst then none else some (.inl (.beforeAttributeValue tag name))
    else if isBlank u ∨ u = 0 ∨ u = 47 ∨ u = 62 ∨ u = 34 ∨ u = 39 ∨ u = 60 then none
    else some (.inl (.attributeName tag (name ++ [lower u])))
  | .beforeAttributeValue tag name, u =>
    if u = 34 ∨ u = 39 then some (.inl (.attributeValue u tag name [])) else none
  | .attributeValue quote tag name value, u =>
    if u = quote then
      some (.inl (.afterAttributeValue { tag with attributes := tag.attributes ++ [(name, value)] }))
    else some (.inl (.attributeValue quote tag name (value ++ [u])))
  | .afterAttributeValue tag, u =>
    if u = 62 then some (.inr tag)
    else if isBlank u then some (.inl (.beforeAttributeName tag)) else none

/-- The text before the first tag, and every tag with the text behind it. -/
abbrev Markup : Type := List Unit16 × List (Tag × List Unit16)

def Markup.text (text : List Unit16) (m : Markup) : Markup := (text ++ m.1, m.2)

def Markup.tag (tag : Tag) (m : Markup) : Markup := ([], (tag, m.1) :: m.2)

def read : State → List Unit16 → Option Markup
  | .data, [] => some ([], [])
  | _, [] => none
  | .data, u :: s => if u = 60 then read .tagOpen s else (read .data s).map (Markup.text [u])
  | state, u :: s => match step state u with
    | none => none
    | some (.inl state) => read state s
    | some (.inr tag) => (read .data s).map (Markup.tag tag)

/-- A tag as it is written. -/
def Tag.write (tag : Tag) : List Unit16 :=
  60 :: (if tag.closing then [47] else []) ++ tag.name ++
    tag.attributes.flatMap (fun a => 32 :: a.1 ++ 61 :: 34 :: a.2 ++ [34]) ++ [62]

def write (items : List (Tag × List Unit16)) : List Unit16 := items.flatMap fun item => item.1.write ++ item.2

/-- Characters of a name that stand for themselves: small letters, digits and hyphens. -/
def isPlain (u : Unit16) : Bool := (97 ≤ u.val && u.val ≤ 122) || (48 ≤ u.val && u.val ≤ 57) || u = 45

/-- The names are read as they are written, and no value ends before its end. -/
structure Tag.Plain (tag : Tag) : Prop where
  letter : ∃ u s, tag.name = u :: s ∧ isLetter u = true
  name : ∀ u ∈ tag.name, isPlain u = true
  names : ∀ a ∈ tag.attributes, a.1 ≠ [] ∧ ∀ u ∈ a.1, isPlain u = true
  distinct : (tag.attributes.map Prod.fst).Nodup
  values : ∀ a ∈ tag.attributes, 34 ∉ a.2

/-- What is asked of the names. -/
def Tag.plainNames (tag : Tag) : Bool :=
  tag.name.head?.any isLetter && tag.name.all isPlain &&
    tag.attributes.all (fun a => !a.1.isEmpty && a.1.all isPlain) && (tag.attributes.map Prod.fst).Nodup

section Read

variable {tag : Tag} {state state' : State} {u quote : Unit16} {name value s text : List Unit16}

theorem Tag.plain_of_names (h : tag.plainNames = true) (hvalues : ∀ a ∈ tag.attributes, 34 ∉ a.2) :
    tag.Plain := by
  simp only [Tag.plainNames, Bool.and_eq_true, List.all_eq_true, decide_eq_true_eq] at h
  obtain ⟨⟨⟨hletter, hname⟩, hnames⟩, hdistinct⟩ := h
  refine ⟨?_, hname, fun a ha => ?_, hdistinct, hvalues⟩
  · cases hlist : tag.name with
    | nil => simp [hlist] at hletter
    | cons u s => exact ⟨u, s, rfl, by simpa [hlist] using hletter⟩
  · obtain ⟨hne, hplain⟩ := hnames a ha
    exact ⟨by simpa using hne, hplain⟩

theorem read_step (h : step state u = some (.inl state')) : read state (u :: s) = read state' s := by
  cases state with
  | data => cases h
  | _ => simp only [read, h]

theorem read_end (h : step state u = some (.inr tag)) :
    read state (u :: s) = (read .data s).map (Markup.tag tag) := by
  cases state with
  | data => cases h
  | _ => simp only [read, h]

/-- A text without `<`. -/
theorem read_text (h : 60 ∉ text) (s : List Unit16) :
    read .data (text ++ s) = (read .data s).map (Markup.text text) := by
  induction text with
  | nil =>
    rw [List.nil_append]
    cases read .data s <;> rfl
  | cons u text ih =>
    rw [List.mem_cons, not_or] at h
    rw [List.cons_append, read, if_neg (Ne.symm h.1), ih h.2, Option.map_map]
    rfl

theorem plain_facts (h : isPlain u = true) : lower u = u ∧ u ≠ 0 ∧ u ≠ 32 ∧ u ≠ 34 ∧ u ≠ 39 ∧ u ≠ 47 ∧
    u ≠ 60 ∧ u ≠ 61 ∧ u ≠ 62 ∧ isBlank u = false := by
  have hne : ∀ v : Unit16, isPlain v = false → u ≠ v := by
    rintro v hv rfl
    rw [h] at hv
    cases hv
  have hlower : lower u = u := by
    simp only [isPlain, Bool.or_eq_true, Bool.and_eq_true, decide_eq_true_eq] at h
    rw [lower, if_neg]
    rcases h with (h | h) | rfl
    · omega
    · omega
    · decide
  have hblank : isBlank u = false := by
    simp [isBlank, hne 9 rfl, hne 10 rfl, hne 12 rfl, hne 32 rfl]
  exact ⟨hlower, hne 0 rfl, hne 32 rfl, hne 34 rfl, hne 39 rfl, hne 47 rfl, hne 60 rfl, hne 61 rfl,
    hne 62 rfl, hblank⟩

theorem read_tagName (h : ∀ u ∈ name, isPlain u = true) (tag : Tag) (s : List Unit16) :
    read (.tagName tag) (name ++ s) = read (.tagName { tag with name := tag.name ++ name }) s := by
  induction name generalizing tag with
  | nil => simp
  | cons u name ih =>
    rw [List.forall_mem_cons] at h
    obtain ⟨hlower, hzero, -, -, -, hslash, -, -, hgt, hblank⟩ := plain_facts h.1
    have hstep : step (.tagName tag) u = some (.inl (.tagName { tag with name := tag.name ++ [u] })) := by
      simp [step, hlower, hzero, hslash, hgt, hblank]
    rw [List.cons_append, read_step hstep, ih h.2]
    simp

theorem read_attributeName (h : ∀ u ∈ value, isPlain u = true) (tag : Tag) (name s : List Unit16) :
    read (.attributeName tag name) (value ++ s) = read (.attributeName tag (name ++ value)) s := by
  induction value generalizing name with
  | nil => simp
  | cons u value ih =>
    rw [List.forall_mem_cons] at h
    obtain ⟨hlower, hzero, -, hquote, hapos, hslash, hlt, heq, hgt, hblank⟩ := plain_facts h.1
    have hstep : step (.attributeName tag name) u = some (.inl (.attributeName tag (name ++ [u]))) := by
      simp [step, hlower, hzero, hquote, hapos, hslash, hlt, heq, hgt, hblank]
    rw [List.cons_append, read_step hstep, ih h.2]
    simp

theorem read_value (h : quote ∉ text) (tag : Tag) (name value s : List Unit16) :
    read (.attributeValue quote tag name value) (text ++ s) =
      read (.attributeValue quote tag name (value ++ text)) s := by
  induction text generalizing value with
  | nil => simp
  | cons u text ih =>
    rw [List.mem_cons, not_or] at h
    have hstep : step (.attributeValue quote tag name value) u =
        some (.inl (.attributeValue quote tag name (value ++ [u]))) := by
      simp [step, Ne.symm h.1]
    rw [List.cons_append, read_step hstep, ih h.2]
    simp

/-- The name of the tag or a value has been read. -/
def Ready (state : State) (tag : Tag) : Prop := state = .tagName tag ∨ state = .afterAttributeValue tag

theorem Ready.step_blank (h : Ready state tag) : step state 32 = some (.inl (.beforeAttributeName tag)) := by
  rcases h with rfl | rfl <;> rfl

theorem Ready.step_gt (h : Ready state tag) : step state 62 = some (.inr tag) := by
  rcases h with rfl | rfl <;> rfl

/-- One attribute. -/
theorem read_attribute (hready : Ready state tag) (hname : name ≠ [] ∧ ∀ u ∈ name, isPlain u = true)
    (hnew : name ∉ tag.attributes.map Prod.fst) (hvalue : 34 ∉ value) (s : List Unit16) :
    read state (32 :: name ++ 61 :: 34 :: value ++ [34] ++ s) =
      read (.afterAttributeValue { tag with attributes := tag.attributes ++ [(name, value)] }) s := by
  obtain ⟨u, rest, rfl⟩ := List.exists_cons_of_ne_nil hname.1
  obtain ⟨hu, hrest⟩ := List.forall_mem_cons.mp hname.2
  obtain ⟨hlower, hzero, -, hquote, hapos, hslash, hlt, heq, hgt, hblank⟩ := plain_facts hu
  have hstart : step (.beforeAttributeName tag) u = some (.inl (.attributeName tag [u])) := by
    simp [step, hlower, hzero, hquote, hapos, hslash, hlt, heq, hgt, hblank]
  have hequals : step (.attributeName tag (u :: rest)) 61 =
      some (.inl (.beforeAttributeValue tag (u :: rest))) := by
    simp only [step, if_pos, if_neg hnew]
  have hopen : step (.beforeAttributeValue tag (u :: rest)) 34 =
      some (.inl (.attributeValue 34 tag (u :: rest) [])) := by simp [step]
  have hclose : step (.attributeValue 34 tag (u :: rest) value) 34 = some (.inl (.afterAttributeValue
      { tag with attributes := tag.attributes ++ [(u :: rest, value)] })) := by simp [step]
  have htext : (32 :: (u :: rest) ++ 61 :: 34 :: value ++ [34] ++ s) =
      32 :: u :: (rest ++ 61 :: 34 :: (value ++ 34 :: s)) := by simp
  rw [htext, read_step hready.step_blank, read_step hstart, read_attributeName hrest, List.singleton_append,
    read_step hequals, read_step hopen, read_value hvalue, List.nil_append, read_step hclose]

theorem read_attributes {attributes : List (List Unit16 × List Unit16)} (hready : Ready state tag)
    (hnames : ∀ a ∈ attributes, a.1 ≠ [] ∧ ∀ u ∈ a.1, isPlain u = true)
    (hdistinct : ((tag.attributes ++ attributes).map Prod.fst).Nodup) (hvalues : ∀ a ∈ attributes, 34 ∉ a.2)
    (s : List Unit16) :
    read state (attributes.flatMap (fun a => 32 :: a.1 ++ 61 :: 34 :: a.2 ++ [34]) ++ 62 :: s) =
      (read .data s).map (Markup.tag { tag with attributes := tag.attributes ++ attributes }) := by
  induction attributes generalizing state tag with
  | nil =>
    rw [List.append_nil]
    exact read_end hready.step_gt
  | cons a rest ih =>
    obtain ⟨hname, hnames⟩ := List.forall_mem_cons.mp hnames
    obtain ⟨hvalue, hvalues⟩ := List.forall_mem_cons.mp hvalues
    have hnew : a.1 ∉ tag.attributes.map Prod.fst := by
      rw [List.map_append, List.map_cons, List.nodup_append] at hdistinct
      exact fun hmem => hdistinct.2.2 _ hmem _ List.mem_cons_self rfl
    have hrest : ((tag.attributes ++ [(a.1, a.2)] ++ rest).map Prod.fst).Nodup := by simpa using hdistinct
    rw [List.flatMap_cons, List.append_assoc, read_attribute hready hname hnew hvalue,
      ih (.inr rfl) hnames hrest hvalues]
    simp

theorem read_tag (h : tag.Plain) (s : List Unit16) :
    read .data (tag.write ++ s) = (read .data s).map (Markup.tag tag) := by
  obtain ⟨u, rest, hname, hletter⟩ := h.letter
  have hplain := h.name
  rw [hname, List.forall_mem_cons] at hplain
  have hlower := (plain_facts hplain.1).1
  have hslash := (plain_facts hplain.1).2.2.2.2.2.1
  have hnamed : read (.tagName ⟨tag.closing, [u], []⟩) (rest ++
      (tag.attributes.flatMap (fun a => 32 :: a.1 ++ 61 :: 34 :: a.2 ++ [34]) ++ 62 :: s)) =
        (read .data s).map (Markup.tag tag) := by
    rw [read_tagName hplain.2, read_attributes (.inl rfl) h.names (by simpa using h.distinct) h.values]
    simp [← hname]
  unfold Tag.write
  cases hclosing : tag.closing with
  | false =>
    have hstep : step .tagOpen u = some (.inl (.tagName ⟨false, [u], []⟩)) := by
      simp [step, hslash, hletter, hlower]
    rw [hclosing] at hnamed
    rw [hname, ← hnamed, ← read_step hstep]
    simp [read]
  | true =>
    have hopen : step .tagOpen 47 = some (.inl .endTagOpen) := rfl
    have hstep : step .endTagOpen u = some (.inl (.tagName ⟨true, [u], []⟩)) := by
      simp [step, hletter, hlower]
    rw [hclosing] at hnamed
    rw [hname, ← hnamed, ← read_step hstep, ← read_step hopen]
    simp [read]

/-- Tags and texts are read as they were written. -/
theorem read_write {items : List (Tag × List Unit16)} (h : ∀ item ∈ items, item.1.Plain ∧ 60 ∉ item.2) :
    read .data (write items) = some ([], items) := by
  induction items with
  | nil => rfl
  | cons item rest ih =>
    obtain ⟨⟨htag, htext⟩, hrest⟩ := List.forall_mem_cons.mp h
    rw [write, List.flatMap_cons, List.append_assoc, read_tag htag, read_text htext]
    have hread := ih hrest
    rw [write] at hread
    rw [hread]
    simp [Markup.text, Markup.tag]

end Read

end Html
