import Mathlib.Data.List.TakeWhile
import Mathlib.Order.Fin.Basic
import Kurul.Numerals

/-!
# Kurul.Utf16

Texts as sequences of 16-bit units. A character from U+10000 on is a pair of surrogates; a surrogate
outside such a pair stands for nothing.

* `decode_encode`, `encode_of_decode` — the characters of a well-formed sequence and its units.
* `WellFormed.cut`    — a sequence cut anywhere but inside a pair.
* `WellFormed.take_iff` — how many units can be taken from one.
* `WellFormed.filter`, `WellFormed.dropWhile` — units that are no surrogates can be left out.
* `toWellFormed_append`, `replaces_toWellFormed` — what replacing stray surrogates leaves as it is.
-/

namespace Utf16

def isHigh (u : Fin 65536) : Bool := 0xd800 ≤ u.val && u.val ≤ 0xdbff

def isLow (u : Fin 65536) : Bool := 0xdc00 ≤ u.val && u.val ≤ 0xdfff

/-- The character of a pair. -/
def pair (hi lo : Fin 65536) : Char :=
  Char.ofNat (0x10000 + (hi.val - 0xd800) * 0x400 + (lo.val - 0xdc00))

def units (c : Char) : List (Fin 65536) :=
  if c.toNat < 0x10000 then [Fin.ofNat 65536 c.toNat] else
    [Fin.ofNat 65536 (0xd800 + (c.toNat - 0x10000) / 0x400),
      Fin.ofNat 65536 (0xdc00 + (c.toNat - 0x10000) % 0x400)]

def encode (cs : List Char) : List (Fin 65536) := cs.flatMap units

def decode : List (Fin 65536) → Option (List Char)
  | [] => some []
  | u :: s =>
    if isHigh u then
      match s with
      | lo :: s => if isLow lo then (decode s).map (pair u lo :: ·) else none
      | [] => none
    else if isLow u then none
    else (decode s).map (Char.ofNat u.val :: ·)

/-- Every surrogate is in a pair. -/
inductive WellFormed : List (Fin 65536) → Prop
  | nil : WellFormed []
  | unit {u : Fin 65536} {s : List (Fin 65536)} (high : isHigh u = false) (low : isLow u = false) :
      WellFormed s → WellFormed (u :: s)
  | pair {hi lo : Fin 65536} {s : List (Fin 65536)} (high : isHigh hi = true) (low : isLow lo = true) :
      WellFormed s → WellFormed (hi :: lo :: s)

/-! ## Characters -/

section Chars

variable {u hi lo : Fin 65536} {s t : List (Fin 65536)} {c : Char} {cs : List Char}

theorem isHigh_iff : isHigh u = true ↔ 0xd800 ≤ u.val ∧ u.val ≤ 0xdbff := by
  simp [isHigh]

theorem isLow_iff : isLow u = true ↔ 0xdc00 ≤ u.val ∧ u.val ≤ 0xdfff := by
  simp [isLow]

theorem isHigh_eq_false_iff : isHigh u = false ↔ u.val < 0xd800 ∨ 0xdbff < u.val := by
  rw [← Bool.not_eq_true, isHigh_iff]
  omega

theorem isLow_eq_false_iff : isLow u = false ↔ u.val < 0xdc00 ∨ 0xdfff < u.val := by
  rw [← Bool.not_eq_true, isLow_iff]
  omega

theorem toNat_ofNat {n : Nat} (h : n.isValidChar) : (Char.ofNat n).toNat = n := by
  rw [Char.ofNat, dif_pos h]
  rfl

theorem toNat_valid (c : Char) : c.toNat < 0xd800 ∨ (0xdfff < c.toNat ∧ c.toNat < 0x110000) := c.valid

/-- A unit that is no surrogate is a character. -/
theorem units_ofNat (high : isHigh u = false) (low : isLow u = false) :
    units (Char.ofNat u.val) = [u] := by
  rw [isHigh_eq_false_iff] at high
  rw [isLow_eq_false_iff] at low
  have hlt := u.isLt
  have hvalid : u.val.isValidChar := by
    unfold Nat.isValidChar
    omega
  rw [units, toNat_ofNat hvalid, if_pos hlt]
  simp

theorem units_pair (high : isHigh hi = true) (low : isLow lo = true) : units (pair hi lo) = [hi, lo] := by
  rw [isHigh_iff] at high
  rw [isLow_iff] at low
  have hvalid : (0x10000 + (hi.val - 0xd800) * 0x400 + (lo.val - 0xdc00)).isValidChar := by
    unfold Nat.isValidChar
    omega
  rw [units, pair, toNat_ofNat hvalid, if_neg (by omega)]
  have hdiv : 0xd800 + (0x10000 + (hi.val - 0xd800) * 0x400 + (lo.val - 0xdc00) - 0x10000) / 0x400 =
      hi.val := by omega
  have hmod : 0xdc00 + (0x10000 + (hi.val - 0xd800) * 0x400 + (lo.val - 0xdc00) - 0x10000) % 0x400 =
      lo.val := by omega
  rw [hdiv, hmod]
  simp

/-- A character is one unit that is no surrogate, or a pair. -/
theorem units_cases (c : Char) :
    (∃ u, units c = [u] ∧ isHigh u = false ∧ isLow u = false ∧ Char.ofNat u.val = c) ∨
    (∃ hi lo, units c = [hi, lo] ∧ isHigh hi = true ∧ isLow lo = true ∧ pair hi lo = c) := by
  have hvalid := toNat_valid c
  unfold units
  split
  · rename_i hlt
    have hval : (Fin.ofNat 65536 c.toNat).val = c.toNat := Nat.mod_eq_of_lt hlt
    refine .inl ⟨_, rfl, ?_, ?_, ?_⟩
    · rw [isHigh_eq_false_iff, hval]
      omega
    · rw [isLow_eq_false_iff, hval]
      omega
    · rw [hval, Char.ofNat_toNat]
  · rename_i hge
    have hhi : (Fin.ofNat 65536 (0xd800 + (c.toNat - 0x10000) / 0x400)).val =
        0xd800 + (c.toNat - 0x10000) / 0x400 := Nat.mod_eq_of_lt (by omega)
    have hlo : (Fin.ofNat 65536 (0xdc00 + (c.toNat - 0x10000) % 0x400)).val =
        0xdc00 + (c.toNat - 0x10000) % 0x400 := Nat.mod_eq_of_lt (by omega)
    refine .inr ⟨_, _, rfl, ?_, ?_, ?_⟩
    · rw [isHigh_iff, hhi]
      omega
    · rw [isLow_iff, hlo]
      omega
    · have hsum : 0x10000 + (0xd800 + (c.toNat - 0x10000) / 0x400 - 0xd800) * 0x400 +
          (0xdc00 + (c.toNat - 0x10000) % 0x400 - 0xdc00) = c.toNat := by omega
      rw [pair, hhi, hlo, hsum, Char.ofNat_toNat]

@[simp] theorem encode_nil : encode [] = [] := rfl

theorem encode_cons (c : Char) (cs : List Char) : encode (c :: cs) = units c ++ encode cs := rfl

theorem decode_unit (high : isHigh u = false) (low : isLow u = false) (s : List (Fin 65536)) :
    decode (u :: s) = (decode s).map (Char.ofNat u.val :: ·) := by
  cases s with
  | nil => simp [decode, high, low]
  | cons v s =>
    rw [decode]
    simp [high, low]

theorem decode_pair (high : isHigh hi = true) (low : isLow lo = true) (s : List (Fin 65536)) :
    decode (hi :: lo :: s) = (decode s).map (pair hi lo :: ·) := by
  rw [decode, if_pos high]
  exact if_pos low

theorem decode_units (c : Char) (s : List (Fin 65536)) :
    decode (units c ++ s) = (decode s).map (c :: ·) := by
  rcases units_cases c with ⟨u, hu, high, low, hc⟩ | ⟨hi, lo, hu, high, low, hc⟩
  · rw [hu, List.singleton_append, decode_unit high low, hc]
  · rw [hu, List.cons_append, List.singleton_append, decode_pair high low, hc]

@[simp] theorem decode_encode (cs : List Char) : decode (encode cs) = some cs := by
  induction cs with
  | nil => rfl
  | cons c cs ih => rw [encode_cons, decode_units, ih, Option.map_some]

theorem encode_injective : Function.Injective encode := by
  intro cs ds h
  have hdecode := congrArg decode h
  rw [decode_encode, decode_encode] at hdecode
  exact Option.some.inj hdecode

/-- What can be read is well-formed, and is what is written of it. -/
theorem encode_of_decode (h : decode s = some cs) : WellFormed s ∧ encode cs = s := by
  fun_induction decode s generalizing cs with
  | case1 =>
    cases h
    exact ⟨.nil, rfl⟩
  | case2 u high lo s low ih =>
    obtain ⟨ds, hds, rfl⟩ := Option.map_eq_some_iff.mp h
    obtain ⟨hs, henc⟩ := ih hds
    exact ⟨.pair high low hs, by rw [encode_cons, units_pair high low, henc]; rfl⟩
  | case3 => cases h
  | case4 => cases h
  | case5 => cases h
  | case6 u s high low ih =>
    obtain ⟨ds, hds, rfl⟩ := Option.map_eq_some_iff.mp h
    obtain ⟨hs, henc⟩ := ih hds
    rw [Bool.not_eq_true] at high low
    exact ⟨.unit high low hs, by rw [encode_cons, units_ofNat high low, henc]; rfl⟩

/-- A well-formed sequence is what is written of some characters. -/
theorem WellFormed.exists_encode (h : WellFormed s) : ∃ cs, encode cs = s ∧ decode s = some cs := by
  induction h with
  | nil => exact ⟨[], rfl, rfl⟩
  | unit high low _ ih =>
    obtain ⟨cs, henc, hdec⟩ := ih
    exact ⟨_ :: cs, by rw [encode_cons, units_ofNat high low, henc]; rfl,
      by rw [decode_unit high low, hdec]; rfl⟩
  | pair high low _ ih =>
    obtain ⟨cs, henc, hdec⟩ := ih
    exact ⟨_ :: cs, by rw [encode_cons, units_pair high low, henc]; rfl,
      by rw [decode_pair high low, hdec]; rfl⟩

theorem decode_eq_none_iff : decode s = none ↔ ¬ WellFormed s := by
  constructor
  · intro h hs
    obtain ⟨cs, _, hdec⟩ := hs.exists_encode
    rw [h] at hdec
    cases hdec
  · intro h
    cases hdec : decode s with
    | none => rfl
    | some cs => exact absurd (encode_of_decode hdec).1 h

theorem wellFormed_encode (cs : List Char) : WellFormed (encode cs) :=
  (encode_of_decode (decode_encode cs)).1

end Chars

/-! ## Parts of a sequence -/

section Parts

variable {s t : List (Fin 65536)} {p : Fin 65536 → Bool}

theorem WellFormed.append (hs : WellFormed s) (ht : WellFormed t) : WellFormed (s ++ t) := by
  induction hs with
  | nil => exact ht
  | unit high low _ ih => exact .unit high low ih
  | pair high low _ ih => exact .pair high low ih

/-- No surrogates at all. -/
theorem wellFormed_of_forall (h : ∀ u ∈ s, isHigh u = false ∧ isLow u = false) : WellFormed s := by
  induction s with
  | nil => exact .nil
  | cons u s ih =>
    obtain ⟨⟨high, low⟩, hrest⟩ := List.forall_mem_cons.mp h
    exact .unit high low (ih hrest)

theorem wellFormed_intercalate {sep : Fin 65536} (high : isHigh sep = false) (low : isLow sep = false)
    {l : List (List (Fin 65536))} (h : ∀ s ∈ l, WellFormed s) : WellFormed ([sep].intercalate l) := by
  induction l with
  | nil => exact .nil
  | cons s rest ih =>
    obtain ⟨hs, hrest⟩ := List.forall_mem_cons.mp h
    cases rest with
    | nil => simpa using hs
    | cons s' rest =>
      rw [List.intercalate_cons_cons, List.append_assoc]
      exact hs.append (.unit high low (ih hrest))

/-- Cut anywhere but inside a pair, both parts are well-formed. -/
theorem WellFormed.cut (h : WellFormed (s ++ t))
    (hcut : ∀ hi lo, s.getLast? = some hi → t.head? = some lo → ¬ (isHigh hi = true ∧ isLow lo = true)) :
    WellFormed s ∧ WellFormed t := by
  generalize hst : s ++ t = st at h
  induction h generalizing s with
  | nil =>
    obtain ⟨rfl, rfl⟩ := List.append_eq_nil_iff.mp hst
    exact ⟨.nil, .nil⟩
  | @unit u rest high low hrest ih =>
    cases s with
    | nil =>
      obtain rfl : t = u :: rest := hst
      exact ⟨.nil, .unit high low hrest⟩
    | cons v s =>
      obtain ⟨rfl, htail⟩ := List.cons.inj hst
      have hlater := ih (s := s) (fun hi lo hhi => hcut hi lo (by
        rw [List.getLast?_cons, hhi]
        rfl)) htail
      exact ⟨.unit high low hlater.1, hlater.2⟩
  | @pair hi lo rest high low hrest ih =>
    match s with
    | [] =>
      obtain rfl : t = hi :: lo :: rest := hst
      exact ⟨.nil, .pair high low hrest⟩
    | [v] =>
      obtain ⟨rfl, rfl⟩ := List.cons.inj hst
      exact absurd ⟨high, low⟩ (hcut v lo rfl rfl)
    | v :: w :: s =>
      obtain ⟨rfl, hmore⟩ := List.cons.inj hst
      obtain ⟨rfl, htail⟩ : w = lo ∧ s ++ t = rest := List.cons.inj hmore
      have hlater := ih (s := s) (fun hi lo hhi => hcut hi lo (by
        rw [List.getLast?_cons_cons, List.getLast?_cons, hhi]
        rfl)) htail
      exact ⟨.pair high low hlater.1, hlater.2⟩

/-- Cut inside a pair, neither is. -/
theorem WellFormed.not_of_high (h : WellFormed s) {hi : Fin 65536} (hlast : s.getLast? = some hi) :
    isHigh hi = false := by
  induction h with
  | nil => cases hlast
  | @unit u rest high low _ ih =>
    cases rest with
    | nil =>
      cases hlast
      exact high
    | cons v rest => exact ih (by rwa [List.getLast?_cons_cons] at hlast)
  | @pair hi' lo rest high low _ ih =>
    cases rest with
    | nil =>
      obtain rfl : lo = hi := by simpa using hlast
      rw [isLow_iff] at low
      rw [isHigh_eq_false_iff]
      omega
    | cons v rest => exact ih (by rwa [List.getLast?_cons_cons, List.getLast?_cons_cons] at hlast)

/-- The first units are well-formed unless the last of them is the first of a pair. -/
theorem WellFormed.take_iff (h : WellFormed s) (n : Nat) :
    WellFormed (s.take (n + 1)) ↔ ∀ u, s[n]? = some u → isHigh u = false := by
  have hlast : ∀ u, s[n]? = some u → (s.take (n + 1)).getLast? = some u := by
    intro u hu
    obtain ⟨hlt, hget⟩ := List.getElem?_eq_some_iff.mp hu
    rw [List.take_add_one, hu, Option.toList_some, List.getLast?_concat]
  constructor
  · intro htake u hu
    exact htake.not_of_high (hlast u hu)
  · intro hnot
    have hwhole : WellFormed (s.take (n + 1) ++ s.drop (n + 1)) := by rwa [List.take_append_drop]
    refine (hwhole.cut fun hi lo hhi hlo hpair => ?_).1
    have hlong : n < s.length := by
      by_contra hshort
      rw [List.drop_of_length_le (by omega)] at hlo
      cases hlo
    have hget := hlast s[n] (List.getElem?_eq_getElem hlong)
    rw [hhi] at hget
    have hhigh := hnot s[n] (List.getElem?_eq_getElem hlong)
    rw [← Option.some.inj hget, hpair.1] at hhigh
    cases hhigh

/-- Leading units that are no surrogates can be left out. -/
theorem WellFormed.dropWhile (h : WellFormed s) (hp : ∀ u, p u = true → isHigh u = false) :
    WellFormed (s.dropWhile p) := by
  rw [← List.takeWhile_append_dropWhile (p := p) (l := s)] at h
  refine (h.cut fun hi lo hhi _ hpair => ?_).2
  have hspace := List.mem_takeWhile_imp (List.mem_of_getLast? hhi)
  rw [hp hi hspace] at hpair
  cases hpair.1

/-- A sequence in front of the last units that `p` holds of, and these. -/
theorem split_last (p : Fin 65536 → Bool) (s : List (Fin 65536)) :
    (s.reverse.dropWhile p).reverse ++ (s.reverse.takeWhile p).reverse = s := by
  rw [← List.reverse_append, List.takeWhile_append_dropWhile, List.reverse_reverse]

/-- So can trailing ones. -/
theorem WellFormed.dropLastWhile (h : WellFormed s) (hp : ∀ u, p u = true → isLow u = false) :
    WellFormed (s.reverse.dropWhile p).reverse := by
  rw [← split_last p s] at h
  refine (h.cut fun hi lo _ hlo hpair => ?_).1
  have hmem := List.mem_reverse.mp (List.mem_of_head? hlo)
  rw [hp lo (List.mem_takeWhile_imp hmem)] at hpair
  cases hpair.2

/-- What follows the last unit of a kind that no surrogate is of. -/
theorem WellFormed.takeLastWhile (h : WellFormed s) (hp : ∀ u, p u = false → isHigh u = false) :
    WellFormed (s.reverse.takeWhile p).reverse := by
  rw [← split_last p s] at h
  refine (h.cut fun hi lo hhi _ hpair => ?_).2
  rw [List.getLast?_reverse] at hhi
  have hnot := List.head?_dropWhile_not p s.reverse
  rw [hhi] at hnot
  rw [hp hi hnot] at hpair
  cases hpair.1

/-- Units that are no surrogates can be left out. -/
theorem WellFormed.filter (h : WellFormed s)
    (hp : ∀ u, isHigh u = true ∨ isLow u = true → p u = true) : WellFormed (s.filter p) := by
  induction h with
  | nil => exact .nil
  | @unit u s high low _ ih =>
    by_cases hu : p u = true
    · rw [List.filter_cons_of_pos hu]
      exact .unit high low ih
    · rw [List.filter_cons_of_neg hu]
      exact ih
  | @pair hi lo s high low _ ih =>
    rw [List.filter_cons_of_pos (hp hi (.inl high)), List.filter_cons_of_pos (hp lo (.inr low))]
    exact .pair high low ih

end Parts

/-! ## Replacing stray surrogates -/

section Replacement

variable {u v : Fin 65536} {s t : List (Fin 65536)}

def replacement : Fin 65536 := 0xfffd

/-- A unit that is in no pair. -/
def single (u : Fin 65536) : Fin 65536 := if isHigh u || isLow u then replacement else u

/-- Every surrogate that is in no pair is replaced. -/
def toWellFormed : List (Fin 65536) → List (Fin 65536)
  | [] => []
  | [u] => [single u]
  | u :: v :: s =>
    if isHigh u && isLow v then u :: v :: toWellFormed s else single u :: toWellFormed (v :: s)

theorem toWellFormed_single (h : ∀ v ∈ s.head?, ¬ (isHigh u = true ∧ isLow v = true)) :
    toWellFormed (u :: s) = single u :: toWellFormed s := by
  cases s with
  | nil => rfl
  | cons v s =>
    have hnot := h v rfl
    rw [toWellFormed, if_neg (by simpa using hnot)]

theorem single_unit (high : isHigh u = false) (low : isLow u = false) : single u = u := by
  simp [single, high, low]

theorem toWellFormed_unit (high : isHigh u = false) (low : isLow u = false) (s : List (Fin 65536)) :
    toWellFormed (u :: s) = u :: toWellFormed s := by
  rw [toWellFormed_single (by simp [high]), single_unit high low]

theorem toWellFormed_pair (high : isHigh u = true) (low : isLow v = true) (s : List (Fin 65536)) :
    toWellFormed (u :: v :: s) = u :: v :: toWellFormed s := by
  simp [toWellFormed, high, low]

theorem single_cases (u : Fin 65536) :
    (isHigh u = false ∧ isLow u = false ∧ single u = u) ∨
      ((isHigh u = true ∨ isLow u = true) ∧ single u = replacement) := by
  cases hh : isHigh u <;> cases hl : isLow u <;> simp [single, hh, hl]

/-- A sequence is empty, or starts with a pair or with a unit that is in none. -/
theorem units_induction {P : List (Fin 65536) → Prop} (nil : P [])
    (unpaired : ∀ u s, (∀ v ∈ s.head?, ¬ (isHigh u = true ∧ isLow v = true)) → P s → P (u :: s))
    (pair : ∀ u v s, isHigh u = true → isLow v = true → P s → P (u :: v :: s))
    (s : List (Fin 65536)) : P s := by
  fun_induction toWellFormed s with
  | case1 => exact nil
  | case2 u => exact unpaired u [] nofun nil
  | case3 u v s h ih =>
    rw [Bool.and_eq_true] at h
    exact pair u v s h.1 h.2 ih
  | case4 u v s h ih =>
    refine unpaired u (v :: s) ?_ ih
    rintro w ⟨⟩
    simpa using h

theorem wellFormed_toWellFormed (s : List (Fin 65536)) : WellFormed (toWellFormed s) := by
  induction s using units_induction with
  | nil => exact .nil
  | unpaired u s h ih =>
    rw [toWellFormed_single h]
    rcases single_cases u with ⟨high, low, heq⟩ | ⟨_, heq⟩
    · rw [heq]
      exact .unit high low ih
    · rw [heq]
      exact .unit rfl rfl ih
  | pair u v s high low ih =>
    rw [toWellFormed_pair high low]
    exact .pair high low ih

theorem WellFormed.toWellFormed_eq (h : WellFormed s) : toWellFormed s = s := by
  induction h with
  | nil => rfl
  | unit high low _ ih => rw [toWellFormed_unit high low, ih]
  | pair high low _ ih => rw [toWellFormed_pair high low, ih]

/-- A unit that is no surrogate parts a sequence. -/
theorem toWellFormed_append (high : isHigh u = false) (low : isLow u = false) (s t : List (Fin 65536)) :
    toWellFormed (s ++ u :: t) = toWellFormed s ++ u :: toWellFormed t := by
  induction s using units_induction with
  | nil => exact toWellFormed_unit high low t
  | unpaired v s h ih =>
    have hnot : ∀ w ∈ (s ++ u :: t).head?, ¬ (isHigh v = true ∧ isLow w = true) := by
      cases s with
      | nil =>
        rintro w ⟨⟩
        simp [low]
      | cons w s => exact h
    rw [List.cons_append, toWellFormed_single hnot, toWellFormed_single h, ih]
    rfl
  | pair v w s h hl ih =>
    rw [List.cons_append, List.cons_append, toWellFormed_pair h hl, toWellFormed_pair h hl, ih]
    rfl

/-- A unit stays, or is a surrogate that is replaced. -/
def Replaces (u v : Fin 65536) : Prop := v = u ∨ (isHigh u = true ∨ isLow u = true) ∧ v = replacement

theorem replaces_toWellFormed (s : List (Fin 65536)) : List.Forall₂ Replaces s (toWellFormed s) := by
  induction s using units_induction with
  | nil => exact .nil
  | unpaired u s h ih =>
    rw [toWellFormed_single h]
    rcases single_cases u with ⟨_, _, heq⟩ | ⟨hsurrogate, heq⟩
    · exact .cons (.inl heq) ih
    · exact .cons (.inr ⟨hsurrogate, heq⟩) ih
  | pair u v s high low ih =>
    rw [toWellFormed_pair high low]
    exact .cons (.inl rfl) (.cons (.inl rfl) ih)

theorem mem_toWellFormed (h : u ∈ toWellFormed s) : u ∈ s ∨ u = replacement := by
  have hrel := replaces_toWellFormed s
  generalize toWellFormed s = t at h hrel
  induction hrel with
  | nil => cases h
  | cons hfirst _ ih =>
    rcases List.mem_cons.mp h with rfl | h
    · rcases hfirst with rfl | ⟨_, rfl⟩
      · exact .inl List.mem_cons_self
      · exact .inr rfl
    · exact (ih h).imp_left (List.mem_cons_of_mem _)

end Replacement

end Utf16
