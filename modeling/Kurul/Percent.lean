import Kurul.Utf16

/-!
# Kurul.Percent

Percent encoding: a text in UTF-8, where some characters stand for themselves and every octet of the
others is a `%` and two hexadecimal digits.

* `decode_encode`      — the text is read back.
* `mem_encode`         — what is written is ASCII.
* `conforming_encode`  — whether it has percent-encoded octets and allowed characters only is a matter of
  the characters that stand for themselves.
-/

namespace Percent

def percent : Fin 65536 := 37

/-- In upper case. -/
def hexDigit (n : Nat) : Fin 65536 :=
  if n < 10 then Fin.ofNat 65536 (48 + n) else Fin.ofNat 65536 (55 + n)

def hexValue (u : Fin 65536) : Option Nat :=
  if 48 ≤ u.val ∧ u.val ≤ 57 then some (u.val - 48)
  else if 65 ≤ u.val ∧ u.val ≤ 70 then some (u.val - 55)
  else if 97 ≤ u.val ∧ u.val ≤ 102 then some (u.val - 87)
  else none

def encodeByte (b : UInt8) : List (Fin 65536) :=
  [percent, hexDigit (b.toNat / 16), hexDigit (b.toNat % 16)]

def encode (keep : Char → Bool) (cs : List Char) : List (Fin 65536) :=
  cs.flatMap fun c => if keep c then Utf16.units c else (String.utf8EncodeChar c).flatMap encodeByte

/-- The octets a text stands for. -/
def octets : List (Fin 65536) → Option (List UInt8)
  | [] => some []
  | u :: s =>
    if u = percent then
      match s with
      | a :: b :: s => match hexValue a, hexValue b with
        | some x, some y => (octets s).map (UInt8.ofNat (16 * x + y) :: ·)
        | _, _ => none
      | _ => none
    else if u.val < 128 then (octets s).map (UInt8.ofNat u.val :: ·)
    else none

def decode (s : List (Fin 65536)) : Option (List Char) :=
  (octets s).bind fun bytes => bytes.toByteArray.utf8Decode?.map Array.toList

/-- There are percent-encoded octets and allowed units only. -/
def conforming (allowed : Fin 65536 → Bool) : List (Fin 65536) → Bool
  | [] => true
  | u :: s =>
    if u = percent then
      match s with
      | a :: b :: s => (hexValue a).isSome && (hexValue b).isSome && conforming allowed s
      | _ => false
    else allowed u && conforming allowed s

/-- Characters that may stand for themselves. -/
def Plain (keep : Char → Bool) : Prop := ∀ c, keep c = true → c.toNat < 128 ∧ c.toNat ≠ 37

section Bytes

variable {u : Fin 65536} {s : List (Fin 65536)} {allowed : Fin 65536 → Bool}

theorem hexDigit_val {n : Nat} (h : n < 16) :
    (hexDigit n).val = if n < 10 then 48 + n else 55 + n := by
  unfold hexDigit
  split
  · exact Nat.mod_eq_of_lt (by omega)
  · exact Nat.mod_eq_of_lt (by omega)

theorem hexValue_hexDigit {n : Nat} (h : n < 16) : hexValue (hexDigit n) = some n := by
  have hval := hexDigit_val h
  unfold hexValue
  by_cases hten : n < 10
  · rw [if_pos hten] at hval
    rw [if_pos (by omega), hval]
    simp
  · rw [if_neg hten] at hval
    rw [if_neg (by omega), if_pos (by omega), hval]
    simp

theorem octets_byte (b : UInt8) (s : List (Fin 65536)) :
    octets (encodeByte b ++ s) = (octets s).map (b :: ·) := by
  have hb : b.toNat < 256 := b.toNat_lt
  have hhi : hexValue (hexDigit (b.toNat / 16)) = some (b.toNat / 16) := hexValue_hexDigit (by omega)
  have hlo : hexValue (hexDigit (b.toNat % 16)) = some (b.toNat % 16) := hexValue_hexDigit (by omega)
  have hsum : 16 * (b.toNat / 16) + b.toNat % 16 = b.toNat := Nat.div_add_mod _ _
  simp only [encodeByte, List.cons_append, List.nil_append]
  rw [octets, if_pos rfl]
  simp only [hhi, hlo, hsum, UInt8.ofNat_toNat]

theorem octets_bytes (bs : List UInt8) (s : List (Fin 65536)) :
    octets (bs.flatMap encodeByte ++ s) = (octets s).map (bs ++ ·) := by
  induction bs with
  | nil => simp
  | cons b bs ih =>
    rw [List.flatMap_cons, List.append_assoc, octets_byte, ih, Option.map_map]
    rfl

theorem octets_plain (hne : u ≠ percent) (h : u.val < 128) (s : List (Fin 65536)) :
    octets (u :: s) = (octets s).map (UInt8.ofNat u.val :: ·) := by
  match s with
  | [] => simp [octets, hne, h]
  | [v] =>
    rw [octets, if_neg hne, if_pos h]
    exact nofun
  | v :: w :: s => rw [octets, if_neg hne, if_pos h]

theorem conforming_bytes (bs : List UInt8) (s : List (Fin 65536)) :
    conforming allowed (bs.flatMap encodeByte ++ s) = conforming allowed s := by
  induction bs with
  | nil => rfl
  | cons b bs ih =>
    have hb : b.toNat < 256 := b.toNat_lt
    have hhi : hexValue (hexDigit (b.toNat / 16)) = some (b.toNat / 16) := hexValue_hexDigit (by omega)
    have hlo : hexValue (hexDigit (b.toNat % 16)) = some (b.toNat % 16) := hexValue_hexDigit (by omega)
    rw [List.flatMap_cons, List.append_assoc]
    simp only [encodeByte, List.cons_append, List.nil_append]
    rw [conforming, if_pos rfl]
    simp only [hhi, hlo, Option.isSome_some, Bool.true_and]
    exact ih

theorem conforming_plain (hne : u ≠ percent) (s : List (Fin 65536)) :
    conforming allowed (u :: s) = (allowed u && conforming allowed s) := by
  match s with
  | [] => simp [conforming, hne]
  | [v] =>
    rw [conforming, if_neg hne]
    exact nofun
  | v :: w :: s => rw [conforming, if_neg hne]

end Bytes

section Texts

variable {keep : Char → Bool} {c : Char} {u : Fin 65536}

/-- An ASCII character is one unit and one octet. -/
theorem units_plain (h : c.toNat < 128) : Utf16.units c = [Fin.ofNat 65536 c.toNat] :=
  if_pos (by omega)

theorem val_plain (h : c.toNat < 128) : (Fin.ofNat 65536 c.toNat).val = c.toNat :=
  Nat.mod_eq_of_lt (by omega)

theorem utf8_plain (h : c.toNat < 128) : String.utf8EncodeChar c = [UInt8.ofNat c.toNat] := by
  have hle : c.toNat ≤ 127 := Nat.le_of_lt_succ h
  simp [String.utf8EncodeChar, hle]

theorem ne_percent (h : c.toNat < 128) (hne : c.toNat ≠ 37) : Fin.ofNat 65536 c.toNat ≠ percent := by
  intro heq
  have hval := congrArg Fin.val heq
  rw [val_plain h] at hval
  exact hne hval

/-- The octets written are the text in UTF-8. -/
theorem octets_encode (hkeep : Plain keep) (cs : List Char) :
    octets (encode keep cs) = some (cs.flatMap String.utf8EncodeChar) := by
  induction cs with
  | nil => rfl
  | cons c cs ih =>
    rw [encode, List.flatMap_cons, List.flatMap_cons]
    by_cases hc : keep c = true
    · obtain ⟨hlt, hne⟩ := hkeep c hc
      rw [if_pos hc, units_plain hlt, List.singleton_append,
        octets_plain (ne_percent hlt hne) (by rw [val_plain hlt]; exact hlt)]
      unfold encode at ih
      rw [ih, val_plain hlt, utf8_plain hlt]
      rfl
    · rw [if_neg hc, octets_bytes]
      unfold encode at ih
      rw [ih]
      rfl

/-- What is written is read back. -/
theorem decode_encode (hkeep : Plain keep) (cs : List Char) : decode (encode keep cs) = some cs := by
  rw [decode, octets_encode hkeep]
  have hutf8 : (cs.flatMap String.utf8EncodeChar).toByteArray = cs.utf8Encode := rfl
  rw [Option.bind_some, hutf8, List.utf8Decode?_utf8Encode]
  rfl

theorem mem_encode {cs : List Char} (h : u ∈ encode keep cs) :
    (∃ c, keep c = true ∧ u ∈ Utf16.units c) ∨ u = percent ∨ ∃ n < 16, u = hexDigit n := by
  obtain ⟨c, _, hu⟩ := List.mem_flatMap.mp h
  by_cases hc : keep c = true
  · rw [if_pos hc] at hu
    exact .inl ⟨c, hc, hu⟩
  · rw [if_neg hc] at hu
    obtain ⟨b, _, hb⟩ := List.mem_flatMap.mp hu
    have hlt : b.toNat < 256 := b.toNat_lt
    simp only [encodeByte, List.mem_cons, List.not_mem_nil, or_false] at hb
    rcases hb with rfl | rfl | rfl
    · exact .inr (.inl rfl)
    · exact .inr (.inr ⟨_, by omega, rfl⟩)
    · exact .inr (.inr ⟨_, by omega, rfl⟩)

/-- What stands for itself has to be allowed, no more. -/
theorem conforming_encode (hkeep : Plain keep) (allowed : Fin 65536 → Bool) (cs : List Char) :
    conforming allowed (encode keep cs) = true ↔
      ∀ c ∈ cs, keep c = true → allowed (Fin.ofNat 65536 c.toNat) = true := by
  induction cs with
  | nil => simp [encode, conforming]
  | cons c cs ih =>
    rw [encode, List.flatMap_cons, List.forall_mem_cons, ← ih]
    by_cases hc : keep c = true
    · obtain ⟨hlt, hne⟩ := hkeep c hc
      rw [if_pos hc, units_plain hlt, List.singleton_append, conforming_plain (ne_percent hlt hne)]
      simp [hc, encode]
    · rw [if_neg hc, conforming_bytes]
      simp [hc, encode]

end Texts

end Percent
