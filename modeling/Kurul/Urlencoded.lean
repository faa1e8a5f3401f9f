import Kurul.Scan
import Mathlib.Data.List.TakeWhile

/-!
# Kurul.Urlencoded

Percent encoding of texts over characters, and `application/x-www-form-urlencoded`: lists of names and
values as one text.

* `unescape_escape`  — the octets that were written are read back.
* `decode_encode`    — a name or a value is.
* `parse_serialize`  — the list is.
-/

namespace Urlencoded

/-! ## UTF-8 -/

/-- What is missing of a character: how many octets, the bits so far, and the range of the next octet. -/
structure Pending where
  needed : Nat
  bits : Nat
  lower : Nat
  upper : Nat

def replacementChar : Char := Char.ofNat 0xfffd

/-- An octet that a character may start with. -/
def leading (b : Nat) : List Char × Option Pending :=
  if b ≤ 0x7f then ([Char.ofNat b], none)
  else if 0xc2 ≤ b ∧ b ≤ 0xdf then ([], some ⟨1, b - 0xc0, 0x80, 0xbf⟩)
  else if 0xe0 ≤ b ∧ b ≤ 0xef then
    ([], some ⟨2, b - 0xe0, if b = 0xe0 then 0xa0 else 0x80, if b = 0xed then 0x9f else 0xbf⟩)
  else if 0xf0 ≤ b ∧ b ≤ 0xf4 then
    ([], some ⟨3, b - 0xf0, if b = 0xf0 then 0x90 else 0x80, if b = 0xf4 then 0x8f else 0xbf⟩)
  else ([replacementChar], none)

/-- One octet. One that does not continue a character ends it, and is read again. -/
def octet : Option Pending → Nat → List Char × Option Pending
  | none, b => leading b
  | some p, b =>
    if p.lower ≤ b ∧ b ≤ p.upper then
      let bits := p.bits * 64 + (b - 0x80)
      if p.needed = 1 then ([Char.ofNat bits], none) else ([], some ⟨p.needed - 1, bits, 0x80, 0xbf⟩)
    else ((leading b).1.cons replacementChar, (leading b).2)

/-- Octets read one by one, what makes no character replaced. -/
def decoding : Option Pending → List UInt8 → List Char
  | none, [] => []
  | some _, [] => [replacementChar]
  | p, b :: bytes => (octet p b.toNat).1 ++ decoding (octet p b.toNat).2 bytes

def utf8Decode (bytes : List UInt8) : List Char := decoding none bytes

def utf8Encode (cs : List Char) : List UInt8 := cs.flatMap String.utf8EncodeChar

theorem decoding_cons (p : Option Pending) (b : UInt8) (bytes : List UInt8) :
   decoding p (b :: bytes) = (octet p b.toNat).1 ++ decoding (octet p b.toNat).2 bytes := by
  cases p <;> rfl

theorem toNat_byte {n : Nat} (h : n < 256) : (UInt8.ofNat n).toNat = n := by
  simp [UInt8.toNat_ofNat', Nat.mod_eq_of_lt h]

theorem leading_two {b : Nat} (h : 0xc2 ≤ b ∧ b ≤ 0xdf) :
    leading b = ([], some ⟨1, b - 0xc0, 0x80, 0xbf⟩) := by
  rw [leading, if_neg (by omega), if_pos h]

theorem leading_three {b : Nat} (h : 0xe0 ≤ b ∧ b ≤ 0xef) : leading b =
    ([], some ⟨2, b - 0xe0, if b = 0xe0 then 0xa0 else 0x80, if b = 0xed then 0x9f else 0xbf⟩) := by
  rw [leading, if_neg (by omega), if_neg (by omega), if_pos h]

theorem leading_four {b : Nat} (h : 0xf0 ≤ b ∧ b ≤ 0xf4) : leading b =
    ([], some ⟨3, b - 0xf0, if b = 0xf0 then 0x90 else 0x80, if b = 0xf4 then 0x8f else 0xbf⟩) := by
  rw [leading, if_neg (by omega), if_neg (by omega), if_neg (by omega), if_pos h]

theorem octet_more {p : Pending} {b : Nat} (h : p.lower ≤ b ∧ b ≤ p.upper) (hneeded : p.needed ≠ 1) :
    octet (some p) b = ([], some ⟨p.needed - 1, p.bits * 64 + (b - 0x80), 0x80, 0xbf⟩) := by
  simp [octet, h, hneeded]

theorem octet_last {p : Pending} {b : Nat} (h : p.lower ≤ b ∧ b ≤ p.upper) (hneeded : p.needed = 1) :
    octet (some p) b = ([Char.ofNat (p.bits * 64 + (b - 0x80))], none) := by
  simp [octet, h, hneeded]

theorem decoding_char (c : Char) (rest : List UInt8) :
    decoding none (String.utf8EncodeChar c ++ rest) = c :: decoding none rest := by
  have hvalid : c.toNat < 0xd800 ∨ (0xdfff < c.toNat ∧ c.toNat < 0x110000) := c.valid
  have hchar : ∀ n, n = c.toNat → Char.ofNat n = c := by
    rintro n rfl
    exact Char.ofNat_toNat c
  rw [String.utf8EncodeChar]
  generalize hn : c.val.toNat = n at *
  have hval : c.toNat = n := hn
  simp only [hval] at hvalid hchar
  split
  · rename_i h
    have hb : (UInt8.ofNat n).toNat = n := by simp; omega
    simp only [List.cons_append, List.nil_append, decoding_cons]
    simp [octet, leading, hb, h, hchar]
  split
  · have hlead : octet none (n / 64 % 32 + 192) = _ := leading_two (by omega)
    rw [List.cons_append, List.cons_append, List.nil_append, decoding_cons, toNat_byte (by omega), hlead,
      decoding_cons, toNat_byte (by omega), octet_last ⟨by simp, by simp; omega⟩ rfl]
    simp only [List.nil_append, List.singleton_append]
    rw [hchar _ (by omega)]
  split
  · have hlead : octet none (n / 4096 % 16 + 224) = _ := leading_three (by omega)
    rw [List.cons_append, List.cons_append, List.cons_append, List.nil_append, decoding_cons,
      toNat_byte (by omega), hlead, decoding_cons, toNat_byte (by omega),
      octet_more ⟨by dsimp only; split <;> omega, by dsimp only; split <;> omega⟩ (by simp),
      decoding_cons, toNat_byte (by omega), octet_last ⟨by simp, by simp; omega⟩ rfl]
    simp only [List.nil_append, List.singleton_append]
    rw [hchar _ (by omega)]
  · have hlead : octet none (n / 262144 % 8 + 240) = _ := leading_four (by omega)
    rw [List.cons_append, List.cons_append, List.cons_append, List.cons_append, List.nil_append,
      decoding_cons, toNat_byte (by omega), hlead, decoding_cons, toNat_byte (by omega),
      octet_more ⟨by dsimp only; split <;> omega, by dsimp only; split <;> omega⟩ (by simp),
      decoding_cons, toNat_byte (by omega), octet_more ⟨by simp, by simp; omega⟩ (by simp),
      decoding_cons, toNat_byte (by omega), octet_last ⟨by simp, by simp; omega⟩ rfl]
    simp only [List.nil_append, List.singleton_append]
    rw [hchar _ (by omega)]
theorem utf8Decode_utf8Encode (cs : List Char) : utf8Decode (utf8Encode cs) = cs := by
  unfold utf8Decode
  induction cs with
  | nil => rfl
  | cons c cs ih =>
    rw [utf8Encode, List.flatMap_cons, decoding_char]
    exact congrArg (c :: ·) ih

/-! ## Percent encoding -/

/-- In upper case. -/
def hexDigit (n : Nat) : Char := if n < 10 then Char.ofNat (48 + n) else Char.ofNat (55 + n)

def hexValue (c : Char) : Option Nat :=
  if 48 ≤ c.toNat ∧ c.toNat ≤ 57 then some (c.toNat - 48)
  else if 65 ≤ c.toNat ∧ c.toNat ≤ 70 then some (c.toNat - 55)
  else if 97 ≤ c.toNat ∧ c.toNat ≤ 102 then some (c.toNat - 87)
  else none

/-- Octets that may stand for themselves do, the others are escaped. -/
def escape (keep : Nat → Bool) (bytes : List UInt8) : List Char :=
  bytes.flatMap fun b =>
    if keep b.toNat then [Char.ofNat b.toNat]
    else ['%', hexDigit (b.toNat / 16), hexDigit (b.toNat % 16)]

/-- A `%` with two digits behind it. -/
def escapeAt : Scan.Pattern Char UInt8
  | '%' :: a :: b :: _ => (hexValue a).bind fun x => (hexValue b).map fun y => (UInt8.ofNat (16 * x + y), 3)
  | _ => none

/-- What is not escaped stands for its own octets, a `%` alone too. -/
def unescape (cs : List Char) : List UInt8 :=
  (Scan.pieces escapeAt 0 cs).flatMap (Sum.elim String.utf8EncodeChar fun b => [b])

/-- Octets that may stand for themselves: ASCII, but no `%`. -/
def Plain (keep : Nat → Bool) : Prop := ∀ n, keep n = true → n < 128 ∧ n ≠ 37

section Escape

variable {keep : Nat → Bool} {b : UInt8} {bytes : List UInt8} {c : Char} {cs : List Char}

theorem toNat_ofNat {n : Nat} (h : n < 128) : (Char.ofNat n).toNat = n := by
  have hvalid : n.isValidChar := .inl (by omega)
  rw [Char.ofNat, dif_pos hvalid]
  rfl

theorem hexDigit_toNat {n : Nat} (h : n < 16) :
    (hexDigit n).toNat = if n < 10 then 48 + n else 55 + n := by
  unfold hexDigit
  split
  · exact toNat_ofNat (by omega)
  · exact toNat_ofNat (by omega)

theorem hexValue_hexDigit {n : Nat} (h : n < 16) : hexValue (hexDigit n) = some n := by
  have hval := hexDigit_toNat h
  unfold hexValue
  by_cases hten : n < 10
  · rw [if_pos hten] at hval
    rw [if_pos (by omega), hval]
    simp
  · rw [if_neg hten] at hval
    rw [if_neg (by omega), if_pos (by omega), hval]
    simp

theorem escapeAt_proper : escapeAt.Proper := by
  intro s b n h
  unfold escapeAt at h
  split at h
  · obtain ⟨x, _, hx⟩ := Option.bind_eq_some_iff.mp h
    obtain ⟨y, _, hy⟩ := Option.map_eq_some_iff.mp hx
    cases hy
    simp
  · cases h

theorem unescape_escaped (b : UInt8) (cs : List Char) :
    unescape ('%' :: hexDigit (b.toNat / 16) :: hexDigit (b.toNat % 16) :: cs) = b :: unescape cs := by
  have hlt : b.toNat < 256 := b.toNat_lt
  have hsum : 16 * (b.toNat / 16) + b.toNat % 16 = b.toNat := Nat.div_add_mod _ _
  have hat : escapeAt ('%' :: hexDigit (b.toNat / 16) :: hexDigit (b.toNat % 16) :: cs) = some (b, 3) := by
    have hhi : hexValue (hexDigit (b.toNat / 16)) = some (b.toNat / 16) := hexValue_hexDigit (by omega)
    have hlo : hexValue (hexDigit (b.toNat % 16)) = some (b.toNat % 16) := hexValue_hexDigit (by omega)
    simp only [escapeAt, hhi, hlo, Option.bind_some, Option.map_some, hsum, UInt8.ofNat_toNat]
  rw [unescape, Scan.pieces_hit escapeAt_proper hat]
  rfl

theorem unescape_plain (h : c ≠ '%') (cs : List Char) :
    unescape (c :: cs) = String.utf8EncodeChar c ++ unescape cs := by
  have hat : escapeAt (c :: cs) = none := by
    unfold escapeAt
    split
    · rename_i heq
      cases heq
      exact absurd rfl h
    · rfl
  rw [unescape, Scan.pieces_miss hat]
  rfl

/-- What is written is read back, whatever comes behind it. -/
theorem unescape_escape (hkeep : Plain keep) (bytes : List UInt8) (cs : List Char) :
    unescape (escape keep bytes ++ cs) = bytes ++ unescape cs := by
  induction bytes with
  | nil => rfl
  | cons b bytes ih =>
    rw [escape, List.flatMap_cons, List.append_assoc]
    by_cases hb : keep b.toNat = true
    · obtain ⟨hlt, hne⟩ := hkeep b.toNat hb
      have hval := toNat_ofNat hlt
      have hchar : Char.ofNat b.toNat ≠ '%' := fun heq => hne (by
        rw [heq] at hval
        exact hval.symm)
      have hutf8 : String.utf8EncodeChar (Char.ofNat b.toNat) = [b] := by
        have hle : (Char.ofNat b.toNat).val.toNat ≤ 127 := by
          change (Char.ofNat b.toNat).toNat ≤ 127
          omega
        have hsame : (Char.ofNat b.toNat).val.toNat = b.toNat := hval
        rw [String.utf8EncodeChar, if_pos hle, hsame, UInt8.ofNat_toNat]
      rw [if_pos hb, List.singleton_append, unescape_plain hchar, hutf8]
      exact congrArg (b :: ·) ih
    · rw [if_neg hb]
      exact (unescape_escaped b _).trans (congrArg (b :: ·) ih)

/-- What is written is ASCII: characters that stand for themselves, `%` and digits. -/
theorem mem_escape (hkeep : Plain keep) (h : c ∈ escape keep bytes) :
    c.toNat < 128 ∧ (keep c.toNat = true ∨ c = '%' ∨ ∃ n < 16, c = hexDigit n) := by
  obtain ⟨b, _, hc⟩ := List.mem_flatMap.mp h
  have hlt : b.toNat < 256 := b.toNat_lt
  split at hc
  · rename_i hb
    obtain rfl := List.mem_singleton.mp hc
    have hval := toNat_ofNat (hkeep _ hb).1
    rw [hval]
    exact ⟨(hkeep _ hb).1, .inl hb⟩
  · have hdigit : ∀ n < 16, (hexDigit n).toNat < 128 := by
      intro n hn
      rw [hexDigit_toNat hn]
      split <;> omega
    simp only [List.mem_cons, List.not_mem_nil, or_false] at hc
    rcases hc with rfl | rfl | rfl
    · exact ⟨by decide, .inr (.inl rfl)⟩
    · exact ⟨hdigit _ (by omega), .inr (.inr ⟨_, by omega, rfl⟩)⟩
    · exact ⟨hdigit _ (by omega), .inr (.inr ⟨_, by omega, rfl⟩)⟩

end Escape

/-! ## Lists of names and values -/

/-- Letters, digits, and `*`, `-`, `.`, `_`; and the space, which is written as `+`. -/
def keepForm (n : Nat) : Bool :=
  (48 ≤ n && n ≤ 57) || (65 ≤ n && n ≤ 90) || (97 ≤ n && n ≤ 122) || n == 42 || n == 45 || n == 46 ||
    n == 95 || n == 32

def encode (cs : List Char) : List Char :=
  (escape keepForm (utf8Encode cs)).map fun c => if c = ' ' then '+' else c

def decode (cs : List Char) : List Char :=
  utf8Decode (unescape (cs.map fun c => if c = '+' then ' ' else c))

def serialize (entries : List (List Char × List Char)) : List Char :=
  ['&'].intercalate (entries.map fun e => encode e.1 ++ '=' :: encode e.2)

/-- What is behind the first `=` is the value; empty parts are no entries. -/
def parse (cs : List Char) : List (List Char × List Char) :=
  ((cs.splitOn '&').filter fun part => !part.isEmpty).map fun part =>
    (decode (part.takeWhile (· ≠ '=')), decode (part.dropWhile (· ≠ '=')).tail)

section Form

variable {c : Char} {cs : List Char} {entries : List (List Char × List Char)}

theorem plain_keepForm : Plain keepForm := by
  intro n h
  simp only [keepForm, Bool.or_eq_true, Bool.and_eq_true, decide_eq_true_eq, beq_iff_eq] at h
  omega

/-- A written character is none of these. -/
theorem ne_of_mem_escape {keep : Nat → Bool} {bytes : List UInt8} (hkeep : Plain keep) {d : Char}
    (hd : keep d.toNat = false) (hpercent : d ≠ '%')
    (hdigit : ¬ (48 ≤ d.toNat ∧ d.toNat ≤ 57 ∨ 65 ≤ d.toNat ∧ d.toNat ≤ 70))
    (h : c ∈ escape keep bytes) : c ≠ d := by
  rintro rfl
  rcases (mem_escape hkeep h).2 with hc | hc | ⟨n, hn, rfl⟩
  · rw [hd] at hc
    cases hc
  · exact hpercent hc
  · rw [hexDigit_toNat hn] at hdigit
    split at hdigit <;> omega

/-- A name or a value is read back. -/
@[simp] theorem decode_encode (cs : List Char) : decode (encode cs) = cs := by
  have hback : (encode cs).map (fun c => if c = '+' then ' ' else c) = escape keepForm (utf8Encode cs) := by
    rw [encode, List.map_map]
    conv_rhs => rw [← List.map_id (escape keepForm (utf8Encode cs))]
    refine List.map_congr_left fun c hc => ?_
    have hplus : c ≠ '+' := ne_of_mem_escape plain_keepForm rfl (by decide) (by decide) hc
    by_cases hspace : c = ' '
    · simp [hspace]
    · simp [hspace, hplus]
  have hread := unescape_escape plain_keepForm (utf8Encode cs) []
  rw [List.append_nil] at hread
  rw [decode, hback, hread]
  exact (congrArg utf8Decode (List.append_nil _)).trans (utf8Decode_utf8Encode cs)

theorem not_mem_encode {d : Char} (hd : keepForm d.toNat = false) (hpercent : d ≠ '%') (hplus : d ≠ '+')
    (hdigit : ¬ (48 ≤ d.toNat ∧ d.toNat ≤ 57 ∨ 65 ≤ d.toNat ∧ d.toNat ≤ 70)) : d ∉ encode cs := by
  intro h
  obtain ⟨c, hc, heq⟩ := List.mem_map.mp h
  split at heq
  · exact hplus heq.symm
  · exact ne_of_mem_escape plain_keepForm hd hpercent hdigit hc heq

theorem amp_not_mem_encode (cs : List Char) : '&' ∉ encode cs :=
  not_mem_encode rfl (by decide) (by decide) (by decide)

theorem eq_not_mem_encode (cs : List Char) : '=' ∉ encode cs :=
  not_mem_encode rfl (by decide) (by decide) (by decide)

/-- Of a list that is written out, every character but the separators is of a name or a value. -/
theorem mem_serialize (h : c ∈ serialize entries) : c = '&' ∨ c = '=' ∨ ∃ cs, c ∈ encode cs := by
  unfold serialize at h
  induction entries with
  | nil => cases h
  | cons e rest ih =>
    have hpart : c ∈ encode e.1 ++ '=' :: encode e.2 → c = '&' ∨ c = '=' ∨ ∃ cs, c ∈ encode cs := by
      intro hc
      rcases List.mem_append.mp hc with hc | hc
      · exact .inr (.inr ⟨_, hc⟩)
      · rcases List.mem_cons.mp hc with rfl | hc
        · exact .inr (.inl rfl)
        · exact .inr (.inr ⟨_, hc⟩)
    cases rest with
    | nil => exact hpart (by simpa using h)
    | cons e' rest =>
      rw [List.map_cons, List.map_cons, List.intercalate_cons_cons] at h
      rcases List.mem_append.mp h with h | h
      · rcases List.mem_append.mp h with h | h
        · exact hpart h
        · exact .inl (List.mem_singleton.mp h)
      · exact ih h

/-- One entry, cut at its first `=`. -/
theorem cut_entry (name value : List Char) :
    (encode name ++ '=' :: encode value).takeWhile (· ≠ '=') = encode name ∧
      ((encode name ++ '=' :: encode value).dropWhile (· ≠ '=')).tail = encode value := by
  have hname : ∀ c ∈ encode name, decide (c ≠ '=') = true := fun c hc =>
    decide_eq_true fun heq => eq_not_mem_encode name (heq ▸ hc)
  constructor
  · rw [List.takeWhile_append_of_pos hname]
    simp
  · rw [List.dropWhile_append_of_pos hname]
    simp

/-- A list is read back entry by entry. -/
theorem parse_serialize (entries : List (List Char × List Char)) : parse (serialize entries) = entries := by
  cases entries with
  | nil => rfl
  | cons e rest =>
    have hamp : ∀ part ∈ (e :: rest).map fun e => encode e.1 ++ '=' :: encode e.2, '&' ∉ part := by
      intro part hpart
      obtain ⟨e, _, rfl⟩ := List.mem_map.mp hpart
      rw [List.mem_append, List.mem_cons]
      rintro (h | h | h)
      · exact amp_not_mem_encode _ h
      · cases h
      · exact amp_not_mem_encode _ h
    have hparts : ((e :: rest).map fun e => encode e.1 ++ '=' :: encode e.2).filter
        (fun part => !part.isEmpty) = (e :: rest).map fun e => encode e.1 ++ '=' :: encode e.2 :=
      List.filter_eq_self.mpr fun part hpart => by
        obtain ⟨e, _, rfl⟩ := List.mem_map.mp hpart
        simp
    unfold parse serialize
    rw [List.splitOn_intercalate '&' hamp (by simp), hparts, List.map_map]
    conv_rhs => rw [← List.map_id (e :: rest)]
    refine List.map_congr_left fun e _ => ?_
    obtain ⟨hname, hvalue⟩ := cut_entry e.1 e.2
    simp only [Function.comp_apply, hname, hvalue, decode_encode]
    rfl

end Form

end Urlencoded
