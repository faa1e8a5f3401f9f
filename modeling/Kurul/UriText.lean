import Kurul.WhatwgUrl

/-!
# Kurul.UriText

The texts of a URI: characters that stand for themselves, and percent-encoded octets. How many characters
are encoded, and with which digits, is up to who writes them.

* `octets_of_spells` — the octets of a spelling, percent-encoded further or not.
* `decode_of_spells` — a spelling is read back.
-/

namespace Uri

abbrev Text : Type := List Char

def isUnreserved (c : Char) : Bool :=
  Whatwg.isAlpha c || Whatwg.isDigit c || ['-', '.', '_', '~'].contains c

def isSubDelim (c : Char) : Bool :=
  ['!', '$', '&', Char.ofNat 39, '(', ')', '*', '+', ',', ';', '='].contains c

def isPchar (c : Char) : Bool := isUnreserved c || isSubDelim c || c = ':' || c = '@'

section Chars

variable {c : Char}

theorem isUnreserved_of_hex (h : (Urlencoded.hexValue c).isSome = true) : isUnreserved c = true := by
  have hrange : Whatwg.isAlpha c = true ∨ Whatwg.isDigit c = true := by
    rw [Whatwg.isAlpha_iff, Whatwg.isDigit_iff]
    unfold Urlencoded.hexValue at h
    grind
  rw [isUnreserved]
  rcases hrange with hc | hc <;> simp [hc]

/-- What a URI may be made of, apart from percent signs and what its parts are held together with. -/
theorem toNat_of_isPchar (h : isPchar c = true) : 0x20 < c.toNat ∧ c.toNat < 0x7f := by
  have hlist : ∀ c ∈ ['-', '.', '_', '~'] ++ ['!', '$', '&', Char.ofNat 39, '(', ')', '*', '+', ',', ';', '='] ++
      [':', '@'], 0x20 < c.toNat ∧ c.toNat < 0x7f := Whatwg.forall_mem_of_all (by decide)
  simp only [isPchar, isUnreserved, isSubDelim, Bool.or_eq_true, Whatwg.isAlpha_iff, Whatwg.isDigit_iff,
    List.contains_iff_mem, decide_eq_true_eq] at h
  rcases h with (((((h | h) | h) | h) | h) | rfl) | rfl
  · omega
  · omega
  · omega
  · exact hlist c (List.mem_append_left _ (List.mem_append_left _ h))
  · exact hlist c (List.mem_append_left _ (List.mem_append_right _ h))
  · decide
  · decide

end Chars

/-- Octets, each as a percent sign and two digits. -/
inductive Escapes : Text → List UInt8 → Prop
  | nil : Escapes [] []
  | octet {a b : Char} {x y : Nat} {e : Text} {bytes : List UInt8}
      (high : Urlencoded.hexValue a = some x) (low : Urlencoded.hexValue b = some y) :
      Escapes e bytes → Escapes ('%' :: a :: b :: e) (UInt8.ofNat (16 * x + y) :: bytes)

/-- A text as a URI spells it. -/
inductive Spells (allowed : Char → Bool) : Text → Text → Prop
  | nil : Spells allowed [] []
  | plain {c : Char} {s v : Text} (hc : allowed c = true) : Spells allowed s v → Spells allowed (c :: s) (c :: v)
  | encoded {c : Char} {e s v : Text} (he : Escapes e (String.utf8EncodeChar c)) :
      Spells allowed s v → Spells allowed (e ++ s) (c :: v)

/-- The octets a text stands for; none if a percent sign has no two digits behind it. -/
def octets : Text → Option (List UInt8)
  | [] => some []
  | c :: s =>
    if c = '%' then
      match s with
      | a :: b :: s => match Urlencoded.hexValue a, Urlencoded.hexValue b with
        | some x, some y => (octets s).map (UInt8.ofNat (16 * x + y) :: ·)
        | _, _ => none
      | _ => none
    else (octets s).map (String.utf8EncodeChar c ++ ·)

/-- The text that a text stands for; none if its octets are not UTF-8. -/
def decode (s : Text) : Option Text :=
  (octets s).bind fun bytes => bytes.toByteArray.utf8Decode?.map Array.toList

section Octets

variable {allowed set : Char → Bool} {a b c : Char} {x y : Nat} {e s v : Text} {bytes : List UInt8}

theorem octets_octet (high : Urlencoded.hexValue a = some x) (low : Urlencoded.hexValue b = some y) (s : Text) :
    octets ('%' :: a :: b :: s) = (octets s).map (UInt8.ofNat (16 * x + y) :: ·) := by
  rw [octets, if_pos rfl]
  simp only [high, low]

theorem octets_plain (h : c ≠ '%') (s : Text) :
    octets (c :: s) = (octets s).map (String.utf8EncodeChar c ++ ·) := by
  match s with
  | [] => simp [octets, h]
  | [d] =>
    rw [octets, if_neg h]
    exact nofun
  | d :: d' :: s => rw [octets, if_neg h]

theorem octets_escapes (h : Escapes e bytes) (s : Text) : octets (e ++ s) = (octets s).map (bytes ++ ·) := by
  induction h with
  | nil => simp
  | octet high low _ ih =>
    rw [List.cons_append, List.cons_append, List.cons_append, octets_octet high low, ih, Option.map_map]
    rfl

/-- Octets that are written here are escaped ones. -/
theorem escapes_escape (bytes : List UInt8) : Escapes (Urlencoded.escape (fun _ => false) bytes) bytes := by
  induction bytes with
  | nil => exact .nil
  | cons b bytes ih =>
    have hb : b.toNat < 256 := b.toNat_lt
    have hsum : 16 * (b.toNat / 16) + b.toNat % 16 = b.toNat := Nat.div_add_mod _ _
    have hocts := Escapes.octet (Urlencoded.hexValue_hexDigit (n := b.toNat / 16) (by omega))
      (Urlencoded.hexValue_hexDigit (n := b.toNat % 16) (by omega)) ih
    rw [hsum, UInt8.ofNat_toNat] at hocts
    exact hocts

theorem mem_of_escapes (h : Escapes e bytes) (hc : c ∈ e) : c = '%' ∨ (Urlencoded.hexValue c).isSome = true := by
  induction h with
  | nil => cases hc
  | octet high low _ ih =>
    simp only [List.mem_cons] at hc
    rcases hc with rfl | rfl | rfl | hc
    · exact .inl rfl
    · exact .inr (by rw [high]; rfl)
    · exact .inr (by rw [low]; rfl)
    · exact ih hc

/-- What a spelling is made of. -/
theorem mem_of_spells (h : Spells allowed s v) (hc : c ∈ s) :
    allowed c = true ∨ c = '%' ∨ (Urlencoded.hexValue c).isSome = true := by
  induction h with
  | nil => cases hc
  | plain hallowed _ ih =>
    rcases List.mem_cons.mp hc with rfl | hc
    · exact .inl hallowed
    · exact ih hc
  | encoded he _ ih =>
    rcases List.mem_append.mp hc with hc | hc
    · exact .inr (mem_of_escapes he hc)
    · exact ih hc

/-- Only nothing is spelled as nothing. -/
theorem spells_eq_nil_iff (h : Spells allowed s v) : s = [] ↔ v = [] := by
  cases h with
  | nil => simp
  | plain => simp
  | @encoded c e s v he hs =>
    have hne : e ≠ [] := by
      rintro rfl
      generalize hbytes : String.utf8EncodeChar c = bytes at he
      cases he
      exact String.utf8EncodeChar_ne_nil hbytes
    simp [hne]

/-- Percent-encoding what was spelled changes nothing of what it stands for. -/
theorem octets_of_spells (h : Spells allowed s v) (hallowed : allowed '%' = false)
    (hset : ∀ c, c = '%' ∨ (Urlencoded.hexValue c).isSome = true → set c = false) :
    octets (Whatwg.percentEncode set s) = some (v.flatMap String.utf8EncodeChar) := by
  induction h with
  | nil => rfl
  | @plain c s v hc _ ih =>
    have hne : c ≠ '%' := by
      rintro rfl
      rw [hallowed] at hc
      cases hc
    rw [Whatwg.percentEncode_cons, Whatwg.percentEncode, List.flatMap_singleton]
    split
    · rw [octets_escapes (escapes_escape _), ih]
      rfl
    · rw [List.singleton_append, octets_plain hne, ih]
      rfl
  | @encoded c e s v he _ ih =>
    have hsame : Whatwg.percentEncode set e = e :=
      Whatwg.percentEncode_eq_self fun d hd => hset d (mem_of_escapes he hd)
    rw [Whatwg.percentEncode_append, hsame, octets_escapes he, ih]
    rfl

theorem decode_of_spells (h : Spells allowed s v) (hallowed : allowed '%' = false)
    (hset : ∀ c, c = '%' ∨ (Urlencoded.hexValue c).isSome = true → set c = false) :
    decode (Whatwg.percentEncode set s) = some v := by
  have hutf8 : (v.flatMap String.utf8EncodeChar).toByteArray = v.utf8Encode := rfl
  rw [decode, octets_of_spells h hallowed hset, Option.bind_some, hutf8, List.utf8Decode?_utf8Encode]
  rfl

end Octets

end Uri
