import Kurul.Attachment.Disposition
import Kurul.Web.UrlSearchParams
import Kurul.WhatwgUrl

/-!
# Kurul.Web.AuthRedirect

The page a visitor is sent to after signing in, as it is written into the address and read from it.

* `parse_safe`   — where a browser goes from there.
* `get_next`     — what is read of what was written.
* `next_stays`   — both, and which values are taken.
-/

namespace Kurul
namespace Web

def slash : CodeUnit := 47
def reverseSolidus : CodeUnit := 92
def questionMark : CodeUnit := 63
def numberSign : CodeUnit := 35

/-- Over code points; those above the surrogates are none of these. -/
def hasStrippedCharacter (value : JsString) : Bool := value.any fun u => u.val ≤ 0x20 || u.val = 0x7f

def safeNextPath : Option JsString → Option JsString
  | none => none
  | some value =>
    if value = [] then none
    else if hasStrippedCharacter value then none
    else if ¬ [slash] <+: value then none
    else if [slash, slash] <+: value ∨ [slash, reverseSolidus] <+: value then none
    else some value

def nextParam : JsString := js "next"

/-- It throws where `encodeURIComponent` does. -/
def withNextParam (path : JsString) (next : Option JsString) : Option JsString :=
  match safeNextPath next with
  | none => some path
  | some safe =>
    (AttachmentService.encodeURIComponent safe).map fun encoded => path ++ js "?" ++ nextParam ++ js "=" ++ encoded

/-- The query of an address, with its question mark. -/
def search (url : JsString) : JsString :=
  (url.takeWhile fun u => u ≠ numberSign).dropWhile fun u => u ≠ questionMark

/-- A base of the web. -/
structure HttpBase (Host : Type) where
  url : Whatwg.Url Host
  http : url.scheme = "http".toList ∨ url.scheme = "https".toList
  segments : ∃ l, url.path = .segments l

/-! ## Where it leads -/

section Resolve

variable {Host : Type} {parseHost : (special : Bool) → Whatwg.Text → Option Host} {value next s : JsString}

theorem chars_cons {u : CodeUnit} (high : Utf16.isHigh u = false) (low : Utf16.isLow u = false) (s : JsString) :
    chars (u :: s) = Char.ofNat u.val :: chars s := by
  have hwf := Utf16.wellFormed_toWellFormed s
  obtain ⟨cs, henc, hdec⟩ := hwf.exists_encode
  unfold chars
  rw [Utf16.toWellFormed_unit high low, Utf16.decode_unit high low, hdec]
  rfl

/-- A small character of a string is one of its units. -/
theorem mem_of_mem_chars {c : Char} (h : c ∈ chars s) (hsmall : c.toNat < 128) :
    Fin.ofNat 65536 c.toNat ∈ s := by
  obtain ⟨cs, henc, hdec⟩ := (Utf16.wellFormed_toWellFormed s).exists_encode
  rw [chars, hdec, Option.getD_some] at h
  have hunit : Fin.ofNat 65536 c.toNat ∈ Utf16.toWellFormed s := by
    rw [← henc, Utf16.encode, List.mem_flatMap]
    exact ⟨c, h, by rw [Percent.units_plain hsmall]; exact List.mem_singleton_self _⟩
  rcases Utf16.mem_toWellFormed hunit with hmem | heq
  · exact hmem
  · have hval := congrArg Fin.val heq
    rw [Percent.val_plain hsmall] at hval
    have hlarge : Utf16.replacement.val = 0xfffd := rfl
    omega

theorem safeNextPath_eq_some (h : safeNextPath (some value) = some next) :
    next = value ∧ hasStrippedCharacter value = false ∧ ∃ rest, value = slash :: rest ∧
      rest.head? ≠ some slash ∧ rest.head? ≠ some reverseSolidus := by
  simp only [safeNextPath] at h
  split at h
  · cases h
  split at h
  · cases h
  rename_i hstripped
  split at h
  · cases h
  rename_i hslash
  split at h
  · cases h
  rename_i hdouble
  rw [not_not] at hslash
  rw [not_or] at hdouble
  obtain ⟨rest, rfl⟩ := hslash
  refine ⟨(Option.some.inj h).symm, by simpa using hstripped, rest, rfl, fun hhead => hdouble.1 ?_,
    fun hhead => hdouble.2 ?_⟩
  · obtain ⟨more, rfl⟩ := List.head?_eq_some_iff.mp hhead
    exact ⟨more, rfl⟩
  · obtain ⟨more, rfl⟩ := List.head?_eq_some_iff.mp hhead
    exact ⟨more, rfl⟩

theorem safeNextPath_of {rest : JsString} (hstripped : hasStrippedCharacter (slash :: rest) = false)
    (hslash : rest.head? ≠ some slash) (hback : rest.head? ≠ some reverseSolidus) :
    safeNextPath (some (slash :: rest)) = some (slash :: rest) := by
  have hstart : [slash] <+: slash :: rest := ⟨rest, rfl⟩
  have hdouble : ¬ ([slash, slash] <+: slash :: rest ∨ [slash, reverseSolidus] <+: slash :: rest) := by
    rintro (⟨more, hmore⟩ | ⟨more, hmore⟩)
    · exact hslash (by rw [← (List.cons.inj hmore).2]; rfl)
    · exact hback (by rw [← (List.cons.inj hmore).2]; rfl)
  simp only [safeNextPath, hstripped, if_neg hdouble, if_neg (not_not.mpr hstart)]
  rfl

/-- What the first character of a string is, if it is a small one. -/
theorem head_chars {c : Char} (h : (chars s).head? = some c) (hsmall : c.toNat < 128) :
    s.head? = some (Fin.ofNat 65536 c.toNat) := by
  obtain ⟨cs, henc, hdec⟩ := (Utf16.wellFormed_toWellFormed s).exists_encode
  rw [chars, hdec, Option.getD_some] at h
  obtain ⟨more, rfl⟩ := List.head?_eq_some_iff.mp h
  rw [Utf16.encode_cons, Percent.units_plain hsmall] at henc
  have hrel := Utf16.replaces_toWellFormed s
  rw [← henc] at hrel
  cases hrel with
  | cons hfirst _ =>
    rcases hfirst with heq | ⟨_, heq⟩
    · exact congrArg some heq.symm
    · have hval := congrArg Fin.val heq
      rw [Percent.val_plain hsmall] at hval
      have hlarge : Utf16.replacement.val = 0xfffd := rfl
      omega

theorem parse_safe (base : HttpBase Host) (h : safeNextPath (some value) = some next) :
    next = value ∧ ∃ url, Whatwg.parse parseHost (some base.url) (chars value) = some url ∧
      url.scheme = base.url.scheme ∧ url.host = base.url.host ∧ url.port = base.url.port := by
  obtain ⟨hsame, hstripped, rest, rfl, hslash, hback⟩ := safeNextPath_eq_some h
  have hchars : chars (slash :: rest) = '/' :: chars rest := chars_cons (by decide) (by decide) rest
  have hclean : ∀ c ∈ '/' :: chars rest, 0x20 < c.toNat := by
    intro c hc
    by_contra hsmall
    rw [← hchars] at hc
    have hmem := mem_of_mem_chars hc (by omega)
    have hnot := List.any_eq_false.mp hstripped _ hmem
    rw [Percent.val_plain (by omega)] at hnot
    simp only [Bool.or_eq_true, decide_eq_true_eq, not_or] at hnot
    omega
  have hauthority : ∀ c ∈ (chars rest).head?, c ≠ '/' ∧ c ≠ '\\' := by
    intro c hc
    constructor
    · rintro rfl
      exact hslash (head_chars hc (by decide))
    · rintro rfl
      exact hback (head_chars hc (by decide))
  rw [hchars, Whatwg.parse_pathAbsolute base.segments hclean hauthority]
  exact ⟨hsame, _, rfl, rfl, rfl, rfl⟩

end Resolve

/-! ## What is read of what was written -/

section Written

variable {keep : Char → Bool} {keepByte : Nat → Bool} {path : JsString} {value : Option JsString}

/-- Of a character that is not ASCII no octet is. -/
theorem eq_of_mem_utf8 {c : Char} {b : UInt8} (h : b ∈ String.utf8EncodeChar c) (hsmall : b.toNat < 128) :
    b.toNat = c.toNat := by
  have hval : c.toNat = c.val.toNat := rfl
  rw [String.utf8EncodeChar] at h
  generalize c.val.toNat = n at *
  split at h
  · rw [List.mem_singleton.mp h]
    simp
    omega
  split at h
  · simp only [List.mem_cons, List.not_mem_nil, or_false] at h
    rcases h with rfl | rfl <;> rw [Urlencoded.toNat_byte (by omega)] at hsmall <;> omega
  split at h
  · simp only [List.mem_cons, List.not_mem_nil, or_false] at h
    rcases h with rfl | rfl | rfl <;> rw [Urlencoded.toNat_byte (by omega)] at hsmall <;> omega
  · simp only [List.mem_cons, List.not_mem_nil, or_false] at h
    rcases h with rfl | rfl | rfl | rfl <;> rw [Urlencoded.toNat_byte (by omega)] at hsmall <;> omega

theorem units_hexDigit {n : Nat} (h : n < 16) : Utf16.units (Urlencoded.hexDigit n) = [Percent.hexDigit n] := by
  have hval := Urlencoded.hexDigit_toNat h
  have hsmall : (Urlencoded.hexDigit n).toNat < 128 := by
    rw [hval]
    split <;> omega
  rw [Percent.units_plain hsmall, hval, Percent.hexDigit]
  split <;> rfl

/-- An octet that is escaped. -/
theorem encode_escaped (b : UInt8) :
    Utf16.encode ['%', Urlencoded.hexDigit (b.toNat / 16), Urlencoded.hexDigit (b.toNat % 16)] =
      Percent.encodeByte b := by
  have hlt : b.toNat < 256 := b.toNat_lt
  rw [Utf16.encode_cons, Utf16.encode_cons, Utf16.encode_cons, units_hexDigit (by omega),
    units_hexDigit (by omega)]
  rfl

/-- A text that is percent-encoded, as characters. -/
theorem encode_eq (hkeep : Percent.Plain keep) (cs : List Char) : Percent.encode keep cs =
    Utf16.encode (Urlencoded.escape (fun n => keep (Char.ofNat n)) (Urlencoded.utf8Encode cs)) := by
  have hone : ∀ c : Char, (if keep c then Utf16.units c
      else (String.utf8EncodeChar c).flatMap Percent.encodeByte) =
      Utf16.encode (Urlencoded.escape (fun n => keep (Char.ofNat n)) (String.utf8EncodeChar c)) := by
    intro c
    by_cases hc : keep c = true
    · obtain ⟨hlt, -⟩ := hkeep c hc
      have hbyte : (UInt8.ofNat c.toNat).toNat = c.toNat := Urlencoded.toNat_byte (by omega)
      rw [if_pos hc, Percent.utf8_plain hlt]
      simp [Urlencoded.escape, hbyte, Char.ofNat_toNat, hc, Utf16.encode]
    · rw [if_neg hc]
      have hall : ∀ b ∈ String.utf8EncodeChar c, keep (Char.ofNat b.toNat) = false := by
        intro b hb
        by_contra hkept
        rw [Bool.not_eq_false] at hkept
        have hvalid : b.toNat.isValidChar := .inl (by have := b.toNat_lt; omega)
        have hsmall := (hkeep _ hkept).1
        rw [Utf16.toNat_ofNat hvalid] at hsmall
        rw [eq_of_mem_utf8 hb hsmall, Char.ofNat_toNat] at hkept
        exact hc hkept
      generalize String.utf8EncodeChar c = bytes at hall
      induction bytes with
      | nil => rfl
      | cons b bytes ih =>
        obtain ⟨hb, hall⟩ := List.forall_mem_cons.mp hall
        rw [List.flatMap_cons, ih hall, ← encode_escaped]
        simp [Urlencoded.escape, hb, Utf16.encode]
  induction cs with
  | nil => rfl
  | cons c cs ih =>
    rw [Percent.encode, List.flatMap_cons, hone c]
    unfold Percent.encode at ih
    rw [ih]
    simp [Utf16.encode, Urlencoded.utf8Encode, Urlencoded.escape]

/-- The one entry that is written. -/
theorem parse_next (hkeep : Urlencoded.Plain keepByte) (hplus : keepByte '+'.toNat = false)
    (hamp : keepByte '&'.toNat = false) (cs : List Char) :
    Urlencoded.parse ("next".toList ++ '=' :: Urlencoded.escape keepByte (Urlencoded.utf8Encode cs)) =
      [("next".toList, cs)] := by
  generalize hwritten : Urlencoded.escape keepByte (Urlencoded.utf8Encode cs) = written
  have hvalue : Urlencoded.decode written = cs := by
    have hsame : written.map (fun c => if c = '+' then ' ' else c) = written := by
      conv_rhs => rw [← List.map_id written]
      refine List.map_congr_left fun c hc => if_neg ?_
      rw [← hwritten] at hc
      exact Urlencoded.ne_of_mem_escape hkeep hplus (by decide) (by decide) hc
    have hread := Urlencoded.unescape_escape hkeep (Urlencoded.utf8Encode cs) []
    rw [List.append_nil, hwritten] at hread
    rw [Urlencoded.decode, hsame, hread]
    exact (congrArg Urlencoded.utf8Decode (List.append_nil _)).trans (Urlencoded.utf8Decode_utf8Encode cs)
  have hname : Urlencoded.decode "next".toList = "next".toList := by decide +kernel
  have hnone : '&' ∉ "next".toList ++ '=' :: written := by
    rw [List.mem_append, List.mem_cons]
    rintro (h | h | h)
    · exact absurd h (by decide)
    · cases h
    · rw [← hwritten] at h
      exact Urlencoded.ne_of_mem_escape hkeep hamp (by decide) (by decide) h rfl
  have hparts : ("next".toList ++ '=' :: written).splitOn '&' = ["next".toList ++ '=' :: written] := by
    have hall : ∀ part ∈ ["next".toList ++ '=' :: written], '&' ∉ part := by
      intro part hpart
      rw [List.mem_singleton.mp hpart]
      exact hnone
    have hsplit := List.splitOn_intercalate '&' hall (List.cons_ne_nil _ _)
    rwa [List.intercalate_singleton] at hsplit
  have hequals : ∀ c ∈ "next".toList, decide (c ≠ '=') = true := Whatwg.forall_mem_of_all (by decide)
  rw [Urlencoded.parse, hparts, List.filter_cons_of_pos (by simp), List.filter_nil, List.map_singleton,
    List.takeWhile_append_of_pos hequals, List.dropWhile_append_of_pos hequals,
    List.takeWhile_cons_of_neg (by simp), List.dropWhile_cons_of_neg (by simp), List.append_nil, hname,
    List.tail_cons, hvalue]

/-- Of the characters that stand for themselves in a component, as numbers. -/
def uriByte (n : Nat) : Bool := AttachmentService.uriUnescaped (Char.ofNat n)

theorem plain_uriByte : Urlencoded.Plain uriByte := by
  intro n h
  obtain ⟨hsmall, hne⟩ := AttachmentService.uriUnescaped_plain _ h
  by_cases hvalid : n.isValidChar
  · rw [Utf16.toNat_ofNat hvalid] at hsmall hne
    exact ⟨hsmall, hne⟩
  · have hzero : Char.ofNat n = Char.ofNat 0 := by
      rw [Char.ofNat, dif_neg hvalid]
      rfl
    have hnot : AttachmentService.uriUnescaped (Char.ofNat 0) = false := by decide
    rw [uriByte, hzero, hnot] at h
    cases h

/-- The query of an address that has one. -/
theorem search_append {query : JsString} (hquestion : questionMark ∉ path) (hnumber : numberSign ∉ path)
    (hquery : numberSign ∉ query) :
    search (path ++ questionMark :: query) = questionMark :: query := by
  have hall : ∀ u ∈ path ++ questionMark :: query, decide (u ≠ numberSign) = true := by
    intro u hu
    refine decide_eq_true ?_
    rintro rfl
    rcases List.mem_append.mp hu with hu | hu
    · exact hnumber hu
    · rcases List.mem_cons.mp hu with hu | hu
      · exact absurd hu (by decide)
      · exact hquery hu
  have hpath : ∀ u ∈ path, decide (u ≠ questionMark) = true := by
    intro u hu
    refine decide_eq_true ?_
    rintro rfl
    exact hquestion hu
  rw [search, List.takeWhile_eq_self_iff.mpr hall, List.dropWhile_append_of_pos hpath,
    List.dropWhile_cons_of_neg (by simp)]

/-- The query of an address that has none. -/
theorem search_eq_nil (hquestion : questionMark ∉ path) : search path = [] := by
  rw [search, List.dropWhile_eq_nil_iff]
  intro u hu
  refine decide_eq_true ?_
  rintro rfl
  exact hquestion ((List.takeWhile_sublist _).mem hu)

theorem get_next (path : JsString) (hquestion : questionMark ∉ path) (hnumber : numberSign ∉ path)
    (hvalue : ∀ s ∈ value, Utf16.WellFormed s) :
    ∃ url, withNextParam path value = some url ∧
      safeNextPath ((UrlSearchParams.ofString (search url)).get nextParam) = safeNextPath value := by
  cases hsafe : safeNextPath value with
  | none =>
    refine ⟨path, by simp [withNextParam, hsafe], ?_⟩
    rw [search_eq_nil hquestion]
    rfl
  | some safe =>
    cases value with
    | none => cases hsafe
    | some v =>
      obtain ⟨rfl, -⟩ := safeNextPath_eq_some hsafe
      obtain ⟨cs, hencode, hdecode⟩ := (hvalue _ rfl).exists_encode
      let written := Urlencoded.escape uriByte (Urlencoded.utf8Encode cs)
      have hwritten : Percent.encode AttachmentService.uriUnescaped cs = Utf16.encode written :=
        encode_eq AttachmentService.uriUnescaped_plain cs
      have hnosign : numberSign ∉ nextParam ++ js "=" ++ Utf16.encode written := by
        intro hmem
        rcases List.mem_append.mp hmem with hmem | hmem
        · exact absurd hmem (by decide +kernel)
        · have hchar := UrlSearchParams.of_mem_encode (by decide) (by decide) hmem
          exact Urlencoded.ne_of_mem_escape plain_uriByte (by decide) (by decide) (by decide) hchar rfl
      refine ⟨path ++ questionMark :: (nextParam ++ js "=" ++ Utf16.encode written), ?_, ?_⟩
      · simp only [withNextParam, hsafe, AttachmentService.encodeURIComponent, hdecode, Option.map_some, hwritten,
          List.append_assoc]
        rfl
      · have htext : nextParam ++ js "=" ++ Utf16.encode written =
            Utf16.encode ("next".toList ++ '=' :: written) := by
          have hstart : nextParam ++ js "=" = Utf16.encode ("next".toList ++ ['=']) := by decide +kernel
          rw [hstart]
          simp [Utf16.encode]
        have hentries : (UrlSearchParams.ofString
            (questionMark :: (nextParam ++ js "=" ++ Utf16.encode written))).entries = [(nextParam, safe)] := by
          have hname : Utf16.encode "next".toList = nextParam := by decide +kernel
          have hhead : (questionMark :: (nextParam ++ js "=" ++ Utf16.encode written)).head? =
              some (Fin.ofNat 65536 63) := rfl
          rw [UrlSearchParams.ofString]
          dsimp only
          rw [if_pos hhead, List.tail_cons, htext, chars_encode,
            parse_next plain_uriByte (by decide) (by decide), List.map_singleton, hname, hencode]
        have hwell : Utf16.toWellFormed nextParam = nextParam := by decide +kernel
        rw [search_append hquestion hnumber hnosign, UrlSearchParams.get, hentries, hwell]
        simpa using hsafe

/-- What is taken from the address leads to a page of the site; every path of it is taken, and read as it
was written. -/
theorem next_stays {Host : Type} (parseHost : (special : Bool) → Whatwg.Text → Option Host)
    (base : HttpBase Host) :
    (∀ value next, safeNextPath (some value) = some next → next = value ∧
      ∃ url, Whatwg.parse parseHost (some base.url) (chars value) = some url ∧
        url.scheme = base.url.scheme ∧ url.host = base.url.host ∧ url.port = base.url.port) ∧
    (∀ value : JsString, [slash] <+: value → (∀ u ∈ value, 0x20 < u.val ∧ u.val ≠ 0x7f) →
      ¬ [slash, slash] <+: value → ¬ [slash, reverseSolidus] <+: value →
      safeNextPath (some value) = some value) ∧
    ∀ (path : JsString) (value : Option JsString), questionMark ∉ path → numberSign ∉ path →
      (∀ s ∈ value, Utf16.WellFormed s) → ∃ url, withNextParam path value = some url ∧
        safeNextPath ((UrlSearchParams.ofString (search url)).get nextParam) = safeNextPath value := by
  refine ⟨fun value next h => parse_safe base h, ?_, fun path value hq hn hv => get_next path hq hn hv⟩
  rintro value ⟨rest, rfl⟩ hclean hdouble hback
  have hstripped : hasStrippedCharacter ([slash] ++ rest) = false := by
    refine List.any_eq_false.mpr fun u hu => ?_
    have hu := hclean u hu
    simp
    omega
  refine safeNextPath_of hstripped (fun hhead => hdouble ?_) fun hhead => hback ?_
  · obtain ⟨more, rfl⟩ := List.head?_eq_some_iff.mp hhead
    exact ⟨more, rfl⟩
  · obtain ⟨more, rfl⟩ := List.head?_eq_some_iff.mp hhead
    exact ⟨more, rfl⟩

end Written

end Web
end Kurul
