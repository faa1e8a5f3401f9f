import Kurul.Attachment.CreateFile
import Kurul.Percent

/-!
# Kurul.Attachment.Disposition

The `Content-Disposition` header a stored file is served with.

* `disposition_sealed` — whatever the stored name, if it is well-formed: the header has printable ASCII
  only and two quotes, and the name can be read out of it.
* `served_iff`         — which of the names an upload leaves can be served with a header that conforms.
-/

namespace Kurul
namespace AttachmentService

/-- `INLINE_MIME_TYPES`. -/
def inlineMimeTypes : List JsString := [js "image/png", js "image/jpeg", js "image/gif", js "image/webp"]

/-- `UNSAFE_HEADER_CHARACTERS`. -/
def unsafeHeader (c : CodeUnit) : Bool :=
  let n := c.val
  n == 0x22 || n == 0x5c || n ≤ 0x1f || (0x7f ≤ n && n ≤ 0x9f) || n == 0x61c ||
    (0x200e ≤ n && n ≤ 0x200f) || (0x202a ≤ n && n ≤ 0x202e) || (0x2066 ≤ n && n ≤ 0x2069)

/-- The characters that `encodeURIComponent` leaves as they are. -/
def uriUnescaped (c : Char) : Bool := c.isAlphanum || "-_.!~*'()".toList.contains c

/-- `encodeURIComponent(s)`. It throws at a surrogate that is not in a pair. -/
def encodeURIComponent (s : JsString) : Option JsString :=
  (Utf16.decode s).map (Percent.encode uriUnescaped)

/-- `[\x20-\x7e]`. -/
def printable (c : CodeUnit) : Bool := 0x20 ≤ c.val && c.val ≤ 0x7e

def underscore : CodeUnit := 95

/-- Not printable characters as underscores. -/
def foldAscii (s : JsString) : JsString := s.map fun c => if printable c then c else underscore

/-- `filename.replace(UNSAFE_HEADER_CHARACTERS, '')`. -/
def stripped (filename : JsString) : JsString := filename.filter fun c => !unsafeHeader c

/-- The header as it is put together. -/
structure Disposition where
  kind : JsString
  ascii : JsString
  encoded : JsString

def Disposition.header (d : Disposition) : JsString :=
  d.kind ++ js "; filename=\"" ++ d.ascii ++ js "\"; filename*=UTF-8''" ++ d.encoded

def contentDisposition (mimeType filename : JsString) : Option JsString :=
  let kind := if inlineMimeTypes.contains mimeType then js "inline" else js "attachment"
  let safe := stripped filename
  let ascii := if truthy (foldAscii safe) then foldAscii safe else js "attachment"
  (encodeURIComponent safe).map fun encoded => (⟨kind, ascii, encoded⟩ : Disposition).header

def doubleQuote : CodeUnit := 34
def backslash : CodeUnit := 92

/-- Neither ends the quoted name nor stands outside printable ASCII. -/
def harmless (c : CodeUnit) : Bool := printable c && c != doubleQuote && c != backslash

/-- The header as a client reads it: the quotes delimit the ASCII name. -/
structure Disposition.Reads (d : Disposition) (header : JsString) : Prop where
  eq : d.header = header
  kind : doubleQuote ∉ d.kind
  ascii : doubleQuote ∉ d.ascii
  encoded : doubleQuote ∉ d.encoded

/-- What a client makes of the value of `filename*`. -/
def decodedName (encoded : JsString) : Option JsString := (Percent.decode encoded).map Utf16.encode

/-- A header that cannot be broken out of, and that gives this name. -/
structure Sealed (header name : JsString) : Prop where
  printable : ∀ c ∈ header, printable c = true
  oneLine : 13 ∉ header ∧ 10 ∉ header
  quotes : header.count doubleQuote = 2
  backslash : backslash ∉ header
  name : ∃ d : Disposition, d.Reads header ∧ decodedName d.encoded = some name

/-! ## What is written -/

section Header

variable {filename mimeType header name s : JsString} {c : CodeUnit} {d d' : Disposition}

theorem harmless_iff : harmless c = true ↔ printable c = true ∧ c ≠ doubleQuote ∧ c ≠ backslash := by
  simp [harmless, and_assoc]

theorem quote_cut {a b x y : JsString} (ha : doubleQuote ∉ a) (hb : doubleQuote ∉ b)
    (h : a ++ doubleQuote :: x = b ++ doubleQuote :: y) : a = b ∧ x = y := by
  induction a generalizing b with
  | nil =>
    cases b with
    | nil => exact ⟨rfl, (List.cons.inj h).2⟩
    | cons e b => exact absurd ((List.cons.inj h).1 ▸ List.mem_cons_self) hb
  | cons c a ih =>
    cases b with
    | nil => exact absurd ((List.cons.inj h).1 ▸ List.mem_cons_self) ha
    | cons e b =>
      obtain ⟨rfl, htail⟩ := List.cons.inj h
      obtain ⟨rfl, rfl⟩ := ih (List.not_mem_of_not_mem_cons ha) (List.not_mem_of_not_mem_cons hb) htail
      exact ⟨rfl, rfl⟩

theorem header_eq (d : Disposition) : d.header = (d.kind ++ js "; filename=") ++
    doubleQuote :: (d.ascii ++ doubleQuote :: (js "; filename*=UTF-8''" ++ d.encoded)) := by
  have hopen : js "; filename=\"" = js "; filename=" ++ [doubleQuote] := by decide
  have hclose : js "\"; filename*=UTF-8''" = doubleQuote :: js "; filename*=UTF-8''" := by decide
  rw [Disposition.header, hopen, hclose]
  simp

/-- There is one way to read a header. -/
theorem Disposition.Reads.encoded_eq (h : d.Reads header) (h' : d'.Reads header) :
    d.encoded = d'.encoded := by
  have heq := h.eq.trans h'.eq.symm
  have hkind : ∀ {k : JsString}, doubleQuote ∉ k → doubleQuote ∉ k ++ js "; filename=" := by
    intro k hk hmem
    rcases List.mem_append.mp hmem with hmem | hmem
    · exact hk hmem
    · exact absurd hmem (by decide)
  rw [header_eq, header_eq] at heq
  obtain ⟨_, hrest⟩ := quote_cut (hkind h.kind) (hkind h'.kind) heq
  obtain ⟨_, hvalue⟩ := quote_cut h.ascii h'.ascii hrest
  exact List.append_cancel_left hvalue

theorem uriUnescaped_plain : Percent.Plain uriUnescaped := by
  intro c hc
  have hsmall : c.toNat < 128 := by
    unfold uriUnescaped at hc
    rcases Bool.or_eq_true_iff.mp hc with h | h
    · have h : ((decide ('A'.val ≤ c.val ∧ c.val ≤ 'Z'.val) ||
          (decide ('a'.val ≤ c.val) && decide (c.val ≤ 'z'.val))) ||
          (decide ('0'.val ≤ c.val) && decide (c.val ≤ '9'.val))) = true := h
      simp only [Bool.or_eq_true, Bool.and_eq_true, decide_eq_true_eq, UInt32.le_iff_toNat_le] at h
      have hc' : c.toNat = c.val.toNat := rfl
      have hZ : 'Z'.val.toNat = 90 := rfl
      have hz : 'z'.val.toNat = 122 := rfl
      have h9 : '9'.val.toNat = 57 := rfl
      omega
    · have hlist : ("-_.!~*'()".toList).all (fun d => decide (d.toNat < 128)) = true := by decide
      exact of_decide_eq_true (List.all_eq_true.mp hlist c (by simpa using h))
  refine ⟨hsmall, fun heq => ?_⟩
  have hpercent : uriUnescaped '%' = false := by decide
  have hchar : c = '%' := Char.toNat_inj.mp heq
  rw [hchar, hpercent] at hc
  cases hc

/-- Every unit that `encodeURIComponent` writes is printable, and neither a quote nor a backslash. -/
theorem mem_encodeURIComponent (h : encodeURIComponent s = some name) (hc : c ∈ name) :
    harmless c = true := by
  have hkept : ∀ n < 128, uriUnescaped (Char.ofNat n) = true → harmless (Fin.ofNat 65536 n) = true := by
    decide +kernel
  have hdigit : ∀ n < 16, harmless (Percent.hexDigit n) = true := by decide
  obtain ⟨cs, _, rfl⟩ := Option.map_eq_some_iff.mp h
  rcases Percent.mem_encode hc with ⟨e, he, hunits⟩ | rfl | ⟨n, hn, rfl⟩
  · have hlt := (uriUnescaped_plain e he).1
    rw [Percent.units_plain hlt, List.mem_singleton] at hunits
    rw [hunits]
    exact hkept e.toNat hlt (by rwa [Char.ofNat_toNat])
  · decide
  · exact hdigit n hn

theorem foldAscii_harmless (hc : c ∈ foldAscii (stripped filename)) : harmless c = true := by
  obtain ⟨e, he, rfl⟩ := List.mem_map.mp hc
  obtain ⟨_, hsafe⟩ := List.mem_filter.mp he
  split
  · rename_i hprint
    refine harmless_iff.mpr ⟨hprint, ?_, ?_⟩
    · rintro rfl
      exact absurd hsafe (by decide)
    · rintro rfl
      exact absurd hsafe (by decide)
  · decide

/-- A surrogate is not stripped. -/
theorem stripped_wellFormed (h : Utf16.WellFormed filename) : Utf16.WellFormed (stripped filename) := by
  refine h.filter fun u hu => ?_
  rw [Utf16.isHigh_iff, Utf16.isLow_iff] at hu
  simp only [unsafeHeader, Bool.not_eq_true', Bool.or_eq_false_iff, Bool.and_eq_false_iff,
    beq_eq_false_iff_ne, decide_eq_false_iff_not]
  omega

/-- The parts of a header, each of units that need no care. -/
theorem contentDisposition_eq_some (h : contentDisposition mimeType filename = some header) :
    ∃ d : Disposition, d.header = header ∧ encodeURIComponent (stripped filename) = some d.encoded ∧
      ∀ c, c ∈ d.kind ∨ c ∈ d.ascii ∨ c ∈ d.encoded → harmless c = true := by
  obtain ⟨encoded, hencoded, heq⟩ := Option.map_eq_some_iff.mp h
  refine ⟨_, heq, hencoded, fun c hc => ?_⟩
  have hattachment : ∀ c ∈ js "attachment", harmless c = true := List.all_eq_true.mp (by decide)
  have hinline : ∀ c ∈ js "inline", harmless c = true := List.all_eq_true.mp (by decide)
  dsimp only at hc
  rcases hc with hc | hc | hc
  · split at hc
    · exact hinline c hc
    · exact hattachment c hc
  · split at hc
    · exact foldAscii_harmless hc
    · exact hattachment c hc
  · exact mem_encodeURIComponent hencoded hc

theorem sealed_of_eq_some (h : contentDisposition mimeType filename = some header) :
    Sealed header (stripped filename) := by
  obtain ⟨d, rfl, hencoded, hparts⟩ := contentDisposition_eq_some h
  have hopen : ∀ c ∈ js "; filename=", harmless c = true := List.all_eq_true.mp (by decide)
  have hclose : ∀ c ∈ js "; filename*=UTF-8''", harmless c = true := List.all_eq_true.mp (by decide)
  have hquote : printable doubleQuote = true ∧ doubleQuote ≠ backslash := by decide
  have hcases : ∀ c ∈ d.header, harmless c = true ∨ c = doubleQuote := by
    intro c hc
    rw [header_eq] at hc
    simp only [List.mem_append, List.mem_cons] at hc
    rcases hc with (hc | hc) | rfl | hc | rfl | hc | hc
    · exact .inl (hparts c (.inl hc))
    · exact .inl (hopen c hc)
    · exact .inr rfl
    · exact .inl (hparts c (.inr (.inl hc)))
    · exact .inr rfl
    · exact .inl (hclose c hc)
    · exact .inl (hparts c (.inr (.inr hc)))
  have hprint : ∀ c ∈ d.header, printable c = true := by
    intro c hc
    rcases hcases c hc with h | rfl
    · exact (harmless_iff.mp h).1
    · exact hquote.1
  have hfree : ∀ s : JsString, (∀ c ∈ s, harmless c = true) → doubleQuote ∉ s := by
    intro s hs hmem
    exact (harmless_iff.mp (hs doubleQuote hmem)).2.1 rfl
  have hkind := hfree d.kind fun c hc => hparts c (.inl hc)
  have hascii := hfree d.ascii fun c hc => hparts c (.inr (.inl hc))
  have hvalue := hfree d.encoded fun c hc => hparts c (.inr (.inr hc))
  refine ⟨hprint, ⟨?_, ?_⟩, ?_, ?_, d, ⟨rfl, hkind, hascii, hvalue⟩, ?_⟩
  · exact fun hmem => absurd (hprint _ hmem) (by decide)
  · exact fun hmem => absurd (hprint _ hmem) (by decide)
  · rw [header_eq]
    simp only [List.count_append, List.count_cons_self, List.count_eq_zero.mpr (hfree _ hopen),
      List.count_eq_zero.mpr (hfree _ hclose), List.count_eq_zero.mpr hkind,
      List.count_eq_zero.mpr hascii, List.count_eq_zero.mpr hvalue]
  · intro hmem
    rcases hcases _ hmem with h | h
    · exact (harmless_iff.mp h).2.2 rfl
    · exact hquote.2 h.symm
  · obtain ⟨cs, hdecode, henc⟩ := Option.map_eq_some_iff.mp hencoded
    rw [decodedName, ← henc, Percent.decode_encode uriUnescaped_plain, Option.map_some,
      (Utf16.encode_of_decode hdecode).2]

/-- One header gives one name. -/
theorem Sealed.name_eq {name' : JsString} (h : Sealed header name) (h' : Sealed header name') :
    name = name' := by
  obtain ⟨d, hd, hname⟩ := h.name
  obtain ⟨d', hd', hname'⟩ := h'.name
  rw [hd.encoded_eq hd', hname'] at hname
  exact (Option.some.inj hname).symm

end Header

/-- For every well-formed name and every type there is a header. It has printable ASCII only, on one
line, and two quotes, which delimit the ASCII name, and no backslash. The name can be read out of it but
for the unsafe characters, so names that differ in others have different headers. -/
theorem disposition_sealed {filename : JsString} (h : Utf16.WellFormed filename) (mimeType : JsString) :
    ∃ header, contentDisposition mimeType filename = some header ∧ Sealed header (stripped filename) ∧
      ∀ mimeType' filename', stripped filename' ≠ stripped filename →
        contentDisposition mimeType' filename' ≠ some header := by
  obtain ⟨cs, _, hdecode⟩ := (stripped_wellFormed h).exists_encode
  have hencoded : encodeURIComponent (stripped filename) = some (Percent.encode uriUnescaped cs) := by
    rw [encodeURIComponent, hdecode]
    rfl
  obtain ⟨header, hheader⟩ : ∃ header, contentDisposition mimeType filename = some header := by
    rw [contentDisposition, hencoded]
    exact ⟨_, rfl⟩
  refine ⟨header, hheader, sealed_of_eq_some hheader, fun mimeType' filename' hne h' => hne ?_⟩
  exact (sealed_of_eq_some h').name_eq (sealed_of_eq_some hheader)

/-- A name with an override that reverses what follows it, a line break and a character that is a
pair. -/
theorem disposition_sealed_override :
    Utf16.WellFormed (Utf16.encode "a\u202e\r\n\"𝔸.png".toList) ∧
    ∃ header, contentDisposition (js "image/png") (Utf16.encode "a\u202e\r\n\"𝔸.png".toList) =
      some header ∧ Sealed header (stripped (Utf16.encode "a\u202e\r\n\"𝔸.png".toList)) := by
  have hwell := Utf16.wellFormed_encode "a\u202e\r\n\"𝔸.png".toList
  obtain ⟨header, hheader, hsealed, _⟩ := disposition_sealed hwell (js "image/png")
  exact ⟨hwell, header, hheader, hsealed⟩

/-! ## What an upload leaves -/

/-- `attr-char`, of RFC 5987. -/
def attrChar (c : CodeUnit) : Bool :=
  (48 ≤ c.val && c.val ≤ 57) || (65 ≤ c.val && c.val ≤ 90) || (97 ≤ c.val && c.val ≤ 122) ||
    (js "!#$&+-.^_`|~").contains c

/-- What follows the last slash or backslash. -/
def baseName (original : JsString) : JsString :=
  (original.reverse.takeWhile fun c => [c] ≠ js "/" && [c] ≠ js "\\").reverse

/-- The name as it is before it is cut. -/
def cleanedName (original : JsString) : JsString :=
  trim ((baseName original).filter fun c => !unsafeDisplay c)

/-- The file can be served under its name: there is a header, and in `filename*` there are only
percent-encoded octets and characters that may stand for themselves. -/
def Served (mimeType original : JsString) : Prop :=
  ∃ (header : JsString) (d : Disposition),
    contentDisposition mimeType (displayFilename original) = some header ∧ d.Reads header ∧
      Percent.conforming attrChar d.encoded = true

/-- The cut is not inside a pair, and no quote, parenthesis or asterisk is before it. -/
def Servable (original : JsString) : Prop :=
  (∀ c, (cleanedName original)[254]? = some c → Utf16.isHigh c = false) ∧
    ∀ c ∈ (cleanedName original).take 255, c ∉ js "'()*"

section Names

variable {original name : JsString} {c : CodeUnit}

theorem displayFilename_eq (original : JsString) : displayFilename original =
    if (cleanedName original).take 255 = [] then js "attachment" else (cleanedName original).take 255 :=
  rfl

theorem mem_of_mem_trim {s : JsString} (h : c ∈ trim s) : c ∈ s := by
  unfold trim at h
  have hleft := (List.dropWhile_sublist isSpace).subset (List.mem_reverse.mp h)
  exact (List.dropWhile_sublist isSpace).subset (List.mem_reverse.mp hleft)

/-- What was taken out for the display needs not be taken out for the header. -/
theorem stripped_display (original : JsString) :
    stripped (displayFilename original) = displayFilename original := by
  refine List.filter_eq_self.mpr fun c hc => ?_
  rw [displayFilename_eq] at hc
  split at hc
  · have hall : ∀ c ∈ js "attachment", (!unsafeHeader c) = true := List.all_eq_true.mp (by decide)
    exact hall c hc
  · exact (List.mem_filter.mp (mem_of_mem_trim (List.mem_of_mem_take hc))).2

theorem not_high_of_isSpace (h : isSpace c = true) : Utf16.isHigh c = false := by
  rw [Utf16.isHigh_eq_false_iff]
  simp only [isSpace, Bool.or_eq_true, Bool.and_eq_true, decide_eq_true_eq, beq_iff_eq] at h
  omega

theorem not_low_of_isSpace (h : isSpace c = true) : Utf16.isLow c = false := by
  rw [Utf16.isLow_eq_false_iff]
  simp only [isSpace, Bool.or_eq_true, Bool.and_eq_true, decide_eq_true_eq, beq_iff_eq] at h
  omega

theorem cleanedName_wellFormed (h : Utf16.WellFormed original) : Utf16.WellFormed (cleanedName original) := by
  have hslash : js "/" = [47] := by decide
  have hback : js "\\" = [92] := by decide
  have hbase : Utf16.WellFormed (baseName original) := by
    refine h.takeLastWhile fun u hu => ?_
    rw [Utf16.isHigh_eq_false_iff]
    simp only [hslash, hback, ne_eq, List.cons.injEq, and_true, Bool.and_eq_false_iff,
      decide_eq_false_iff_not, not_not] at hu
    rcases hu with rfl | rfl
    · exact .inl (by decide)
    · exact .inl (by decide)
  have hsafe := stripped_wellFormed hbase
  exact (hsafe.dropWhile fun u => not_high_of_isSpace).dropLastWhile fun u => not_low_of_isSpace

/-- The header of a name whose characters can be read. -/
theorem contentDisposition_of_decode (mimeType : JsString) {cs : List Char} (hsafe : stripped name = name)
    (hdecode : Utf16.decode name = some cs) : ∃ header d,
      contentDisposition mimeType name = some header ∧ Disposition.Reads d header ∧
        d.encoded = Percent.encode uriUnescaped cs := by
  have hencoded : encodeURIComponent (stripped name) = some (Percent.encode uriUnescaped cs) := by
    rw [hsafe, encodeURIComponent, hdecode]
    rfl
  obtain ⟨header, hheader⟩ : ∃ header, contentDisposition mimeType name = some header := by
    rw [contentDisposition, hencoded]
    exact ⟨_, rfl⟩
  obtain ⟨d, rfl, hd, hparts⟩ := contentDisposition_eq_some hheader
  have hfree : ∀ s : JsString, (∀ c ∈ s, harmless c = true) → doubleQuote ∉ s := by
    intro s hs hmem
    exact (harmless_iff.mp (hs doubleQuote hmem)).2.1 rfl
  refine ⟨d.header, d, hheader, ⟨rfl, hfree d.kind fun c hc => hparts c (.inl hc),
    hfree d.ascii fun c hc => hparts c (.inr (.inl hc)),
    hfree d.encoded fun c hc => hparts c (.inr (.inr hc))⟩, ?_⟩
  rw [hd] at hencoded
  exact Option.some.inj hencoded

/-- What `encodeURIComponent` leaves, and may not stand for itself, are four characters. -/
theorem conforming_iff {cs : List Char} (henc : Utf16.encode cs = name) :
    Percent.conforming attrChar (Percent.encode uriUnescaped cs) = true ↔ ∀ c ∈ name, c ∉ js "'()*" := by
  have hkept : ∀ n < 128, uriUnescaped (Char.ofNat n) = true →
      (attrChar (Fin.ofNat 65536 n) = true ↔ Fin.ofNat 65536 n ∉ js "'()*") := by decide +kernel
  have hfour : (js "'()*").all (fun u => decide (u.val < 128) && uriUnescaped (Char.ofNat u.val)) = true := by
    decide
  rw [Percent.conforming_encode uriUnescaped_plain, ← henc]
  constructor
  · intro hall u hu hspecial
    obtain ⟨c, hc, hunits⟩ := List.mem_flatMap.mp hu
    obtain ⟨hlt, hunescaped⟩ := Bool.and_eq_true_iff.mp (List.all_eq_true.mp hfour u hspecial)
    have hsmall : u.val < 128 := of_decide_eq_true hlt
    rcases Utf16.units_cases c with ⟨v, hv, _, _, hchar⟩ | ⟨hi, lo, hv, high, low, _⟩
    · rw [hv, List.mem_singleton] at hunits
      subst hunits
      have hnat : c.toNat = u.val := by
        rw [← hchar]
        exact Utf16.toNat_ofNat (.inl (by omega))
      rw [hchar] at hunescaped
      have hattr := hall c hc hunescaped
      rw [hkept c.toNat (by omega) (by rwa [Char.ofNat_toNat]), hnat] at hattr
      exact hattr (by simpa using hspecial)
    · rw [Utf16.isHigh_iff] at high
      rw [Utf16.isLow_iff] at low
      rw [hv] at hunits
      simp only [List.mem_cons, List.not_mem_nil, or_false] at hunits
      rcases hunits with rfl | rfl
      · omega
      · omega
  · intro hall c hc hunescaped
    have hlt := (uriUnescaped_plain c hunescaped).1
    refine (hkept c.toNat hlt (by rwa [Char.ofNat_toNat])).mpr (hall _ ?_)
    refine List.mem_flatMap.mpr ⟨c, hc, ?_⟩
    rw [Percent.units_plain hlt]
    exact List.mem_cons_self

/-- A name without unsafe characters can be served if it is well-formed and has none of the four. -/
theorem served_name_iff (mimeType : JsString) (hsafe : stripped name = name) :
    (∃ header d, contentDisposition mimeType name = some header ∧ Disposition.Reads d header ∧
      Percent.conforming attrChar d.encoded = true) ↔
      Utf16.WellFormed name ∧ ∀ c ∈ name, c ∉ js "'()*" := by
  constructor
  · rintro ⟨header, d, hheader, hreads, hconform⟩
    obtain ⟨d', hd', hencoded, hparts⟩ := contentDisposition_eq_some hheader
    rw [hsafe] at hencoded
    obtain ⟨cs, hdecode, hvalue⟩ := Option.map_eq_some_iff.mp hencoded
    obtain ⟨hwell, henc⟩ := Utf16.encode_of_decode hdecode
    obtain ⟨header', d'', hheader', hreads', hvalue'⟩ :=
      contentDisposition_of_decode mimeType hsafe hdecode
    obtain rfl : header = header' := Option.some.inj (hheader.symm.trans hheader')
    rw [hreads.encoded_eq hreads', hvalue', conforming_iff henc] at hconform
    exact ⟨hwell, hconform⟩
  · rintro ⟨hwell, hfour⟩
    obtain ⟨cs, henc, hdecode⟩ := hwell.exists_encode
    obtain ⟨header, d, hheader, hreads, hvalue⟩ := contentDisposition_of_decode mimeType hsafe hdecode
    refine ⟨header, d, hheader, hreads, ?_⟩
    rw [hvalue]
    exact (conforming_iff henc).mpr hfour

end Names

/-- A file that was uploaded under a well-formed name can be served exactly if the cleaned name is not
cut inside a pair and has no quote, parenthesis or asterisk before the cut. -/
theorem served_iff {original : JsString} (h : Utf16.WellFormed original) (mimeType : JsString) :
    Served mimeType original ↔ Servable original := by
  have hwell := cleanedName_wellFormed h
  unfold Served Servable
  rw [served_name_iff mimeType (stripped_display original), displayFilename_eq, ← hwell.take_iff 254]
  split
  · rename_i hempty
    rw [hempty]
    have hdecode : Utf16.decode (js "attachment") = some "attachment".toList := by decide +kernel
    have hfour : (js "attachment").all (fun c => !(js "'()*").contains c) = true := by decide +kernel
    have hattachment : ∀ c ∈ js "attachment", c ∉ js "'()*" := by
      intro c hc
      simpa using List.all_eq_true.mp hfour c hc
    exact ⟨fun _ => ⟨.nil, nofun⟩, fun _ => ⟨(Utf16.encode_of_decode hdecode).1, hattachment⟩⟩
  · rfl

/-- An upload from a directory, under a name with letters beyond ASCII. -/
theorem served_basename :
    Served (js "application/pdf") (Utf16.encode "C:\\tmp\\sözleşme.pdf ".toList) := by
  have hwell := Utf16.wellFormed_encode "C:\\tmp\\sözleşme.pdf ".toList
  refine (served_iff hwell (js "application/pdf")).mpr ⟨?_, ?_⟩
  · have hshort : (cleanedName (Utf16.encode "C:\\tmp\\sözleşme.pdf ".toList))[254]? = none := by
      decide +kernel
    rw [hshort]
    exact nofun
  · have hfour : ((cleanedName (Utf16.encode "C:\\tmp\\sözleşme.pdf ".toList)).take 255).all
        (fun c => !(js "'()*").contains c) = true := by decide +kernel
    intro c hc
    simpa using List.all_eq_true.mp hfour c hc

/-- 254 letters and a character that is a pair. -/
def longName : JsString := Utf16.encode (List.replicate 254 'a' ++ ['😀'])

/-- The name is cut inside the pair and cannot be encoded any more. A quote is served, in a value that
does not conform. -/
theorem cut_pair_not_served : Utf16.WellFormed longName ∧
    contentDisposition (js "image/png") (displayFilename longName) = none ∧
    ¬ Served (js "image/png") longName ∧
    contentDisposition (js "image/png") (displayFilename (js "Ada's.png")) =
      some (js "inline; filename=\"Ada's.png\"; filename*=UTF-8''Ada's.png") ∧
    ¬ Served (js "image/png") (js "Ada's.png") := by
  have hnone : contentDisposition (js "image/png") (displayFilename longName) = none := by decide +kernel
  refine ⟨Utf16.wellFormed_encode _, hnone, ?_, by decide +kernel, fun h => ?_⟩
  · rintro ⟨header, d, hheader, _⟩
    rw [hnone] at hheader
    cases hheader
  · have hname : displayFilename (js "Ada's.png") = js "Ada's.png" := by decide +kernel
    have hquote : (39 : CodeUnit) ∈ js "Ada's.png" := by decide +kernel
    unfold Served at h
    rw [served_name_iff (js "image/png") (stripped_display _), hname] at h
    exact h.2 39 hquote (by decide +kernel)

end AttachmentService
end Kurul
