import Kurul.Urlencoded

/-!
# Kurul.WhatwgUrl

URLs as browsers and the runtime read them: a text becomes a scheme, credentials, a host, a port, a path,
a query and a fragment, perhaps with the help of a base. What a host may be is a parameter. The scheme
`file` is not read.

* `parseAuthority_eq`  — credentials, host and port as they are written.
* `parse_authority`    — a URI that names its authority.
* `parse_pathAbsolute` — a path alone stays where its base is.
-/

namespace Whatwg

abbrev Text : Type := List Char

/-- What is behind the authority: segments, or one text for a scheme like `mailto`. -/
inductive Path where
  | flat (text : Text)
  | segments (segments : List Text)
  deriving DecidableEq

structure Url (Host : Type) where
  scheme : Text
  username : Text
  password : Text
  host : Option Host
  port : Option Nat
  path : Path
  query : Option Text
  fragment : Option Text
  deriving DecidableEq

/-! ## Characters -/

def isAlpha (c : Char) : Bool := ('A' ≤ c && c ≤ 'Z') || ('a' ≤ c && c ≤ 'z')

def isDigit (c : Char) : Bool := '0' ≤ c && c ≤ '9'

def lower (c : Char) : Char := if 'A' ≤ c ∧ c ≤ 'Z' then Char.ofNat (c.toNat + 32) else c

def isSchemeChar (c : Char) : Bool := isAlpha c || isDigit c || c = '+' || c = '-' || c = '.'

/-- The special schemes that are read here, with their ports. -/
def specialSchemes : List (Text × Nat) :=
  [("ftp".toList, 21), ("http".toList, 80), ("https".toList, 443), ("ws".toList, 80), ("wss".toList, 443)]

def isSpecial (scheme : Text) : Bool := (specialSchemes.map Prod.fst).contains scheme

def defaultPort (scheme : Text) : Option Nat := (specialSchemes.find? fun e => e.1 = scheme).map Prod.snd

/-- Percent-encode the characters of a set, which holds all that are not ASCII and no `%`. -/
def percentEncode (set : Char → Bool) (s : Text) : Text :=
  s.flatMap fun c => if set c then Urlencoded.escape (fun _ => false) (String.utf8EncodeChar c) else [c]

def inC0Set (c : Char) : Bool := c.toNat ≤ 0x1f || 0x7e < c.toNat

def inFragmentSet (c : Char) : Bool := inC0Set c || [' ', Char.ofNat 34, '<', '>', Char.ofNat 96].contains c

def inQuerySet (c : Char) : Bool := inC0Set c || [' ', Char.ofNat 34, '#', '<', '>'].contains c

def inSpecialQuerySet (c : Char) : Bool := inQuerySet c || c = Char.ofNat 39

def inPathSet (c : Char) : Bool :=
  inQuerySet c || ['?', '^', Char.ofNat 96, Char.ofNat 123, Char.ofNat 125].contains c

def inUserinfoSet (c : Char) : Bool :=
  inPathSet c || ['/', ':', ';', '=', '@', '[', '\\', ']', '|'].contains c

/-- What is decided of every character of a list holds of each. -/
theorem forall_mem_of_all {P : Char → Prop} [DecidablePred P] {s : Text}
    (h : s.all (fun c => decide (P c)) = true) : ∀ c ∈ s, P c := fun c hc =>
  of_decide_eq_true (List.all_eq_true.mp h c hc)

section PercentEncode

variable {set : Char → Bool} {c : Char} {s t : Text}

theorem isAlpha_iff : isAlpha c = true ↔ 65 ≤ c.toNat ∧ c.toNat ≤ 90 ∨ 97 ≤ c.toNat ∧ c.toNat ≤ 122 := by
  simp only [isAlpha, Bool.or_eq_true, Bool.and_eq_true, decide_eq_true_eq, Char.le_def, UInt32.le_iff_toNat_le]
  rfl

theorem isDigit_iff : isDigit c = true ↔ 48 ≤ c.toNat ∧ c.toNat ≤ 57 := by
  simp only [isDigit, Bool.and_eq_true, decide_eq_true_eq, Char.le_def, UInt32.le_iff_toNat_le]
  rfl

theorem percentEncode_append (s t : Text) :
    percentEncode set (s ++ t) = percentEncode set s ++ percentEncode set t := List.flatMap_append

theorem percentEncode_cons (c : Char) (s : Text) :
    percentEncode set (c :: s) = percentEncode set [c] ++ percentEncode set s := percentEncode_append [c] s

theorem percentEncode_eq_self (h : ∀ c ∈ s, set c = false) : percentEncode set s = s := by
  induction s with
  | nil => rfl
  | cons c s ih =>
    obtain ⟨hc, hs⟩ := List.forall_mem_cons.mp h
    rw [percentEncode_cons, ih hs, percentEncode, List.flatMap_singleton, if_neg (by simp [hc])]
    rfl

theorem percentEncode_eq_nil_iff : percentEncode set s = [] ↔ s = [] := by
  cases s with
  | nil => simp [percentEncode]
  | cons c s =>
    obtain ⟨b, bytes, hbytes⟩ := List.exists_cons_of_ne_nil (String.utf8EncodeChar_ne_nil (c := c))
    rw [percentEncode, List.flatMap_cons, hbytes]
    split <;> simp [Urlencoded.escape]

end PercentEncode

def Path.serialize : Path → Text
  | .flat text => text
  | .segments l => l.flatMap fun segment => '/' :: segment

/-! ## Parsing -/

def isEdge (c : Char) : Bool := c.toNat ≤ 0x20

def isTabOrNewline (c : Char) : Bool := c.toNat = 9 || c.toNat = 10 || c.toNat = 13

/-- Controls and spaces at both ends are not part of a URL, tabs and newlines nowhere. -/
def strip (input : Text) : Text :=
  ((input.dropWhile isEdge).reverse.dropWhile isEdge).reverse.filter fun c => !isTabOrNewline c

/-- The scheme in front of a colon, and what is behind it. -/
def splitScheme : Text → Option (Text × Text)
  | [] => none
  | c :: s =>
    if isAlpha c then
      match s.dropWhile isSchemeChar with
      | ':' :: rest => some ((c :: s.takeWhile isSchemeChar).map lower, rest)
      | _ => none
    else none

def isSlash (special : Bool) (c : Char) : Bool := c = '/' || (special && c = '\\')

/-- Where an authority ends. -/
def endsAuthority (special : Bool) (c : Char) : Bool := isSlash special c || c = '?' || c = '#'

/-- A host and, behind a colon that is in no brackets, its port. -/
def splitPort : (brackets : Bool) → Text → Text × Option Text
  | _, [] => ([], none)
  | brackets, c :: s =>
    if c = ':' ∧ brackets = false then ([], some s)
    else
      let r := splitPort (if c = '[' then true else if c = ']' then false else brackets) s
      (c :: r.1, r.2)

/-- The number of a port; outside an option if there may be none such. -/
def parsePort (scheme : Text) (digits : Text) : Option (Option Nat) :=
  if digits.all isDigit then
    if digits = [] then some none
    else
      let n := digits.foldl (fun n c => 10 * n + (c.toNat - 48)) 0
      if 65535 < n then none else some (if defaultPort scheme = some n then none else some n)
  else none

section Parse

variable {Host : Type} (parseHost : (special : Bool) → Text → Option Host)

/-- Credentials, host and port. -/
def parseAuthority (scheme authority : Text) : Option (Text × Text × Option Host × Option Nat) := do
  let hostPort := (authority.reverse.takeWhile (· ≠ '@')).reverse
  let credentials := authority.take (authority.length - hostPort.length - 1)
  let (hostText, portText) := splitPort false hostPort
  if hostText = [] ∧ ('@' ∈ authority ∨ portText.isSome ∨ isSpecial scheme) then none
  else
    let host ← parseHost (isSpecial scheme) hostText
    let port ← parsePort scheme (portText.getD [])
    return (percentEncode inUserinfoSet (credentials.takeWhile (· ≠ ':')),
      percentEncode inUserinfoSet (credentials.dropWhile (· ≠ ':')).tail, some host, port)

def isSingleDot (s : Text) : Bool := s.map lower = ['.'] || s.map lower = ['%', '2', 'e']

def isDoubleDot (s : Text) : Bool :=
  [['.', '.'], ['.', '%', '2', 'e'], ['%', '2', 'e', '.'], ['%', '2', 'e', '%', '2', 'e']].contains (s.map lower)

/-- The pieces between the slashes, after the segments before them. -/
def addSegments (segments : List Text) : List Text → List Text
  | [] => segments
  | piece :: rest =>
    let stays := if rest.isEmpty then [[]] else []
    let next :=
      if isDoubleDot piece then segments.dropLast ++ stays
      else if isSingleDot piece then segments ++ stays
      else segments ++ [percentEncode inPathSet piece]
    addSegments next rest

/-- The query and the fragment that a text goes on with. -/
def parseQuery (special : Bool) (s : Text) : Option Text × Option Text :=
  let set := if special then inSpecialQuerySet else inQuerySet
  (match s with
    | '?' :: rest => some (percentEncode set (rest.takeWhile (· ≠ '#')))
    | _ => none,
    match s.dropWhile (· ≠ '#') with
    | '#' :: rest => some (percentEncode inFragmentSet rest)
    | _ => none)

def endsPath (c : Char) : Bool := c = '?' || c = '#'

/-- A path behind the segments there are, and what it goes on with. -/
def parsePath (url : Url Host) (segments : List Text) (s : Text) : Url Host :=
  let special := isSpecial url.scheme
  let pieces := (s.takeWhile fun c => !endsPath c).splitOnP (isSlash special)
  let more := parseQuery special (s.dropWhile fun c => !endsPath c)
  { url with path := .segments (addSegments segments pieces), query := more.1, fragment := more.2 }

/-- What is behind an authority. -/
def parsePathStart (url : Url Host) (s : Text) : Url Host :=
  match s with
  | [] => if isSpecial url.scheme then parsePath url [] [] else url
  | c :: rest =>
    if isSlash (isSpecial url.scheme) c then parsePath url [] rest
    else if endsPath c ∧ isSpecial url.scheme = false then
      let more := parseQuery false s
      { url with query := more.1, fragment := more.2 }
    else parsePath url [] s

/-- A URL of a scheme and nothing else. -/
def bare (scheme : Text) : Url Host := ⟨scheme, [], [], none, none, .segments [], none, none⟩

def parseWithAuthority (scheme s : Text) : Option (Url Host) := do
  let ends := endsAuthority (isSpecial scheme)
  let (username, password, host, port) ← parseAuthority parseHost scheme (s.takeWhile fun c => !ends c)
  let url := { (bare scheme : Url Host) with username, password, host, port }
  return parsePathStart url (s.dropWhile fun c => !ends c)

/-- The segments of a base's path. -/
def Path.toSegments : Path → List Text
  | .flat _ => []
  | .segments l => l

/-- Relative to a base with segments. -/
def parseRelative (base : Url Host) (s : Text) : Option (Url Host) :=
  let special := isSpecial base.scheme
  match s with
  | [] => some { base with fragment := none }
  | c :: rest =>
    if isSlash special c then
      match rest with
      | d :: more =>
        if special && isSlash special d then
          parseWithAuthority parseHost base.scheme (more.dropWhile fun c => c = '/' || c = '\\')
        else if d = '/' then parseWithAuthority parseHost base.scheme more
        else some (parsePath base [] rest)
      | [] => some (parsePath base [] [])
    else if endsPath c then
      let more := parseQuery special s
      some { base with query := if c = '?' then more.1 else base.query, fragment := more.2 }
    else some (parsePath base base.path.toSegments.dropLast s)

def parse (base : Option (Url Host)) (input : Text) : Option (Url Host) :=
  let s := strip input
  match splitScheme s with
  | some (scheme, rest) =>
    if scheme = "file".toList then none
    else if isSpecial scheme then
      match base with
      | some b =>
        if b.scheme = scheme ∧ ¬ ['/', '/'] <+: rest then parseRelative parseHost b rest
        else parseWithAuthority parseHost scheme (rest.dropWhile fun c => c = '/' || c = '\\')
      | none => parseWithAuthority parseHost scheme (rest.dropWhile fun c => c = '/' || c = '\\')
    else match rest with
      | '/' :: '/' :: rest => parseWithAuthority parseHost scheme rest
      | '/' :: rest => some (parsePath (bare scheme) [] rest)
      | _ =>
        let more := parseQuery false (rest.dropWhile fun c => !endsPath c)
        some { (bare scheme : Url Host) with
          path := .flat (percentEncode inC0Set (rest.takeWhile fun c => !endsPath c))
          query := more.1, fragment := more.2 }
  | none => do
    let b ← base
    match b.path with
    | .flat _ =>
      match s with
      | '#' :: rest => some { b with fragment := some (percentEncode inFragmentSet rest) }
      | _ => none
    | .segments _ => parseRelative parseHost b s

end Parse

/-! ## A URI in full -/

/-- Nothing is taken off a text without controls and spaces. -/
theorem strip_eq {s : Text} (h : ∀ c ∈ s, 0x20 < c.toNat) : strip s = s := by
  have hdrop : ∀ {s : Text}, (∀ c ∈ s, 0x20 < c.toNat) → s.dropWhile isEdge = s := by
    intro s h
    cases s with
    | nil => rfl
    | cons c s =>
      have hc := h c List.mem_cons_self
      rw [List.dropWhile_cons, if_neg (by simp [isEdge]; omega)]
  have hreverse : ∀ c ∈ s.reverse, 0x20 < c.toNat := fun c hc => h c (List.mem_reverse.mp hc)
  rw [strip, hdrop h, hdrop hreverse, List.reverse_reverse]
  refine List.filter_eq_self.mpr fun c hc => ?_
  have hc := h c hc
  simp [isTabOrNewline]
  omega

/-- Text in front of something that may be missing, and text behind it. -/
def orNothing (start : Text) (s : Option Text) (stop : Text) : Text :=
  match s with
  | some s => start ++ s ++ stop
  | none => []

theorem forall_mem_orNothing {P : Char → Prop} {start stop : Text} {s : Option Text} (hstart : ∀ c ∈ start, P c)
    (hs : ∀ t ∈ s, ∀ c ∈ t, P c) (hstop : ∀ c ∈ stop, P c) : ∀ c ∈ orNothing start s stop, P c := by
  cases s with
  | none => exact nofun
  | some t =>
    intro c hc
    rw [orNothing, List.mem_append, List.mem_append] at hc
    rcases hc with (hc | hc) | hc
    · exact hstart c hc
    · exact hs t rfl c hc
    · exact hstop c hc

def authorityText (userinfo : Option Text) (host : Text) (port : Option Text) : Text :=
  orNothing [] userinfo ['@'] ++ (host ++ orNothing [':'] port [])

section Authority

variable {Host : Type} {parseHost : (special : Bool) → Text → Option Host} {base : Option (Url Host)}
variable {scheme host rest inner s tail : Text} {userinfo port : Option Text}

/-- A host that is read up to its port. -/
def BeforePort (host : Text) : Prop :=
  ∀ rest, splitPort false (host ++ rest) = (host ++ (splitPort false rest).1, (splitPort false rest).2)

theorem beforePort_of_noColon (h : ∀ c ∈ host, c ≠ ':' ∧ c ≠ '[') : BeforePort host := by
  intro rest
  induction host with
  | nil => rfl
  | cons c s ih =>
    obtain ⟨hc, hs⟩ := List.forall_mem_cons.mp h
    rw [List.cons_append, splitPort, if_neg (by simp [hc.1])]
    simp only [hc.2, if_false, ite_self, ih hs]
    rfl

theorem beforePort_brackets (h : ∀ c ∈ inner, c ≠ '[' ∧ c ≠ ']') : BeforePort ('[' :: (inner ++ [']'])) := by
  intro rest
  have main : splitPort true (inner ++ [']'] ++ rest) =
      (inner ++ [']'] ++ (splitPort false rest).1, (splitPort false rest).2) := by
    induction inner with
    | nil => simp [splitPort]
    | cons c s ih =>
      obtain ⟨hc, hs⟩ := List.forall_mem_cons.mp h
      rw [List.cons_append, List.cons_append, splitPort, if_neg (by simp)]
      simp only [hc.1, hc.2, if_false, ih hs]
      rfl
  rw [List.cons_append, splitPort, if_neg (by simp)]
  simp only [if_true, main]
  rfl

theorem parseAuthority_eq (hne : host ≠ []) (hhost : '@' ∉ host) (hport : ∀ p ∈ port, '@' ∉ p)
    (hbefore : BeforePort host) :
    parseAuthority parseHost scheme (authorityText userinfo host port) =
      (parseHost (isSpecial scheme) host).bind fun h => (parsePort scheme (port.getD [])).map fun p =>
        (percentEncode inUserinfoSet ((userinfo.getD []).takeWhile (· ≠ ':')),
          percentEncode inUserinfoSet ((userinfo.getD []).dropWhile (· ≠ ':')).tail, some h, p) := by
  have hsplit : splitPort false (host ++ orNothing [':'] port []) = (host, port) := by
    rw [hbefore]
    cases port with
    | none => simp [orNothing, splitPort]
    | some p => simp [orNothing, splitPort]
  have hat : ∀ c ∈ (host ++ orNothing [':'] port []).reverse, decide (c ≠ '@') = true := by
    intro c hc
    refine decide_eq_true fun heq => ?_
    subst heq
    rw [List.mem_reverse, List.mem_append] at hc
    rcases hc with hc | hc
    · exact hhost hc
    · cases port with
      | none => cases hc
      | some p => exact hport p rfl (by simpa [orNothing] using hc)
  unfold authorityText
  generalize host ++ orNothing [':'] port [] = hostPort at hsplit hat
  have hlast : ((orNothing [] userinfo ['@'] ++ hostPort).reverse.takeWhile (· ≠ '@')).reverse = hostPort := by
    rw [List.reverse_append, List.takeWhile_append_of_pos hat]
    cases userinfo with
    | none => simp [orNothing]
    | some t => simp [orNothing]
  have hcredentials : (orNothing [] userinfo ['@'] ++ hostPort).take
      ((orNothing [] userinfo ['@'] ++ hostPort).length - hostPort.length - 1) = userinfo.getD [] := by
    cases userinfo with
    | none => simp [orNothing]
    | some t =>
      have hlength : ([] ++ t ++ ['@'] ++ hostPort).length - hostPort.length - 1 = t.length := by
        simp
        omega
      rw [orNothing, hlength]
      simp
  unfold parseAuthority
  simp only [hlast, hcredentials, hsplit, hne, false_and, if_false]
  cases parseHost (isSpecial scheme) host with
  | none => rfl
  | some h => cases parsePort scheme (port.getD []) <;> rfl

/-- An authority is read up to what ends it. -/
theorem parseWithAuthority_eq (hauthority : ∀ c ∈ s, endsAuthority (isSpecial scheme) c = false)
    (htail : ∀ c ∈ tail.head?, endsAuthority (isSpecial scheme) c = true) :
    parseWithAuthority parseHost scheme (s ++ tail) =
      (parseAuthority parseHost scheme s).map fun (username, password, host, port) =>
        parsePathStart { (bare scheme : Url Host) with username, password, host, port } tail := by
  have hall : ∀ c ∈ s, (!endsAuthority (isSpecial scheme) c) = true := fun c hc => by simp [hauthority c hc]
  have hnone : tail.takeWhile (fun c => !endsAuthority (isSpecial scheme) c) = [] ∧
      tail.dropWhile (fun c => !endsAuthority (isSpecial scheme) c) = tail := by
    cases tail with
    | nil => exact ⟨rfl, rfl⟩
    | cons c tail => simp [htail c rfl]
  unfold parseWithAuthority
  simp only [List.takeWhile_append_of_pos hall, List.dropWhile_append_of_pos hall, hnone, List.append_nil]
  cases parseAuthority parseHost scheme s <;> rfl

theorem parse_authority (hclean : ∀ c ∈ s, 0x20 < c.toNat)
    (hscheme : splitScheme s = some (scheme, '/' :: '/' :: rest)) (hfile : scheme ≠ "file".toList)
    (hspecial : isSpecial scheme = false) :
    parse parseHost base s = parseWithAuthority parseHost scheme rest := by
  unfold parse
  simp only [strip_eq hclean, hscheme, hfile, hspecial, if_false]
  rfl

end Authority

/-! ## A path alone -/

section PathAbsolute

variable {Host : Type} {parseHost : (special : Bool) → Text → Option Host} {base : Url Host} {s : Text}

/-- A path is read behind the host of its base, unless it starts like an authority. -/
theorem parse_pathAbsolute (hbase : ∃ l, base.path = .segments l) (hs : ∀ c ∈ '/' :: s, 0x20 < c.toNat)
    (hauthority : ∀ c ∈ s.head?, c ≠ '/' ∧ c ≠ '\\') :
    parse parseHost (some base) ('/' :: s) = some (parsePath base [] s) := by
  obtain ⟨l, hpath⟩ := hbase
  have hscheme : splitScheme ('/' :: s) = none := rfl
  have hslash : isSlash (isSpecial base.scheme) '/' = true := by simp [isSlash]
  unfold parse
  simp only [strip_eq hs, hscheme, Option.bind_eq_bind, Option.bind_some, hpath]
  unfold parseRelative
  simp only [hslash, if_true]
  cases s with
  | nil => rfl
  | cons d more =>
    obtain ⟨hne, hback⟩ := hauthority d rfl
    simp [isSlash, hne, hback]

end PathAbsolute

end Whatwg
