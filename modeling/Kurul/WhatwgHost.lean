import Kurul.WhatwgUrl

/-!
# Kurul.WhatwgHost

The hosts of URLs: a text, or an IPv6 address in brackets. How a special scheme reads a domain is a
parameter.

* `mem_of_parseIpv6` — which characters an address is written with.
-/

namespace Whatwg

/-- The pieces of an address are 16 bits each. -/
inductive Host where
  | text (text : Text)
  | ipv6 (pieces : List Nat)
  deriving DecidableEq

def isForbiddenHost (c : Char) : Bool :=
  [0, 9, 10, 13].contains c.toNat ||
    [' ', '#', '/', ':', '<', '>', '?', '@', '[', '\\', ']', '^', '|'].contains c

/-! ## IPv6 addresses -/

def hexNumber (digits : Text) : Nat := digits.foldl (fun n c => 16 * n + (Urlencoded.hexValue c).getD 0) 0

def isHexDigit (c : Char) : Bool := (Urlencoded.hexValue c).isSome

/-- One number of an IPv4 address: up to 255, without zeros in front. -/
def ipv4Number (digits : Text) : Option Nat :=
  if digits ≠ [] ∧ digits.all isDigit ∧ (digits.head? = some '0' → digits = ['0']) then
    let n := digits.foldl (fun n c => 10 * n + (c.toNat - 48)) 0
    if n ≤ 255 then some n else none
  else none

/-- The last two pieces, written as an IPv4 address. -/
def ipv4Pieces (s : Text) : Option (List Nat) :=
  match (s.splitOn '.').map ipv4Number with
  | [some a, some b, some c, some d] => some [256 * a + b, 256 * c + d]
  | _ => none

/-- The pieces of a text behind those there are, at most so many more; and the place, if there is one,
where zeros are left out. -/
def ipv6Pieces : (room : Nat) → List Nat → Option Nat → Text → Option (List Nat × Option Nat)
  | _, pieces, compress, [] => some (pieces, compress)
  | 0, _, _, _ :: _ => none
  | room + 1, pieces, compress, c :: s =>
    if c = ':' then
      if compress.isSome then none else ipv6Pieces room (pieces ++ [0]) (some (pieces.length + 1)) s
    else
      let digits := ((c :: s).takeWhile isHexDigit).take 4
      match (c :: s).drop digits.length with
      | [] => some (pieces ++ [hexNumber digits], compress)
      | '.' :: _ =>
        if digits = [] ∨ room = 0 then none
        else (ipv4Pieces (c :: s)).map fun last => (pieces ++ last, compress)
      | ':' :: rest => if rest = [] then none else ipv6Pieces room (pieces ++ [hexNumber digits]) compress rest
      | _ => none

/-- A colon is at the start only with another. -/
def ipv6Start : Text → Option (List Nat × Option Nat)
  | ':' :: ':' :: rest => ipv6Pieces 7 [0] (some 1) rest
  | ':' :: _ => none
  | s => ipv6Pieces 8 [] none s

/-- The zeros that were left out. -/
def fillZeros : List Nat × Option Nat → Option (List Nat)
  | (pieces, some k) => some (pieces.take k ++ List.replicate (8 - pieces.length) 0 ++ pieces.drop k)
  | (pieces, none) => if pieces.length = 8 then some pieces else none

def parseIpv6 (s : Text) : Option (List Nat) := (ipv6Start s).bind fillZeros

section Chars

variable {c : Char} {s : Text}

theorem isHexDigit_of_isDigit (h : isDigit c = true) : isHexDigit c = true := by
  rw [isHexDigit, Urlencoded.hexValue, if_pos (isDigit_iff.mp h)]
  rfl

theorem mem_splitOn (sep : Char) (h : c ∈ s) : c = sep ∨ ∃ part ∈ s.splitOn sep, c ∈ part := by
  induction s with
  | nil => cases h
  | cons d s ih =>
    obtain ⟨first, rest, hsplit⟩ := List.exists_cons_of_ne_nil (List.splitOn_ne_nil sep s)
    rw [List.splitOn_cons_eq_if_modifyHead]
    rw [hsplit] at ih ⊢
    by_cases hd : d = sep
    · rw [if_pos (by simpa using hd)]
      rcases List.mem_cons.mp h with rfl | h
      · exact .inl hd
      · exact (ih h).imp_right fun ⟨part, hpart, hc⟩ => ⟨part, List.mem_cons_of_mem _ hpart, hc⟩
    · rw [if_neg (by simpa using hd), List.modifyHead_cons]
      rcases List.mem_cons.mp h with rfl | h
      · exact .inr ⟨_, List.mem_cons_self, List.mem_cons_self⟩
      · refine (ih h).imp_right fun ⟨part, hpart, hc⟩ => ?_
        rcases List.mem_cons.mp hpart with rfl | hpart
        · exact ⟨_, List.mem_cons_self, List.mem_cons_of_mem _ hc⟩
        · exact ⟨part, List.mem_cons_of_mem _ hpart, hc⟩

theorem mem_of_ipv4Pieces {l : List Nat} (h : ipv4Pieces s = some l) (hc : c ∈ s) :
    isHexDigit c = true ∨ c = '.' := by
  rcases mem_splitOn '.' hc with rfl | ⟨part, hpart, hc⟩
  · exact .inr rfl
  · unfold ipv4Pieces at h
    split at h
    case h_1 hnumbers =>
      have hsome : ∀ n ∈ (s.splitOn '.').map ipv4Number, n.isSome = true := by
        rw [hnumbers]
        simp
      have hn := hsome _ (List.mem_map_of_mem hpart)
      unfold ipv4Number at hn
      split at hn
      case isTrue hdigits => exact .inl (isHexDigit_of_isDigit (List.all_eq_true.mp hdigits.2.1 c hc))
      case isFalse => cases hn
    case h_2 => cases h

theorem mem_of_ipv6Pieces {room : Nat} {pieces : List Nat} {compress : Option Nat}
    {r : List Nat × Option Nat} (h : ipv6Pieces room pieces compress s = some r) (hc : c ∈ s) :
    isHexDigit c = true ∨ c = ':' ∨ c = '.' := by
  induction room generalizing pieces compress s with
  | zero =>
    cases s with
    | nil => cases hc
    | cons d s => cases h
  | succ room ih =>
    cases s with
    | nil => cases hc
    | cons d s =>
      rw [ipv6Pieces] at h
      split at h
      case isTrue hcolon =>
        split at h
        · cases h
        · rcases List.mem_cons.mp hc with rfl | hc
          · exact .inr (.inl hcolon)
          · exact ih h hc
      case isFalse =>
        dsimp only at h
        generalize hdigits : ((d :: s).takeWhile isHexDigit).take 4 = digits at h
        have hhex : ∀ c ∈ digits, isHexDigit c = true := by
          intro c hc
          rw [← hdigits] at hc
          exact List.mem_takeWhile_imp (List.mem_of_mem_take hc)
        have hstart : digits <+: d :: s := by
          rw [← hdigits]
          exact (List.take_prefix 4 _).trans (List.takeWhile_prefix _)
        have hall : d :: s = digits ++ (d :: s).drop digits.length := List.prefix_iff_eq_append.mp hstart |>.symm
        have hmem : c ∈ digits ∨ c ∈ (d :: s).drop digits.length := by
          rw [hall] at hc
          exact List.mem_append.mp hc
        split at h
        case h_1 hnil =>
          rw [hnil] at hmem
          exact .inl (hhex c (hmem.resolve_right List.not_mem_nil))
        case h_2 =>
          split at h
          · cases h
          · obtain ⟨last, hlast, -⟩ := Option.map_eq_some_iff.mp h
            exact (mem_of_ipv4Pieces hlast hc).imp_right .inr
        case h_3 rest hcolon =>
          split at h
          · cases h
          · rw [hcolon, List.mem_cons] at hmem
            rcases hmem with hc | rfl | hc
            · exact .inl (hhex c hc)
            · exact .inr (.inl rfl)
            · exact ih h hc
        case h_4 => cases h

/-- An address is written with hexadecimal digits, colons and dots. -/
theorem mem_of_parseIpv6 {pieces : List Nat} (h : parseIpv6 s = some pieces) (hc : c ∈ s) :
    isHexDigit c = true ∨ c = ':' ∨ c = '.' := by
  obtain ⟨r, hr, -⟩ := Option.bind_eq_some_iff.mp h
  unfold ipv6Start at hr
  split at hr
  · rcases List.mem_cons.mp hc with rfl | hc
    · exact .inr (.inl rfl)
    rcases List.mem_cons.mp hc with rfl | hc
    · exact .inr (.inl rfl)
    exact mem_of_ipv6Pieces hr hc
  · cases hr
  · exact mem_of_ipv6Pieces hr hc

end Chars

/-- How many zeros there are from a place on. -/
def zerosAt (pieces : List Nat) (i : Nat) : Nat := ((pieces.drop i).takeWhile (· = 0)).length

def joinPieces (pieces : List Nat) : Text := [':'].intercalate (pieces.map (Nat.toDigits 16))

/-- The first of the longest runs of zeros is left out, unless it is one zero only. -/
def serializeIpv6 (pieces : List Nat) : Text :=
  let runs := (List.range pieces.length).map (zerosAt pieces)
  let longest := runs.foldl max 0
  let start := runs.idxOf longest
  if 1 < longest then joinPieces (pieces.take start) ++ [':', ':'] ++ joinPieces (pieces.drop (start + longest))
  else joinPieces pieces

example : (parseIpv6 "1::a:0:0:192.0.2.7".toList).map serializeIpv6 = some "1::a:0:0:c000:207".toList := by
  decide +kernel

/-! ## Hosts -/

/-- A host of a scheme that is not special. -/
def parseOpaqueHost (s : Text) : Option Host :=
  if s.any isForbiddenHost then none else some (.text (percentEncode inC0Set s))

def parseHost (parseDomain : Text → Option Host) (special : Bool) (s : Text) : Option Host :=
  match s with
  | '[' :: rest => if rest.getLast? = some ']' then (parseIpv6 rest.dropLast).map .ipv6 else none
  | _ => if special then parseDomain s else parseOpaqueHost s

def Host.serialize : Host → Text
  | .text s => s
  | .ipv6 pieces => ['['] ++ serializeIpv6 pieces ++ [']']

end Whatwg
