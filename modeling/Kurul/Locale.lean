import Mathlib.Algebra.Order.Ring.WithTop
import Mathlib.Data.Rat.Floor
import Kurul.Db.Prisma
import Kurul.Json
import Kurul.Order.SortBy
import Kurul.Runtime

/-!
# Kurul.Locale

The languages the product ships in, and which of them a request is served in: the stored
preference, then `Accept-Language`, then English.

`parseFloat` is here for the weights of the header. It reads the longest decimal literal the text
starts with and rounds it to a double.
-/

namespace Kurul

open Sql

/-! ## `Number.parseFloat` -/

/-- The nearest integer, ties to even. -/
def roundEven (q : ℚ) : Int :=
  let rest := q - ⌊q⌋
  if rest < 1 / 2 ∨ (rest = 1 / 2 ∧ ⌊q⌋ % 2 = 0) then ⌊q⌋ else ⌊q⌋ + 1

/-- The exponent of the largest power of two that a positive number reaches. -/
def binaryExponent (q : ℚ) : Int :=
  let e : Int := q.num.natAbs.log2 - q.den.log2
  if (2 : ℚ) ^ e ≤ q then e else e - 1

/-- The double nearest to a number that is not negative. -/
def nearestDouble (q : ℚ) : JsNumber :=
  let unit : ℚ := 2 ^ max (binaryExponent q - 52) (-1074)
  let rounded := roundEven (q / unit) * unit
  if rounded < 2 ^ 1024 then .finite rounded else .infinite false

def JsNumber.neg : JsNumber → JsNumber
  | .finite q => .finite (-q)
  | .infinite negative => .infinite !negative

def isDigit (c : CodeUnit) : Bool := 48 ≤ c.val && c.val ≤ 57

/-- What a run of digits stands for. -/
def numeral (digits : JsString) : Nat := digits.foldl (fun n c => 10 * n + (c.val - 48)) 0

/-- An optional sign, and what follows it; `true` is minus. -/
def splitSign (s : JsString) : Bool × JsString :=
  if (js "-").isPrefixOf s then (true, s.drop 1)
  else if (js "+").isPrefixOf s then (false, s.drop 1)
  else (false, s)

/-- The exponent the text goes on with, if it goes on with one. -/
def exponentPart (s : JsString) : Int :=
  if (js "e").isPrefixOf s || (js "E").isPrefixOf s then
    let (negative, rest) := splitSign (s.drop 1)
    let digits := rest.takeWhile isDigit
    if negative then -numeral digits else numeral digits
  else 0

/-- The longest unsigned decimal literal at the start of a text. -/
def unsignedLiteral (s : JsString) : Option JsNumber :=
  if (js "Infinity").isPrefixOf s then some (.infinite false)
  else
    let whole := s.takeWhile isDigit
    let rest := s.dropWhile isDigit
    let point := (js ".").isPrefixOf rest
    let fraction := if point then (rest.drop 1).takeWhile isDigit else []
    let rest := if point then (rest.drop 1).dropWhile isDigit else rest
    if whole.isEmpty && fraction.isEmpty then none
    else some (nearestDouble (numeral (whole ++ fraction) * 10 ^ (exponentPart rest - fraction.length)))

/-- `Number.parseFloat(s)`; `none` is `NaN`. -/
def parseFloat (s : JsString) : Option JsNumber :=
  let (negative, rest) := splitSign (s.dropWhile isSpace)
  (unsignedLiteral rest).map fun n => if negative then n.neg else n

example : parseFloat (js " 0.5;x") = some (.finite (1 / 2)) := by decide +kernel
example : parseFloat (js "-.25e+1z") = some (.finite (-5 / 2)) := by decide +kernel

/-! ## Matching -/

inductive Locale where
  | en
  | tr
  deriving DecidableEq, Repr

/-- `SUPPORTED_LOCALES`, by tag. -/
def Locale.tag : Locale → JsString
  | .en => js "en"
  | .tr => js "tr"

def supportedLocales : List Locale := [.en, .tr]

def defaultLocale : Locale := .en

/-- `isLocale`: the locale a tag names exactly. -/
def isLocale (tag : JsString) : Option Locale := supportedLocales.find? fun l => l.tag = tag

/-- A tag without its subtags. -/
def baseTag (tag : JsString) : JsString := tag.takeWhile fun c => c ≠ Fin.ofNat 65536 45

def matchLocale (rt : Runtime) (tag : Option JsString) : Option Locale := do
  let tag ← tag
  let normalized := rt.toLowerCase (trim tag)
  if tag.isEmpty || normalized.isEmpty || normalized = js "*" then none
  else (isLocale normalized).or (isLocale (baseTag normalized))

structure WeightedTag where
  tag : JsString
  /-- Positive, and `⊤` for `Infinity`. -/
  quality : WithTop ℚ
  deriving DecidableEq

/-- The weight the parameters of an entry give it; `none` drops the entry. -/
def qualityOf (rt : Runtime) (params : List JsString) : Option (WithTop ℚ) :=
  match params.find? fun param => (js "q=").isPrefixOf (rt.toLowerCase (trim param)) with
  | none => some 1
  | some param =>
    match parseFloat ((trim param).drop 2) with
    | none => some 1
    | some (.infinite negative) => if negative then none else some ⊤
    | some (.finite q) => if q ≤ 0 then none else some q

/-- `text.split(separator)` for a separator of one code unit. -/
def splitAtChar (separator : Char) (text : JsString) : List JsString :=
  text.splitOn (Fin.ofNat 65536 separator.toNat)

def weightedTag (rt : Runtime) (part : JsString) : Option WeightedTag :=
  match splitAtChar ';' part with
  | [] => none
  | rawTag :: params =>
    if (trim rawTag).isEmpty then none
    else (qualityOf rt params).map fun quality => ⟨trim rawTag, quality⟩

def negotiateLocale (rt : Runtime) (header : Option JsString) : Option Locale := do
  let header ← header
  let weighted := (splitAtChar ',' header).filterMap (weightedTag rt)
  (sortBy (fun t => OrderDual.toDual t.quality) weighted).findSome? fun t => matchLocale rt (some t.tag)

/-! ## `LocaleService` -/

namespace LocaleService

def read (rt : Runtime) (userId : Id) : Tx kurul (Option Locale) := do
  let row ← findFirst fun _ (u : UserRow) => u.id = userId
  return matchLocale rt (row.bind UserRow.locale)

theorem readOnly_read (rt : Runtime) (userId : Id) : (read rt userId).ReadOnly :=
  (readOnly_query _).bind fun _ => trivial

/-- A preference that cannot be read is one that is not there. -/
def readQuietly (rt : Runtime) (userId : Id) : Call kurul (Option Locale) :=
  (Call.auto (read rt userId)).tryCatch fun _ => .ret none

def resolve (rt : Runtime) (userId : Option Id) (acceptLanguage : Option JsString) :
    Call kurul Locale := do
  let stored ← match userId with
    | none => .ret none
    | some userId => readQuietly rt userId
  return (stored.or (negotiateLocale rt acceptLanguage)).getD defaultLocale

end LocaleService

example : negotiateLocale .bare (js "fr, en-GB;q=0.4,tr-TR;q=.8") = some .tr := by decide +kernel
example : negotiateLocale .bare (js "tr;q=0, *, en-US;q=x") = some .en := by decide +kernel

end Kurul
