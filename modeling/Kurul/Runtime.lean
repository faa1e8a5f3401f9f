import Kurul.JsString

/-!
# Kurul.Runtime

The JavaScript runtime as the services use it. Dates are written out here; what a text parses to
as a date or a URL, and lower case, are left to the runtime.
-/

namespace Kurul

/-- A parsed `URL`. -/
structure Url where
  protocol : JsString
  /-- `url.toString()`. -/
  href : JsString

/-- What the model takes from the runtime as it finds it. -/
structure Runtime where
  /-- `new Date(value)`; `none` is `Invalid Date`. -/
  parseDate : JsString → Option Instant
  /-- `new URL(value)`; `none` where it throws. -/
  parseUrl : JsString → Option Url
  /-- `value.toLowerCase()`. -/
  toLowerCase : JsString → JsString

/-- A runtime that parses nothing. -/
def Runtime.bare : Runtime := ⟨fun _ => none, fun _ => none, id⟩

/-- A URL written out parses again, with the scheme it had. -/
def Runtime.UrlRoundTrip (rt : Runtime) : Prop :=
  ∀ s u, rt.parseUrl s = some u → ∃ v, rt.parseUrl u.href = some v ∧ v.protocol = u.protocol

/-! ## `Date.prototype.toISOString` -/

/-- Decimal digits, least significant first, at least `width` of them. -/
def digitsRev : (width n : Nat) → JsString
  | 0, _ => []
  | width + 1, n => Fin.ofNat 65536 (48 + n % 10) :: digitsRev width (n / 10)

def padded (width n : Nat) : JsString := (digitsRev width n).reverse

/-- Year, month and day of a day counted from the epoch, in the proleptic Gregorian calendar. -/
def civilFromDays (days : Int) : Int × Nat × Nat :=
  let z := days + 719468
  let era := z / 146097
  let doe := (z % 146097).toNat
  let yoe := (doe - doe / 1460 + doe / 36524 - doe / 146096) / 365
  let doy := doe - (365 * yoe + yoe / 4 - yoe / 100)
  let mp := (5 * doy + 2) / 153
  let day := doy - (153 * mp + 2) / 5 + 1
  let month := if mp < 10 then mp + 3 else mp - 9
  (yoe + era * 400 + (if month ≤ 2 then 1 else 0), month, day)

/-- Four digits, or a sign and six outside the years 0 to 9999. -/
def isoYear (year : Int) : JsString :=
  if 0 ≤ year ∧ year ≤ 9999 then padded 4 year.toNat
  else js (if year < 0 then "-" else "+") ++ padded 6 year.natAbs

def toISOString (t : Instant) : JsString :=
  let date := civilFromDays (t / 86400000)
  let ms := (t % 86400000).toNat
  isoYear date.1 ++ js "-" ++ padded 2 date.2.1 ++ js "-" ++ padded 2 date.2.2 ++ js "T" ++
    padded 2 (ms / 3600000) ++ js ":" ++ padded 2 (ms / 60000 % 60) ++ js ":" ++
    padded 2 (ms / 1000 % 60) ++ js "." ++ padded 3 (ms % 1000) ++ js "Z"

example : toISOString 951827696789 = js "2000-02-29T12:34:56.789Z" := by decide +kernel
example : toISOString (-1) = js "1969-12-31T23:59:59.999Z" := by decide +kernel

end Kurul
