import Kurul.JsString

/-!
# Kurul.Json

JSON values as `JSON.parse` hands them over. A number is an exact rational or, for a literal too
large for a double, an infinity; a repeated member name keeps its last value.
-/

namespace Kurul

inductive JsNumber where
  | finite (q : ℚ)
  | infinite (negative : Bool)
  deriving DecidableEq

inductive Json where
  | null
  | bool (b : Bool)
  | num (n : JsNumber)
  | str (s : JsString)
  | arr (entries : List Json)
  | obj (members : List (JsString × Json))

namespace Json

/-- `value[name]` on a parsed object; `none` is `undefined`. -/
def member (name : JsString) (members : List (JsString × Json)) : Option Json :=
  (members.reverse.find? fun m => m.1 = name).map Prod.snd

/-- An absent optional string, as the client writes it to a `Json` column. -/
def ofOption : Option JsString → Json
  | some s => .str s
  | none => .null

/-- A count. -/
def ofNat (n : Nat) : Json := .num (.finite n)

end Json
end Kurul
