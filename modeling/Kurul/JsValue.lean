import Kurul.Json

/-!
# Kurul.JsValue

Any value of the language, as code that only reads it sees it: what each read gives, or that it throws.
Reads are of the moment, and reading twice gives the same.
-/

namespace Kurul

inductive Number where
  | nan
  | of (n : JsNumber)
  deriving DecidableEq

namespace Number

def ofInt (z : Int) : Number := .of (.finite z)

/-- The whole number that this is: `Number.isInteger`. -/
def integer? : Number → Option Int
  | .of (.finite q) => if q.den = 1 then some q.num else none
  | _ => none

/-- `x >= bound`. -/
def atLeast (x : Number) (bound : Int) : Bool :=
  match x with
  | .nan => false
  | .of (.finite q) => (bound : ℚ) ≤ q
  | .of (.infinite negative) => !negative

end Number

/-- What `instanceof` tells of an object. An `HttpException` has its status and its response. -/
inductive Ancestry (V : Type) where
  | httpException (status : Number) (response : V)
  | prismaClientKnownRequestError
  | error
  | other

/-- `instanceof Error`. -/
def Ancestry.isError {V : Type} : Ancestry V → Bool
  | .other => false
  | _ => true

/-- What the reads of an object give. `none` where one throws: a getter, a trap of a proxy, a method that
makes the text. -/
structure ObjectReads (V : Type) where
  callable : Bool
  ancestry : Option (Ancestry V)
  /-- `o[name]`, own or inherited. -/
  get : JsString → Option V
  /-- `name in o`. -/
  has : JsString → Option Bool
  /-- The elements, where `Array.isArray(o)`. -/
  elements : Option (Option (List V))
  /-- `String(o)`. -/
  text : Option JsString
  /-- `JSON.stringify(o)`, which may be `undefined`. -/
  json : Option (Option JsString)

inductive JsValue where
  | undefined
  | null
  | bool (b : Bool)
  /-- With its digits, as `String` writes them. -/
  | number (x : Number) (digits : JsString)
  | bigint (z : Int)
  | string (s : JsString)
  | symbol (description : JsString)
  | object (o : ObjectReads JsValue)

namespace JsValue

/-- `typeof value === 'object' && value !== null`. -/
def isRecord : JsValue → Option (ObjectReads JsValue)
  | .object o => if o.callable then none else some o
  | _ => none

/-- `String(value)`. -/
def toText : JsValue → Option JsString
  | .undefined => some (js "undefined")
  | .null => some (js "null")
  | .bool b => some (if b then js "true" else js "false")
  | .number _ digits => some digits
  | .bigint z => some (js (toString z))
  | .string s => some s
  | .symbol description => some (js "Symbol(" ++ description ++ js ")")
  | .object o => o.text

/-- The text of a value between others in a template, where a symbol has none. -/
def interpolated : JsValue → Option JsString
  | .symbol _ => none
  | value => value.toText

def isUndefined : JsValue → Bool
  | .undefined => true
  | _ => false

def ancestry : JsValue → Option (Ancestry JsValue)
  | .object o => o.ancestry
  | _ => some .other

/-- Whether `JSON.stringify` takes the value, alone or in an object. -/
def serializable : JsValue → Bool
  | .bigint _ => false
  | .object o => o.json.isSome
  | _ => true

end JsValue
end Kurul
