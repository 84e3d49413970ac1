import Lithium.Keys.Primitives

/-! Secret JSON documents (`secrets/json.rs`): reading fields of the root object and taking
them out of it. -/
namespace Lithium.Secrets
open Keys (LithiumError)

/-- `serde_json::Number`. `negInt` holds the negative integers, `float` the finite numbers
with a fraction or out of range. -/
inductive Number where
  | posInt (n : UInt64)
  | negInt (n : Int64)
  | float (f : Float)

/-- `serde_json::Value`, over any kind of text. The entries of an object are those of its
map, each key once. -/
inductive Value (τ : Type) where
  | null
  | bool (b : Bool)
  | number (n : Number)
  | string (s : τ)
  | array (elems : List (Value τ))
  | object (map : List (τ × Value τ))

namespace Number

def asI64 : Number → Option Int64
  | .posInt n => if n.toNat ≤ 2 ^ 63 - 1 then some n.toInt64 else none
  | .negInt n => some n
  | .float _ => none

def asU64 : Number → Option UInt64
  | .posInt n => some n
  | .negInt _ | .float _ => none

def asF64 : Number → Option Float
  | .posInt n => some n.toFloat
  | .negInt n => some n.toFloat
  | .float f => some f

end Number

namespace Value
variable {τ : Type}

def tyName : Value τ → String
  | .null => "null"
  | .bool _ => "bool"
  | .number _ => "number"
  | .string _ => "string"
  | .array _ => "array"
  | .object _ => "object"

def asStr : Value τ → Option τ
  | .string s => some s
  | _ => none

def asBool : Value τ → Option Bool
  | .bool b => some b
  | _ => none

/-- A number, read as some type. -/
def numberAs {α : Type} (read : Number → Option α) : Value τ → Option α
  | .number n => read n
  | _ => none

def asI64 : Value τ → Option Int64 := numberAs Number.asI64
def asU64 : Value τ → Option UInt64 := numberAs Number.asU64
def asF64 : Value τ → Option Float := numberAs Number.asF64

def asArray : Value τ → Option (List (Value τ))
  | .array elems => some elems
  | _ => none

def asObject : Value τ → Option (List (τ × Value τ))
  | .object map => some map
  | _ => none

def isString (v : Value τ) : Bool := v.asStr.isSome
def isBoolean (v : Value τ) : Bool := v.asBool.isSome
def isArray (v : Value τ) : Bool := v.asArray.isSome
def isObject (v : Value τ) : Bool := v.asObject.isSome

end Value

abbrev SecretJson := Value String

namespace SecretJson

def obj (self : SecretJson) : Except LithiumError (List (String × SecretJson)) :=
  match self.asObject with
  | some map => .ok map
  | none => .error .jsonNotObject

/-- The getters: a field of the root, read as some type. -/
def getAs {α : Type} (read : SecretJson → Option α) (self : SecretJson) (key : String) :
    Except LithiumError α := do
  let obj ← self.obj
  match obj.lookup key with
  | none => throw (.jsonMissingField key)
  | some v =>
    match read v with
    | some value => return value
    | none => throw (.jsonTypeMismatch key v.tyName)

def getString : SecretJson → String → Except LithiumError String := getAs Value.asStr
def getInteger : SecretJson → String → Except LithiumError Int64 := getAs Value.asI64
def getBool : SecretJson → String → Except LithiumError Bool := getAs Value.asBool
def getArray : SecretJson → String → Except LithiumError (List SecretJson) := getAs Value.asArray

def getObject : SecretJson → String → Except LithiumError SecretJson :=
  getAs fun v => v.asObject.map Value.object

def ensureTakeable (self : SecretJson) (key : String) (fits : SecretJson → Bool) :
    Except LithiumError Unit := do
  match (← self.obj).lookup key with
  | some v => if fits v then return () else throw (.jsonTypeMismatch key v.tyName)
  | none => throw (.jsonMissingField key)

/-- `obj_mut()?.remove(key)`, with the document as its state. -/
def remove (key : String) : EStateM LithiumError SecretJson (Option SecretJson) := do
  let map ← ofExcept (← get).obj
  set (Value.object (map.filter fun entry => entry.1 ≠ key) : SecretJson)
  return map.lookup key

/-- The takers: a check of the field, its removal, and what is made of the removed value. -/
def takeAs {α : Type} (key : String) (fits : SecretJson → Bool)
    (finish : Option SecretJson → Except LithiumError α) : EStateM LithiumError SecretJson α := do
  ofExcept ((← get).ensureTakeable key fits)
  let removed ← remove key
  ofExcept (finish removed)

def finishString (key : String) : Option SecretJson → Except LithiumError String
  | some (.string s) => .ok s
  | _ => .error (.jsonMissingField key)

def takeString (key : String) : EStateM LithiumError SecretJson String :=
  takeAs key Value.isString (finishString key)

def finishBool (key : String) : Option SecretJson → Except LithiumError Bool
  | some (.bool b) => .ok b
  | _ => .error (.jsonMissingField key)

def takeBool (key : String) : EStateM LithiumError SecretJson Bool :=
  takeAs key Value.isBoolean (finishBool key)

/-- What the takers of numbers make of the removed value. -/
def finishNumber {α : Type} (key : String) (read : Number → Option α) :
    Option SecretJson → Except LithiumError α
  | some (.number n) =>
    match read n with
    | some value => .ok value
    | none => .error (.jsonTypeMismatch key "number")
  | _ => .error (.jsonMissingField key)

def takeI64 (key : String) : EStateM LithiumError SecretJson Int64 :=
  takeAs key (fun v => v.asI64.isSome) (finishNumber key Number.asI64)

def takeU64 (key : String) : EStateM LithiumError SecretJson UInt64 :=
  takeAs key (fun v => v.asU64.isSome) (finishNumber key Number.asU64)

def takeF64 (key : String) : EStateM LithiumError SecretJson Float :=
  takeAs key (fun v => v.asF64.isSome) (finishNumber key Number.asF64)

def finishArray (key : String) : Option SecretJson → Except LithiumError (List SecretJson)
  | some (.array elems) => .ok elems
  | _ => .error (.jsonMissingField key)

def takeArray (key : String) : EStateM LithiumError SecretJson (List SecretJson) :=
  takeAs key Value.isArray (finishArray key)

def finishObject (key : String) : Option SecretJson → Except LithiumError SecretJson
  | some (.object map) => .ok (.object map)
  | _ => .error (.jsonMissingField key)

def takeObject (key : String) : EStateM LithiumError SecretJson SecretJson :=
  takeAs key Value.isObject (finishObject key)

end SecretJson
end Lithium.Secrets
