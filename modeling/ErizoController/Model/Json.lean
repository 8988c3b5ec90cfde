import Mathlib.Algebra.Group.Int.Defs
import Mathlib.Algebra.Group.Nat.Defs
import Mathlib.Data.Rat.Defs

/-!
# JSON values

The part of jsoncpp's `Json::Value` that the handlers read and write. Two integer
types are kept apart, as the reader keeps them apart: a literal up to `2 ^ 31 - 1` is
an `intValue`, a larger one a `uintValue`.

The readers ask for a member and for its type in one condition, as in
`!root.isMember("streamId") || root["streamId"].type() != Json::stringValue`. Each of
these conditions is one function here, `none` when the condition rejects.
-/

namespace Json

inductive Value where
  | nullValue
  | intValue (i : ℤ)
  | uintValue (n : ℕ)
  | realValue (x : ℚ)
  | stringValue (s : String)
  | booleanValue (b : Bool)
  | arrayValue (xs : List Value)
  | objectValue (members : List (String × Value))
  deriving Inhabited

namespace Value

def isNull : Value → Bool
  | nullValue => true
  | _ => false

/-- `type() == Json::objectValue`. -/
def isObject : Value → Bool
  | objectValue _ => true
  | _ => false

/-- `root[key]` of a member that is present. -/
def member? : Value → String → Option Value
  | objectValue members, key => (members.find? fun m => m.1 == key).map Prod.snd
  | _, _ => none

/-- A member that is present and a string. -/
def string? (root : Value) (key : String) : Option String :=
  match root.member? key with
  | some (stringValue s) => some s
  | _ => none

/-- A member that is present and an `intValue`. -/
def int? (root : Value) (key : String) : Option ℤ :=
  match root.member? key with
  | some (intValue i) => some i
  | _ => none

/-- A member that is present and an object. -/
def object? (root : Value) (key : String) : Option Value :=
  (root.member? key).filter isObject

/-- `asInt` of an `intValue`, `none` where it throws. -/
def asInt (i : ℤ) : Option ℤ := if -2 ^ 31 ≤ i ∧ i < 2 ^ 31 then some i else none

/-- `asUInt`, `none` where it throws. -/
def asUInt : Value → Option UInt32
  | nullValue => some 0
  | intValue i => if 0 ≤ i ∧ i < 2 ^ 32 then some (UInt32.ofNat i.toNat) else none
  | uintValue n => if n < 2 ^ 32 then some (UInt32.ofNat n) else none
  | realValue x => if 0 ≤ x ∧ x ≤ 2 ^ 32 - 1 then some (UInt32.ofNat x.floor.toNat) else none
  | booleanValue b => some (if b then 1 else 0)
  | _ => none

/-- `asString`, `none` where it throws. The text of a real is left to the library. -/
def asString (realText : ℚ → String) : Value → Option String
  | nullValue => some ""
  | intValue i => some (toString i)
  | uintValue n => some (toString n)
  | realValue x => some (realText x)
  | stringValue s => some s
  | booleanValue b => some (if b then "true" else "false")
  | _ => none

end Value

end Json
