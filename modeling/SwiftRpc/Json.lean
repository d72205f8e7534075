/-!
# JSON values

A number is kept as written: `digits` with the decimal point moved `places` to the left, so a
number with decimal places is told apart from a whole one. Readers answer `none` when the value has
another shape than the one asked for.
-/

namespace SwiftRpc

inductive Json where
  | null
  | bool (value : Bool)
  | number (digits : Int) (places : Nat)
  | text (value : String)
  | array (items : List Json)
  | object (members : List (String × Json))
deriving Inhabited

namespace Json

def bool? : Json → Option Bool
  | bool b => some b
  | _ => none

def text? : Json → Option String
  | text s => some s
  | _ => none

/-- A whole number that a signed 32-bit word holds. -/
def int32? : Json → Option Int32
  | number n 0 => if -2147483648 ≤ n ∧ n ≤ 2147483647 then some (Int32.ofInt n) else none
  | _ => none

def int32 (n : Int32) : Json := number n.toInt 0

def members? : Json → Option (List (String × Json))
  | object members => some members
  | _ => none

/-- Every item must be readable. -/
def list? {α : Type} (read : Json → Option α) : Json → Option (List α)
  | array items => items.mapM read
  | _ => none

/-- One of a fixed set of names, written as a text or as an object with that one key and `null`. -/
def choice? {α : Type} (named : String → Option α) : Json → Option α
  | text s => named s
  | object [(s, null)] => named s
  | _ => none

/-- The member `key`, which has to be there. -/
def required {α : Type} (members : List (String × Json)) (key : String) (read : Json → Option α) :
    Option α :=
  (members.lookup key).bind read

/-- The member `key`, or `default` if it is not there. A member that is there has to be readable. -/
def optional {α : Type} (members : List (String × Json)) (key : String) (default : α)
    (read : Json → Option α) : Option α :=
  match members.lookup key with
  | none => some default
  | some value => read value

end Json

end SwiftRpc
