import SwiftRpc.Dictionary
import SwiftRpc.Text.Basic

/-!
# Plugin parameters

Parameters come as one text, `key=value` pairs with commas between them. Blanks around a key are
dropped; a value is everything behind the first equals sign, as written. A key that comes again
replaces the earlier one.
-/

namespace SwiftRpc

open SwiftRpc.Text

abbrev Parameters := Dictionary String

inductive ParameterError where
  | missingSeparator (pair : String)
  | emptyKey (pair : String)
  | invalidValue (key value expected : String)
deriving DecidableEq

def ParameterError.message : ParameterError → String
  | missingSeparator pair => "malformed parameter `" ++ pair ++ "`: expected key=value"
  | emptyKey pair => "malformed parameter `" ++ pair ++ "`: empty key"
  | invalidValue key value expected =>
    "invalid value `" ++ value ++ "` for parameter `" ++ key ++ "`: " ++ expected

namespace Parameters

def parsePair (pair : List Char) : Except ParameterError (String × String) :=
  match cutAt? '=' pair with
  | none => .error (.missingSeparator (String.ofList pair))
  | some (key, value) =>
    if trim key = [] then .error (.emptyKey (String.ofList pair))
    else .ok (String.ofList (trim key), String.ofList value)

/-- No text and the empty text have no pairs; any other text has one more pair than commas. -/
def parse (text? : Option String) : Except ParameterError Parameters :=
  match (text?.getD "").toList with
  | [] => .ok Dictionary.empty
  | text => ((text.splitOn ',').mapM parsePair).map Dictionary.ofList

end Parameters

end SwiftRpc
