import SwiftRpc.Json
import SwiftRpc.Options.Parameters
import SwiftRpc.Text.Case

/-!
# Options

`ext` is the extension of generated files, `models` says whether models are generated beside the
clients, and `log` is the level of the messages to the user. Parameters with other keys are
ignored. Of several bad values the one whose key comes first in alphabetical order is reported.
-/

namespace SwiftRpc

open SwiftRpc.Text

structure Options where
  ext : String := "swift"
  models : Bool := true
  log : String := "warn"
deriving DecidableEq

namespace Options

def levels : List String := ["trace", "debug", "info", "warn", "error", "off"]

def defaultLevel : String := "warn"

/-- An extension is given with or without dots in front. -/
def ext? (value : String) : Option String :=
  let ext := (trim value.toList).dropWhile (· = '.')
  if ext = [] ∨ '/' ∈ ext then none else some (String.ofList ext)

def level? (value : String) : Option String :=
  let level := String.ofList (lowerAscii (trim value.toList))
  if level ∈ levels then some level else none

def flag? (value : String) : Option Bool :=
  let word := String.ofList (trim value.toList)
  if word = "true" ∨ word = "1" then some true
  else if word = "false" ∨ word = "0" then some false
  else none

/-- The value of a parameter, or the default if it is not given. -/
def setting {α : Type} (ps : Parameters) (key : String) (default : α) (read : String → Option α)
    (expected : String) : Except ParameterError α :=
  match ps.get? key with
  | none => .ok default
  | some value =>
    match read value with
    | some a => .ok a
    | none => .error (.invalidValue key value expected)

def ofParameters (ps : Parameters) : Except ParameterError Options := do
  let ext ← setting ps "ext" "swift" ext? "a non-empty file extension"
  let log ← setting ps "log" defaultLevel level? "one of trace, debug, info, warn, error, off"
  let models ← setting ps "models" true flag? "true or false"
  return { ext, models, log }

def parse (text? : Option String) : Except ParameterError Options := do
  let ps ← Parameters.parse text?
  ofParameters ps

/-- The level at which messages are let through: a level's name in any case, else the default. -/
def threshold (level : String) : String :=
  let name := String.ofList (lowerAscii level.toList)
  if name ∈ levels then name else defaultLevel

def toJson (o : Options) : Json :=
  .object [("ext", .text o.ext), ("models", .bool o.models), ("log", .text o.log)]

/-- Values are taken as they are, and missing members have their defaults. -/
def ofJson? (j : Json) : Option Options := do
  let members ← j.members?
  let ext ← Json.optional members "ext" "swift" Json.text?
  let models ← Json.optional members "models" true Json.bool?
  let log ← Json.optional members "log" defaultLevel Json.text?
  return { ext, models, log }

end Options

end SwiftRpc
