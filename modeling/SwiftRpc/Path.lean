import SwiftRpc.Text.Basic

/-!
# File names

Paths are divided by slashes on every system. A schema file's own extension is dropped from the
names of the files made from it; any other extension is part of the name.
-/

namespace SwiftRpc.Path

open SwiftRpc.Text

def schemaExtensions : List String := [".proto", ".protodevel"]

/-- Directory (with its slash) and base name; put together they are the path. -/
def splitDir (path : String) : String × String :=
  (String.ofList (throughLast '/' path.toList), String.ofList (afterLast '/' path.toList))

/-- From the last dot of the base name on, with the dot; empty if the base name has none. -/
def extensionChars (path : List Char) : List Char :=
  let base := afterLast '/' path
  if '.' ∈ base then '.' :: afterLast '.' base else []

def extension (path : String) : String := String.ofList (extensionChars path.toList)

def dropSchemaExtension (path : String) : String :=
  let ext := extension path
  if ext ∈ schemaExtensions then String.ofList (path.toList.take (path.length - ext.length))
  else path

/-- The file for a schema's clients; `qualifier` goes in front of the base name. -/
def clientFile (qualifier path ext : String) : String :=
  let (dir, base) := splitDir path
  let lead := if qualifier = "" then "" else qualifier ++ "."
  dir ++ lead ++ dropSchemaExtension base ++ ".twirp." ++ ext

/-- The file for a schema's models. -/
def modelFile (path ext : String) : String :=
  dropSchemaExtension path ++ ".model." ++ ext

end SwiftRpc.Path
