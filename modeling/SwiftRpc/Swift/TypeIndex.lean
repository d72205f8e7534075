import SwiftRpc.Descriptor
import SwiftRpc.Dictionary
import SwiftRpc.Name
import SwiftRpc.Swift.Spelling

/-!
# The type index

The index knows every type that the files of a request declare, also those of files for which
nothing is generated, and how each is called in Swift. If two files declare a type of the same name
the later one counts.
-/

namespace SwiftRpc.Swift

open SwiftRpc.Descriptor

inductive RenderError where
  | streamingUnsupported (service method : String)
  | unknownType (typeName referrer : String)
  | notAMessage (typeName referrer : String)
  | recursiveValueType (name : String)
  | malformedMapEntry (name : String)
  | formatting
deriving DecidableEq

def RenderError.message : RenderError → String
  | streamingUnsupported service method =>
    "streaming method " ++ service ++ "." ++ method ++ " is not supported"
  | unknownType name referrer => "unknown type `" ++ name ++ "` referenced by " ++ referrer
  | notAMessage name referrer => "`" ++ name ++ "` used by " ++ referrer ++ " is not a message"
  | recursiveValueType name =>
    "message `" ++ name ++ "` contains itself through singular message fields"
  | malformedMapEntry name => "malformed map entry `" ++ name ++ "`"
  | formatting => "an error occurred when formatting an argument"

inductive TypeKind where
  | message | enum
deriving DecidableEq

structure TypeEntry where
  package : String
  relativeName : String
  kind : TypeKind
deriving DecidableEq

abbrev TypeIndex := Dictionary TypeEntry

namespace TypeIndex

/-- The binding of a type under its full name. -/
def binding (package relativeName : String) (kind : TypeKind) : String × TypeEntry :=
  (Name.join package relativeName, ⟨package, relativeName, kind⟩)

mutual

/-- The types that a message declares, itself first; `scope` is the relative name around it. -/
def ofMessage (package scope : String) : Message → List (String × TypeEntry)
  | ⟨name?, _, nested, enums, _⟩ =>
    let name := Name.join scope (name?.getD "")
    binding package name .message ::
      (ofMessages package name nested ++
        enums.map fun e => binding package (Name.join name e.name) .enum)

def ofMessages (package scope : String) : List Message → List (String × TypeEntry)
  | [] => []
  | m :: rest => ofMessage package scope m ++ ofMessages package scope rest

end

def ofFile (f : File) : List (String × TypeEntry) :=
  ofMessages f.package "" f.messages ++ f.enums.map fun e => binding f.package e.name .enum

def ofFiles (files : List File) : TypeIndex := Dictionary.ofList (files.flatMap ofFile)

/-- The entry of a reference, with or without dots in front. -/
def resolve? (index : TypeIndex) (reference : String) : Option TypeEntry :=
  index.get? (Name.absolute reference)

/-- The Swift name of a type; `referrer` is who asks for it. -/
def swiftName (index : TypeIndex) (reference referrer : String) : Except RenderError String :=
  match index.resolve? reference with
  | none => .error (.unknownType (Name.absolute reference) referrer)
  | some e => .ok (typeName e.package e.relativeName)

/-- As `swiftName`, for a place where only a message may stand. -/
def swiftMessageName (index : TypeIndex) (reference referrer : String) :
    Except RenderError String :=
  match index.resolve? reference with
  | none => .error (.unknownType (Name.absolute reference) referrer)
  | some e =>
    match e.kind with
    | .message => .ok (typeName e.package e.relativeName)
    | .enum => .error (.notAMessage (Name.absolute reference) referrer)

end TypeIndex

end SwiftRpc.Swift
