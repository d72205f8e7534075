import SwiftRpc.Name

/-!
# Descriptors

What the schema compiler hands over: files with their messages, enumerations and services, the
request that names the files to generate, and the response with the generated ones.

A field that was not set is told apart from one that was set to an empty or zero value (`name?`);
most readers do not care and read the default (`name`).

The declarations of a file come in reading order: a message, then what it nests (its messages first,
its enumerations after them), then the next message; the enumerations and services of the file
itself follow. A type carries the full name of what is around it.
-/

namespace SwiftRpc.Descriptor

structure Field where
  name? : Option String := none
  number? : Option Int32 := none
  label? : Option Int32 := none
  type? : Option Int32 := none
  typeName? : Option String := none
  oneofIndex? : Option Int32 := none
  jsonName? : Option String := none
  proto3Optional? : Option Bool := none
deriving DecidableEq

structure EnumValue where
  name? : Option String := none
  number? : Option Int32 := none
deriving DecidableEq

structure Enum where
  name? : Option String := none
  values : List EnumValue := []
deriving DecidableEq

structure MessageOptions where
  mapFlag? : Option Bool := none
deriving DecidableEq

structure Message where
  name? : Option String := none
  fields : List Field := []
  nested : List Message := []
  enums : List Enum := []
  options? : Option MessageOptions := none

structure Method where
  name? : Option String := none
  inputType? : Option String := none
  outputType? : Option String := none
  clientStreaming? : Option Bool := none
  serverStreaming? : Option Bool := none
deriving DecidableEq

structure Service where
  name? : Option String := none
  methods : List Method := []
deriving DecidableEq

structure File where
  name? : Option String := none
  package? : Option String := none
  dependencies : List String := []
  messages : List Message := []
  enums : List Enum := []
  services : List Service := []
  publicDependencies : List Int32 := []
  weakDependencies : List Int32 := []
  dialect? : Option String := none

structure Version where
  major? : Option Int32 := none
  minor? : Option Int32 := none
  patch? : Option Int32 := none
  suffix? : Option String := none
deriving DecidableEq

structure Request where
  filesToGenerate : List String := []
  parameter? : Option String := none
  compilerVersion? : Option Version := none
  files : List File := []

structure OutputFile where
  name? : Option String := none
  insertionPoint? : Option String := none
  content? : Option String := none
deriving DecidableEq

structure Response where
  error? : Option String := none
  supportedFeatures? : Option UInt64 := none
  files : List OutputFile := []
deriving DecidableEq

def Field.name (f : Field) : String := f.name?.getD ""
def Field.typeName (f : Field) : String := f.typeName?.getD ""
def Field.jsonName (f : Field) : String := f.jsonName?.getD ""
def EnumValue.name (v : EnumValue) : String := v.name?.getD ""
def EnumValue.number (v : EnumValue) : Int32 := v.number?.getD 0
def Enum.name (e : Enum) : String := e.name?.getD ""
def Message.name (m : Message) : String := m.name?.getD ""
def Method.name (m : Method) : String := m.name?.getD ""
def Method.inputType (m : Method) : String := m.inputType?.getD ""
def Method.outputType (m : Method) : String := m.outputType?.getD ""
def Method.clientStreaming (m : Method) : Bool := m.clientStreaming?.getD false
def Method.serverStreaming (m : Method) : Bool := m.serverStreaming?.getD false
def Service.name (s : Service) : String := s.name?.getD ""
def File.name (f : File) : String := f.name?.getD ""
def File.package (f : File) : String := f.package?.getD ""

/-- Entries of map fields are messages of their own and marked so. -/
def Message.isMapEntry (m : Message) : Bool := ((m.options?.getD {}).mapFlag?).getD false

/-- The well-known types, which no client is made for. -/
def File.isInfrastructure (f : File) : Bool :=
  f.package = "google.protobuf" || "google/protobuf/".toList.isPrefixOf f.name.toList

def File.hasServices (f : File) : Bool := !f.services.isEmpty

def File.isGeneratable (f : File) : Bool := !f.isInfrastructure && f.hasServices

/-! ## The declarations of a file -/

inductive Declaration where
  | message (scope : String) (m : Message)
  | enum (scope : String) (e : Enum)
  | service (s : Service)

mutual

/-- A message and all that it nests. -/
def Message.declarations (scope : String) : Message → List Declaration
  | ⟨name?, fields, nested, enums, options?⟩ =>
    let name := Name.join scope (name?.getD "")
    .message scope ⟨name?, fields, nested, enums, options?⟩ ::
      (Message.allDeclarations name nested ++ enums.map (.enum name))

def Message.allDeclarations (scope : String) : List Message → List Declaration
  | [] => []
  | m :: rest => Message.declarations scope m ++ Message.allDeclarations scope rest

end

def File.declarations (f : File) : List Declaration :=
  Message.allDeclarations f.package f.messages ++ f.enums.map (.enum f.package) ++
    f.services.map .service

end SwiftRpc.Descriptor
