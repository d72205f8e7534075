import SwiftRpc.Name

/-!
# The described API

Models are what messages become, services what clients are made for. A model or an enumeration is
named in full, package first; a service keeps its package apart.

A field refers to another model or to an enumeration by its full name (`typeName`), or it holds a
scalar. `isMessage` tells the two kinds of reference apart.
-/

namespace SwiftRpc.Api

inductive Scalar where
  | double | float | int64 | uint64 | int32 | fixed64 | fixed32 | bool | string | bytes | uint32
  | sfixed32 | sfixed64 | sint32 | sint64
deriving DecidableEq

namespace Scalar

def all : List Scalar :=
  [double, float, int64, uint64, int32, fixed64, fixed32, bool, string, bytes, uint32,
    sfixed32, sfixed64, sint32, sint64]

/-- The schema language's word for the scalar. -/
def keyword : Scalar → String
  | double => "double"
  | float => "float"
  | int64 => "int64"
  | uint64 => "uint64"
  | int32 => "int32"
  | fixed64 => "fixed64"
  | fixed32 => "fixed32"
  | bool => "bool"
  | string => "string"
  | bytes => "bytes"
  | uint32 => "uint32"
  | sfixed32 => "sfixed32"
  | sfixed64 => "sfixed64"
  | sint32 => "sint32"
  | sint64 => "sint64"

/-- The scalar's title: its keyword with a capital. -/
def title : Scalar → String
  | double => "Double"
  | float => "Float"
  | int64 => "Int64"
  | uint64 => "Uint64"
  | int32 => "Int32"
  | fixed64 => "Fixed64"
  | fixed32 => "Fixed32"
  | bool => "Bool"
  | string => "String"
  | bytes => "Bytes"
  | uint32 => "Uint32"
  | sfixed32 => "Sfixed32"
  | sfixed64 => "Sfixed64"
  | sint32 => "Sint32"
  | sint64 => "Sint64"

def ofTitle? (s : String) : Option Scalar := all.find? (·.title = s)

end Scalar

inductive Label where
  | optional | required | repeated
deriving DecidableEq

namespace Label

def title : Label → String
  | optional => "Optional"
  | required => "Required"
  | repeated => "Repeated"

def ofTitle? (s : String) : Option Label := [optional, required, repeated].find? (·.title = s)

end Label

structure Field where
  name : String
  typeName : String
  isMessage : Bool
  jsonName : String := ""
  label : Label := .optional
  scalar : Option Scalar := none
deriving DecidableEq

namespace Field

def isRepeated (f : Field) : Bool := f.label = .repeated

/-- The same field, holding a list. -/
def repeated (f : Field) : Field := { f with label := .repeated }

/-- A field that holds a message. -/
def message (name typeName : String) : Field :=
  { name, typeName, isMessage := true, jsonName := Name.lowerCamel name }

def enumeration (name typeName : String) : Field :=
  { name, typeName, isMessage := false, jsonName := Name.lowerCamel name }

def ofScalar (name : String) (s : Scalar) : Field :=
  { name, typeName := s.keyword, isMessage := false, jsonName := Name.lowerCamel name,
    scalar := some s }

end Field

/-- What a client has to do with a model: send it or receive it. -/
inductive Capability where
  | encode | decode
deriving DecidableEq

def Capability.all : List Capability := [.encode, .decode]

structure Model where
  name : String
  package : String := ""
  encodable : Bool := false
  decodable : Bool := false
  isMapEntry : Bool := false
  fields : List Field := []
deriving DecidableEq

namespace Model

/-- The name inside the package. -/
def relativeName (m : Model) : String := Name.relativeTo m.package m.name

def messageFields (m : Model) : List Field := m.fields.filter (·.isMessage)

def field? (m : Model) (name : String) : Option Field := m.fields.find? (·.name = name)

def withField (m : Model) (f : Field) : Model := { m with fields := m.fields ++ [f] }

def can (m : Model) : Capability → Bool
  | .encode => m.encodable
  | .decode => m.decodable

def grant (m : Model) : Capability → Model
  | .encode => { m with encodable := true }
  | .decode => { m with decodable := true }

end Model

structure EnumValue where
  name : String
  number : Int32
deriving DecidableEq

structure Enumeration where
  name : String
  package : String := ""
  values : List EnumValue := []
deriving DecidableEq

structure Method where
  name : String
  inputArg : String
  inputType : String
  outputType : String
  clientStreaming : Bool := false
  serverStreaming : Bool := false
deriving DecidableEq

namespace Method

/-- A method without streams, its argument labelled after its type. -/
def unary (name inputType outputType : String) : Method :=
  { name, inputArg := Name.argument inputType, inputType, outputType }

def isStreaming (m : Method) : Bool := m.clientStreaming || m.serverStreaming

/-- The type whose models need the capability: a client encodes inputs and decodes outputs. -/
def endType (m : Method) : Capability → String
  | .encode => m.inputType
  | .decode => m.outputType

end Method

structure Service where
  name : String
  package : String
  methods : List Method := []
deriving DecidableEq

def Service.fullName (s : Service) : String := Name.join s.package s.name

end SwiftRpc.Api
