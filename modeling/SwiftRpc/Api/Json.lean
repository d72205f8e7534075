import SwiftRpc.Api.Basic
import SwiftRpc.Json

/-!
# The described API as JSON

Writing writes every member, a scalar only if there is one. Reading ignores members it does not
know, takes the default for members that may be missing and refuses values of another shape.
-/

namespace SwiftRpc.Api

namespace Scalar

def toJson (s : Scalar) : Json := .text s.title

def ofJson? (j : Json) : Option Scalar := j.choice? ofTitle?

end Scalar

namespace Label

def toJson (l : Label) : Json := .text l.title

def ofJson? (j : Json) : Option Label := j.choice? ofTitle?

end Label

namespace Field

def toJson (f : Field) : Json :=
  .object <|
    [("name", .text f.name), ("type_name", .text f.typeName), ("is_message", .bool f.isMessage),
      ("json_name", .text f.jsonName), ("label", f.label.toJson)] ++
    match f.scalar with
    | none => []
    | some s => [("scalar", s.toJson)]

/-- A scalar may be missing or `null`. -/
def scalarOfJson? : Json → Option (Option Scalar)
  | .null => some none
  | j => (Scalar.ofJson? j).map some

def ofJson? (j : Json) : Option Field := do
  let members ← j.members?
  let name ← Json.required members "name" Json.text?
  let typeName ← Json.required members "type_name" Json.text?
  let isMessage ← Json.required members "is_message" Json.bool?
  let jsonName ← Json.optional members "json_name" "" Json.text?
  let label ← Json.optional members "label" .optional Label.ofJson?
  let scalar ← Json.optional members "scalar" none scalarOfJson?
  return { name, typeName, isMessage, jsonName, label, scalar }

end Field

namespace Model

def toJson (m : Model) : Json :=
  .object
    [("name", .text m.name), ("package", .text m.package), ("can_marshal", .bool m.encodable),
      ("can_unmarshal", .bool m.decodable), ("is_map_entry", .bool m.isMapEntry),
      ("fields", .array (m.fields.map Field.toJson))]

def ofJson? (j : Json) : Option Model := do
  let members ← j.members?
  let name ← Json.required members "name" Json.text?
  let package ← Json.optional members "package" "" Json.text?
  let encodable ← Json.optional members "can_marshal" false Json.bool?
  let decodable ← Json.optional members "can_unmarshal" false Json.bool?
  let isMapEntry ← Json.optional members "is_map_entry" false Json.bool?
  let fields ← Json.optional members "fields" [] (Json.list? Field.ofJson?)
  return { name, package, encodable, decodable, isMapEntry, fields }

end Model

namespace EnumValue

def toJson (v : EnumValue) : Json :=
  .object [("name", .text v.name), ("number", .int32 v.number)]

def ofJson? (j : Json) : Option EnumValue := do
  let members ← j.members?
  let name ← Json.required members "name" Json.text?
  let number ← Json.required members "number" Json.int32?
  return { name, number }

end EnumValue

namespace Enumeration

def toJson (e : Enumeration) : Json :=
  .object
    [("name", .text e.name), ("package", .text e.package),
      ("values", .array (e.values.map EnumValue.toJson))]

def ofJson? (j : Json) : Option Enumeration := do
  let members ← j.members?
  let name ← Json.required members "name" Json.text?
  let package ← Json.optional members "package" "" Json.text?
  let values ← Json.optional members "values" [] (Json.list? EnumValue.ofJson?)
  return { name, package, values }

end Enumeration

namespace Method

def toJson (m : Method) : Json :=
  .object
    [("name", .text m.name), ("input_arg", .text m.inputArg), ("input_type", .text m.inputType),
      ("output_type", .text m.outputType), ("client_streaming", .bool m.clientStreaming),
      ("server_streaming", .bool m.serverStreaming)]

def ofJson? (j : Json) : Option Method := do
  let members ← j.members?
  let name ← Json.required members "name" Json.text?
  let inputArg ← Json.required members "input_arg" Json.text?
  let inputType ← Json.required members "input_type" Json.text?
  let outputType ← Json.required members "output_type" Json.text?
  let clientStreaming ← Json.optional members "client_streaming" false Json.bool?
  let serverStreaming ← Json.optional members "server_streaming" false Json.bool?
  return { name, inputArg, inputType, outputType, clientStreaming, serverStreaming }

end Method

namespace Service

def toJson (s : Service) : Json :=
  .object
    [("name", .text s.name), ("package", .text s.package),
      ("methods", .array (s.methods.map Method.toJson))]

def ofJson? (j : Json) : Option Service := do
  let members ← j.members?
  let name ← Json.required members "name" Json.text?
  let package ← Json.required members "package" Json.text?
  let methods ← Json.optional members "methods" [] (Json.list? Method.ofJson?)
  return { name, package, methods }

end Service

end SwiftRpc.Api
