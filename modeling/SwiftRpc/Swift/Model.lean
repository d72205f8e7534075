import SwiftRpc.Api.Containment
import SwiftRpc.Swift.TypeIndex

/-!
# Models and enumerations in Swift

A model becomes a structure with one property per field. Scalars, lists and maps start with a zero
value; a singular reference is optional and starts empty. A structure is encodable or decodable if
its model is, and then reads and writes its properties under their JSON names.

An enumeration becomes one over texts, so that its values are read and written by their names.
-/

namespace SwiftRpc.Swift

open SwiftRpc.Api

/-! ## Structures -/

structure Property where
  name : String
  typeDecl : String
  decodeType : String
  default? : Option String
  jsonName : String
deriving DecidableEq

structure Struct where
  name : String
  properties : List Property
  encodable : Bool
  decodable : Bool
deriving DecidableEq

/-- Lines, each with its end. -/
def unlines (lines : List String) : String := String.join (lines.map (· ++ "\n"))

/-- The type of one value of a field. -/
def elementType (index : TypeIndex) (f : Field) (referrer : String) : Except RenderError String :=
  match f.scalar with
  | some s => .ok (scalarType s)
  | none => index.swiftName f.typeName referrer

/-- The entry model of a map field. -/
def entryModel? (r : Registry) (f : Field) : Option Model :=
  if f.isMessage && f.isRepeated then (r.model? f.typeName).filter (·.isMapEntry) else none

def fieldReferrer (m : Model) (f : Field) : String := "field `" ++ m.name ++ "." ++ f.name ++ "`"

/-- A map's type: the types of the entry's `key` and `value`. -/
def mapType (index : TypeIndex) (entry : Model) (referrer : String) :
    Except RenderError String := do
  let some key := entry.field? "key" | throw (.malformedMapEntry entry.name)
  let some value := entry.field? "value" | throw (.malformedMapEntry entry.name)
  let keyType ← elementType index key referrer
  let valueType ← elementType index value referrer
  return "[" ++ keyType ++ ": " ++ valueType ++ "]"

namespace Property

def ofMap (f : Field) (type : String) : Property :=
  ⟨propertyName f.name, type, type, some "[:]", f.jsonName⟩

/-- The property of a field that is no map, given the type of one of its values. -/
def ofElement (f : Field) (element : String) : Property :=
  if f.isRepeated then
    let type := "[" ++ element ++ "]"
    ⟨propertyName f.name, type, type, some "[]", f.jsonName⟩
  else
    match f.scalar with
    | some s => ⟨propertyName f.name, element, element, some (scalarZero s), f.jsonName⟩
    | none => ⟨propertyName f.name, element ++ "?", element, none, f.jsonName⟩

def ofField (r : Registry) (index : TypeIndex) (m : Model) (f : Field) :
    Except RenderError Property :=
  match entryModel? r f with
  | some entry => (mapType index entry (fieldReferrer m f)).map (ofMap f)
  | none => (elementType index f (fieldReferrer m f)).map (ofElement f)

end Property

def Struct.ofModel (r : Registry) (index : TypeIndex) (m : Model) : Except RenderError Struct := do
  if r.containsItself m then throw (.recursiveValueType m.name)
  let name ← index.swiftName m.name ("model `" ++ m.name ++ "`")
  let properties ← m.fields.mapM (Property.ofField r index m)
  return { name, properties, encodable := m.encodable, decodable := m.decodable }

namespace Property

/-- The default value after a sign, if there is one. -/
def defaultAfter (p : Property) (sign : String) : String :=
  match p.default? with
  | some value => sign ++ value
  | none => ""

def declaration (p : Property) : String :=
  "    public var " ++ p.name ++ ": " ++ p.typeDecl ++ p.defaultAfter " = "

def codingKey (p : Property) : String :=
  "        case " ++ p.name ++ " = " ++ textLiteral p.jsonName

def decoding (p : Property) : String :=
  "        " ++ p.name ++ " = try container.decodeIfPresent(" ++ p.decodeType ++
    ".self, forKey: ." ++ p.name ++ ")" ++ p.defaultAfter " ?? "

end Property

namespace Struct

/-- The structure itself, with its coding keys. -/
def bodyLines (s : Struct) : List String :=
  ["public struct " ++ s.name ++ " \x7b"] ++ s.properties.map Property.declaration ++
    (if s.properties = [] then [] else [""]) ++ ["    public init() \x7b\x7d"] ++
    (if s.properties = [] then []
      else
        ["", "    enum CodingKeys: String, CodingKey \x7b"] ++
          s.properties.map Property.codingKey ++ ["    \x7d"]) ++
    ["\x7d"]

def encodableLine (s : Struct) : String := "extension " ++ s.name ++ ": Encodable \x7b\x7d"

def decodableLine (s : Struct) : String := "extension " ++ s.name ++ ": Decodable \x7b"

def decodableLines (s : Struct) : List String :=
  [s.decodableLine, "    public init(from decoder: Decoder) throws \x7b", "        self.init()"] ++
    (if s.properties = [] then []
      else ["        let container = try decoder.container(keyedBy: CodingKeys.self)"]) ++
    s.properties.map Property.decoding ++ ["    \x7d", "\x7d"]

def lines (s : Struct) : List String :=
  s.bodyLines ++ (if s.encodable then ["", s.encodableLine] else []) ++
    if s.decodable then "" :: s.decodableLines else []

def render (s : Struct) : String := unlines s.lines

end Struct

def renderModel (r : Registry) (index : TypeIndex) (m : Model) : Except RenderError String :=
  (Struct.ofModel r index m).map Struct.render

/-! ## Enumerations -/

def caseLine (enumeration value : String) : String :=
  "    case " ++ caseName enumeration value ++ " = " ++ textLiteral value

def renderEnum (index : TypeIndex) (e : Enumeration) : Except RenderError String := do
  let name ← index.swiftName e.name ("enum `" ++ e.name ++ "`")
  return unlines <|
    ["public enum " ++ name ++ ": String, Codable, CaseIterable \x7b"] ++
      e.values.map (fun v => caseLine (Name.short e.name) v.name) ++ ["\x7d"]

end SwiftRpc.Swift
