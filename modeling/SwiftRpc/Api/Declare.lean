import SwiftRpc.Api.Registry
import SwiftRpc.Descriptor

/-!
# Registering the declarations of files

Every declaration of a file becomes one entry of the registry: a message first, then the messages
and the enumerations nested in it; after all messages the enumerations and the services of the file.
The first declaration that cannot be registered ends the file; what was registered before it stays.
-/

namespace SwiftRpc.Api

open SwiftRpc.Descriptor

/-- What a name was missing on. -/
inductive Named where
  | message | enum | service | method
deriving DecidableEq

def Named.word : Named → String
  | message => "message"
  | enum => "enum"
  | service => "service"
  | method => "method"

inductive DescriptorError where
  | unknownFile (name : String)
  | missingName (what : Named) (file : String)
  | missingTypeName (message field : String)
  | registry (e : RegistryError)
deriving DecidableEq

def DescriptorError.message : DescriptorError → String
  | unknownFile name => "file to generate not found in descriptor set: " ++ name
  | missingName what file => what.word ++ " without a name in " ++ file
  | missingTypeName message field =>
    "field `" ++ field ++ "` of `" ++ message ++ "` has no type name"
  | registry e => e.message

/-- What a field holds. -/
inductive Content where
  | scalar (s : Scalar)
  | enumeration
  | message

/-- The type numbers of descriptors. A group is a message. -/
def contentTable : List (Int × Content) :=
  [(1, .scalar .double), (2, .scalar .float), (3, .scalar .int64), (4, .scalar .uint64),
    (5, .scalar .int32), (6, .scalar .fixed64), (7, .scalar .fixed32), (8, .scalar .bool),
    (9, .scalar .string), (10, .message), (11, .message), (12, .scalar .bytes),
    (13, .scalar .uint32), (14, .enumeration), (15, .scalar .sfixed32), (16, .scalar .sfixed64),
    (17, .scalar .sint32), (18, .scalar .sint64)]

def labelTable : List (Int × Label) := [(1, .optional), (2, .required), (3, .repeated)]

/-- A type that is not set or not known counts as the first one of the table. -/
def contentOf (f : Descriptor.Field) : Content :=
  (f.type?.bind fun n => contentTable.lookup n.toInt).getD (.scalar .double)

/-- A label that is not set or not known counts as the first one of the table. -/
def labelOf (f : Descriptor.Field) : Label :=
  (f.label?.bind fun n => labelTable.lookup n.toInt).getD .optional

/-- The name under which a field stands in JSON text: the given one, else the one made from the
field's own name. -/
def jsonNameOf (f : Descriptor.Field) : String :=
  if f.jsonName = "" then Name.lowerCamel f.name else f.jsonName

/-- What a field refers to or holds, by name. -/
def Field.described (f : Descriptor.Field) : Field :=
  let field (typeName : String) (isMessage : Bool) (scalar : Option Scalar) : Field :=
    { name := f.name, typeName, isMessage, jsonName := jsonNameOf f, label := labelOf f, scalar }
  match contentOf f with
  | .scalar s => field s.keyword false (some s)
  | .enumeration => field (Name.absolute f.typeName) false none
  | .message => field (Name.absolute f.typeName) true none

/-- A field that is a reference needs a type name. -/
def lacksTypeName (f : Descriptor.Field) : Bool :=
  match contentOf f with
  | .scalar _ => false
  | .enumeration | .message => f.typeName = ""

/-- The field of the model `message`. -/
def Field.ofDescriptor (message : String) (f : Descriptor.Field) :
    Except DescriptorError Field :=
  if lacksTypeName f then .error (.missingTypeName message f.name) else .ok (Field.described f)

/-- The model of a message inside `scope`. -/
def Model.ofDescriptor (file : File) (scope : String) (m : Message) :
    Except DescriptorError Model := do
  if m.name = "" then throw (.missingName .message file.name)
  let name := Name.join scope m.name
  let fields ← m.fields.mapM (Field.ofDescriptor name)
  return { name, package := file.package, isMapEntry := m.isMapEntry, fields }

def Enumeration.described (file : File) (scope : String) (e : Enum) : Enumeration where
  name := Name.join scope e.name
  package := file.package
  values := e.values.map fun v => ⟨v.name, v.number⟩

def Enumeration.ofDescriptor (file : File) (scope : String) (e : Enum) :
    Except DescriptorError Enumeration :=
  if e.name = "" then .error (.missingName .enum file.name)
  else .ok (Enumeration.described file scope e)

def Method.described (m : Descriptor.Method) : Method :=
  { Method.unary m.name (Name.absolute m.inputType) (Name.absolute m.outputType) with
    clientStreaming := m.clientStreaming
    serverStreaming := m.serverStreaming }

def Method.ofDescriptor (file : File) (m : Descriptor.Method) : Except DescriptorError Method :=
  if m.name = "" then .error (.missingName .method file.name) else .ok (Method.described m)

def Service.ofDescriptor (file : File) (s : Descriptor.Service) :
    Except DescriptorError Service := do
  if s.name = "" then throw (.missingName .service file.name)
  let methods ← s.methods.mapM (Method.ofDescriptor file)
  return { name := s.name, package := file.package, methods }

/-- The registry so far, and the error that ended the registration, if one did. -/
structure Progress where
  registry : Registry
  error? : Option DescriptorError := none
deriving DecidableEq

namespace Progress

/-- What an addition to `r` leads to. -/
def ofAddition (r : Registry) : Except DescriptorError Registry → Progress
  | .ok r' => ⟨r', none⟩
  | .error e => ⟨r, some e⟩

def andThen (p : Progress) (step : Registry → Progress) : Progress :=
  match p.error? with
  | none => step p.registry
  | some _ => p

/-- One step per item, up to the first one that fails. -/
def overList {α : Type} (step : Registry → α → Progress) : Registry → List α → Progress
  | r, [] => ⟨r, none⟩
  | r, a :: rest => (step r a).andThen (overList step · rest)

end Progress

namespace Registry

/-- Adds the model of one message, without what is nested in it. -/
def declareModel (file : File) (scope : String) (r : Registry) (m : Message) : Progress :=
  .ofAddition r do
    let model ← Model.ofDescriptor file scope m
    ((r.addModel model).map (·.2)).mapError .registry

def declareEnum (file : File) (scope : String) (r : Registry) (e : Enum) : Progress :=
  .ofAddition r do
    let enumeration ← Enumeration.ofDescriptor file scope e
    (r.addEnum enumeration).mapError .registry

def declareService (file : File) (r : Registry) (s : Descriptor.Service) : Progress :=
  .ofAddition r do
    let service ← Service.ofDescriptor file s
    (r.addService service).mapError .registry

mutual

def declareMessage (file : File) (scope : String) (r : Registry) : Message → Progress
  | ⟨name?, fields, nested, enums, options?⟩ =>
    let name := Name.join scope (name?.getD "")
    (r.declareModel file scope ⟨name?, fields, nested, enums, options?⟩).andThen fun r =>
      (declareMessages file name r nested).andThen fun r =>
        Progress.overList (declareEnum file name) r enums

def declareMessages (file : File) (scope : String) (r : Registry) : List Message → Progress
  | [] => ⟨r, none⟩
  | m :: rest =>
    (declareMessage file scope r m).andThen fun r => declareMessages file scope r rest

end

def addFile (r : Registry) (file : File) : Progress :=
  (declareMessages file file.package r file.messages).andThen fun r =>
    (Progress.overList (declareEnum file file.package) r file.enums).andThen fun r =>
      Progress.overList (declareService file) r file.services

end Registry

end SwiftRpc.Api
