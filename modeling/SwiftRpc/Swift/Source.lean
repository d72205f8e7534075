import SwiftRpc.Options.Basic
import SwiftRpc.Path
import SwiftRpc.Swift.Client
import SwiftRpc.Swift.Model
import SwiftRpc.Text.Basic

/-!
# Generated Swift files

A schema file with services gives a file of clients; one that declares types also gives a file of
models, if models are asked for. Entries of map fields are no types of their own in Swift and are
left out.
-/

namespace SwiftRpc.Swift

open SwiftRpc.Api
open SwiftRpc.Descriptor

structure GeneratedFile where
  name : String
  content : String
deriving DecidableEq

/-- Turns a file into generated ones, given the registry of everything that is generated. -/
abbrev Renderer := Registry → File → Except RenderError (List GeneratedFile)

def generatorName : String := "protoc-gen-twirp-swift"

def fileHeader (source : String) : String :=
  unlines
    ["// Code generated by " ++ generatorName ++ ". DO NOT EDIT.",
      "// source: " ++ source,
      "",
      "import Foundation"]

def fileReferrer (f : File) : String := "file `" ++ f.name ++ "`"

/-- A header and blocks, each after an empty line. -/
def assemble (f : File) (blocks : List String) : String :=
  fileHeader f.name ++ String.join (blocks.map ("\n" ++ ·))

def renderFileService (r : Registry) (index : TypeIndex) (f : File) (s : Descriptor.Service) :
    Except RenderError String :=
  let name := Name.join f.package s.name
  match r.service? name with
  | none => .error (.unknownType name (fileReferrer f))
  | some service => renderService index service

def renderClientFile (r : Registry) (index : TypeIndex) (f : File) : Except RenderError String :=
  (f.services.mapM (renderFileService r index f)).map (assemble f)

mutual

/-- The full names of the types that a message declares, itself first. Empty names add nothing to
the names around them. -/
def messageTypes (scope : String) : Message → List (String × TypeKind)
  | ⟨name?, _, nested, enums, _⟩ =>
    let name := Name.extend scope (name?.getD "")
    (name, .message) ::
      (messagesTypes name nested ++ enums.map fun e => (Name.extend name e.name, .enum))

def messagesTypes (scope : String) : List Message → List (String × TypeKind)
  | [] => []
  | m :: rest => messageTypes scope m ++ messagesTypes scope rest

end

/-- The types that a file declares, in the order in which they are rendered. -/
def fileTypes (f : File) : List (String × TypeKind) :=
  messagesTypes f.package f.messages ++ f.enums.map fun e => (Name.extend f.package e.name, .enum)

/-- The block of a declared type, if it has one. -/
def renderType (r : Registry) (index : TypeIndex) (f : File) :
    String × TypeKind → Except RenderError (Option String)
  | (name, .message) =>
    match r.model? name with
    | none => .error (.unknownType name (fileReferrer f))
    | some m => if m.isMapEntry then .ok none else (renderModel r index m).map some
  | (name, .enum) =>
    match r.enumeration? name with
    | none => .error (.unknownType name (fileReferrer f))
    | some e => (renderEnum index e).map some

def renderModelFile (r : Registry) (index : TypeIndex) (f : File) : Except RenderError String :=
  ((fileTypes f).mapM (renderType r index f)).map fun blocks => assemble f (blocks.filterMap id)

def clientOutput (index : TypeIndex) (options : Options) : Renderer := fun r f =>
  if f.hasServices then
    (renderClientFile r index f).map fun text =>
      [⟨Path.clientFile f.package f.name options.ext, Text.tidy text⟩]
  else .ok []

def modelOutput (index : TypeIndex) (options : Options) : Renderer := fun r f =>
  if options.models && !(f.messages.isEmpty && f.enums.isEmpty) then
    (renderModelFile r index f).map fun text =>
      [⟨Path.modelFile f.name options.ext, Text.tidy text⟩]
  else .ok []

/-- The clients come first. -/
def renderer (index : TypeIndex) (options : Options) : Renderer := fun r f => do
  let clients ← clientOutput index options r f
  let models ← modelOutput index options r f
  return clients ++ models

end SwiftRpc.Swift
