import SwiftRpc.Api.Capability
import SwiftRpc.Api.Declare
import SwiftRpc.Swift.Source
import SwiftRpc.Wire.Codec

/-!
# From request to response

A request becomes a plan: the registry of everything the requested files declare, the options and
the files to render. Rendering a plan never fails as such; a file that cannot be rendered turns the
whole response into that file's error.
-/

namespace SwiftRpc.Plugin

open SwiftRpc.Api
open SwiftRpc.Descriptor
open SwiftRpc.Swift

inductive PluginError where
  | noFiles
  | io (text : String)
  | decode
  | parameter (e : ParameterError)
  | descriptor (e : DescriptorError)
deriving DecidableEq

def PluginError.message : PluginError → String
  | noFiles => "no files to generate"
  | io text => text
  | decode => "failed to decode request: "
  | parameter e => e.message
  | descriptor e => e.message

/-- The file of that name; of several the first one. -/
def findFile (files : List File) (name : String) : Except DescriptorError File :=
  match files.find? (·.name = name) with
  | some f => .ok f
  | none => .error (.unknownFile name)

/-- The requested files, in the order of the request. -/
def requestedFiles (r : Request) : Except DescriptorError (List File) :=
  r.filesToGenerate.mapM (findFile r.files)

structure Plan where
  registry : Registry
  options : Options
  files : List File

/-- Registers the files one after the other. -/
def registerFiles (r : Registry) : List File → Except DescriptorError Registry
  | [] => .ok r
  | f :: rest =>
    match r.addFile f with
    | ⟨r', none⟩ => registerFiles r' rest
    | ⟨_, some e⟩ => .error e

def Plan.ofRequest (r : Request) : Except PluginError Plan := do
  if r.filesToGenerate = [] then throw .noFiles
  let options ← (Options.parse r.parameter?).mapError .parameter
  let requested ← (requestedFiles r).mapError .descriptor
  let files := requested.filter (·.isGeneratable)
  let registry ← (registerFiles Registry.empty files).mapError .descriptor
  return { registry := registry.applyCapabilities, options, files }

/-- The output of all files, or the first file that fails and how. -/
def renderAll (render : File → Except RenderError (List GeneratedFile)) :
    List File → Except (File × RenderError) (List GeneratedFile)
  | [] => .ok []
  | f :: rest =>
    match render f with
    | .error e => .error (f, e)
    | .ok output => (renderAll render rest).map (output ++ ·)

/-- The feature bit for fields that are optional on their own. -/
def supportedFeatures : UInt64 := 1

def outputFile (g : GeneratedFile) : OutputFile :=
  { name? := some g.name, content? := some g.content }

def Plan.render (p : Plan) (renderer : Renderer) : Response :=
  match renderAll (renderer p.registry) p.files with
  | .ok output =>
    { supportedFeatures? := some supportedFeatures, files := output.map outputFile }
  | .error (f, e) =>
    { error? := some (f.name ++ ": " ++ e.message)
      supportedFeatures? := some supportedFeatures }

/-- Answers a request with any renderer. -/
def runWith (renderer : Renderer) (r : Request) : Except PluginError Response :=
  (Plan.ofRequest r).map (·.render renderer)

/-- Answers a request with Swift files. -/
def run (r : Request) : Except PluginError Response :=
  (Plan.ofRequest r).map fun plan =>
    plan.render (Swift.renderer (TypeIndex.ofFiles r.files) plan.options)

def runBytes (bytes : Wire.Bytes) : Except PluginError Wire.Bytes :=
  match Wire.decodeRequest bytes with
  | none => .error .decode
  | some r => (run r).map Wire.encodeResponse

end SwiftRpc.Plugin
