import SwiftRpc.Api.Basic
import SwiftRpc.Swift.Model
import SwiftRpc.Swift.Template

/-!
# Services as Swift clients

A service becomes a structure with one asynchronous function per method. Streaming methods have no
such function and are refused. The first method that cannot be rendered ends the client.
-/

namespace SwiftRpc.Swift

open SwiftRpc.Api

structure ClientMethod where
  function : String
  argument : String
  inputType : String
  outputType : String
  path : String
deriving DecidableEq

namespace ClientMethod

def ofMethod (index : TypeIndex) (service : String) (m : Method) :
    Except RenderError ClientMethod := do
  if m.isStreaming then throw (.streamingUnsupported service m.name)
  let referrer := "method `" ++ service ++ "." ++ m.name ++ "`"
  let inputType ← index.swiftMessageName m.inputType referrer
  let outputType ← index.swiftMessageName m.outputType referrer
  return {
    function := escape (Name.decapitalize m.name)
    argument := escape m.inputArg
    inputType, outputType
    path := m.name }

def render (m : ClientMethod) : String :=
  unlines
    ["    public func " ++ m.function ++ "(" ++ m.argument ++ ": " ++ m.inputType ++
        ") async throws -> " ++ m.outputType ++ " \x7b",
      "        try await execute(request: " ++ m.argument ++ ", path: \"" ++ m.path ++ "\")",
      "    \x7d"]

end ClientMethod

structure Client where
  typeName : String
  fullName : String
  methods : List ClientMethod
deriving DecidableEq

namespace Client

def ofService (index : TypeIndex) (s : Service) : Except RenderError Client := do
  let methods ← s.methods.mapM (ClientMethod.ofMethod index s.fullName)
  return { typeName := packageLead s.package ++ s.name, fullName := s.fullName, methods }

/-- The methods, each after an empty line. -/
def methodText (c : Client) : String := String.join (c.methods.map ("\n" ++ ·.render))

def slotValue (c : Client) : Slot → String
  | .serviceType => c.typeName
  | .serviceFullName => c.fullName
  | .methods => c.methodText

def render (c : Client) : String := clientTemplate.fill c.slotValue

end Client

def renderService (index : TypeIndex) (s : Service) : Except RenderError String :=
  (Client.ofService index s).map Client.render

end SwiftRpc.Swift
