import SwiftRpc.Plugin.Run

/-!
# One execution of the plugin

The plugin reads a request to its end, answers it, and writes the response. Nothing is written
unless there is a response. Before it answers, it sets the level of its messages as the request
asks for. The streams that it reads from and writes to are those of a process, or simulated ones.
-/

namespace SwiftRpc.Plugin

open SwiftRpc.Descriptor
open SwiftRpc.Wire

/-- Reading, writing and flushing either work or fail with a text. -/
structure Streams (m : Type → Type) where
  read : m (Except String Bytes)
  setLevel : String → m Unit
  write : Bytes → m (Except String Unit)
  flush : m (Except String Unit)

/-- The level that the options ask for. Options that cannot be read ask for the default; that they
cannot be read is reported when the request is answered. -/
def logLevel (r : Request) : String :=
  match Options.parse r.parameter? with
  | .ok options => options.log
  | .error _ => Options.defaultLevel

def execute {m : Type → Type} [Monad m] (streams : Streams m) : m (Except PluginError Unit) := do
  match ← streams.read with
  | .error text => return .error (.io text)
  | .ok input =>
    match decodeRequest input with
    | none => return .error .decode
    | some request =>
      streams.setLevel (Options.threshold (logLevel request))
      match run request with
      | .error e => return .error e
      | .ok response =>
        match ← streams.write (encodeResponse response) with
        | .error text => return .error (.io text)
        | .ok () =>
          match ← streams.flush with
          | .error text => return .error (.io text)
          | .ok () => return .ok ()

def pluginName : String := "protoc-gen-twirp-swift"

def version : String := "0.1.0"

/-- What a failed execution tells the user. -/
def failureLine (e : PluginError) : String := pluginName ++ ": " ++ e.message

/-! ## Simulated streams -/

/-- One step of a reader: some bytes, or a failure. The input ends when there are no more steps, or
at a step that gives no bytes. A read that is interrupted is tried again and is no step of its
own. -/
inductive ReadStep where
  | chunk (bytes : Bytes)
  | failure (text : String)

def readAll : List ReadStep → Except String Bytes
  | [] => .ok []
  | .failure text :: _ => .error text
  | .chunk [] :: _ => .ok []
  | .chunk (b :: bytes) :: rest => (readAll rest).map ((b :: bytes) ++ ·)

/-- A writer that takes `limit` bytes, or any number of them, and what happened to it. -/
structure Sink where
  limit : Option Nat := none
  writeFailure : String := ""
  flushFailure : Option String := none
  level? : Option String := none
  written : Bytes := []
  flushes : Nat := 0

namespace Sink

/-- What still fits is written before the failure. -/
def write (s : Sink) (bytes : Bytes) : Except String Unit × Sink :=
  match s.limit with
  | none => (.ok (), { s with written := s.written ++ bytes })
  | some limit =>
    let room := limit - s.written.length
    if bytes.length ≤ room then (.ok (), { s with written := s.written ++ bytes })
    else (.error s.writeFailure, { s with written := s.written ++ bytes.take room })

/-- A failed flush counts as well. -/
def flush (s : Sink) : Except String Unit × Sink :=
  let s' := { s with flushes := s.flushes + 1 }
  match s.flushFailure with
  | none => (.ok (), s')
  | some text => (.error text, s')

end Sink

/-- Reads from a list of steps and writes to a sink. -/
def simulated (steps : List ReadStep) : Streams (StateM Sink) where
  read := pure (readAll steps)
  setLevel level := fun s => ((), { s with level? := some level })
  write bytes := fun s => s.write bytes
  flush := fun s => s.flush

def simulate (steps : List ReadStep) (sink : Sink) : Except PluginError Unit × Sink :=
  execute (simulated steps) sink

end SwiftRpc.Plugin
