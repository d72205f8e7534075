import SwiftRpc.Plugin.Execute

/-!
# The plugin as a program

The request comes on standard input and the response goes to standard output; failures go to
standard error.
-/

namespace SwiftRpc

open SwiftRpc.Plugin

partial def readStream (stream : IO.FS.Stream) (sofar : ByteArray) : IO ByteArray := do
  let chunk ← stream.read 65536
  if chunk.isEmpty then return sofar else readStream stream (sofar ++ chunk)

def attempt {α : Type} (action : IO α) : IO (Except String α) := do
  try
    let a ← action
    return .ok a
  catch e => return .error (toString e)

def standardStreams : Streams IO where
  read := attempt do
    let bytes ← readStream (← IO.getStdin) ByteArray.empty
    return bytes.toList
  -- the failure of an execution is told whatever the level, and there are no other messages
  setLevel _ := return ()
  write bytes := attempt do
    (← IO.getStdout).write ⟨bytes.toArray⟩
  flush := attempt do
    (← IO.getStdout).flush

end SwiftRpc

def main : IO UInt32 := do
  match ← SwiftRpc.Plugin.execute SwiftRpc.standardStreams with
  | .ok () => return 0
  | .error e =>
    IO.eprintln (SwiftRpc.Plugin.failureLine e)
    return 1
