import TextDecoration.CommandLine.Invocation

/-!
# The command line

Gathers what a run depends on, and writes what it leaves behind.
-/

namespace TextDecoration

/-- All bytes of a stream, read until it has no more. It is the one function here that need not come
to an end, as a stream need not. -/
partial def readAll (stream : IO.FS.Stream) (bytes : ByteArray) : IO ByteArray := do
  let chunk ← stream.read 65536
  if chunk.isEmpty then return bytes else readAll stream (bytes ++ chunk)

/-- What reading the files at some paths gives. Files are read before the run, since the run itself
is a function of what they hold. -/
def readFiles (paths : List String) : IO (List (String × Except IO.Error ByteArray)) :=
  paths.mapM fun (path : String) => return (path, ← (IO.FS.readBinFile path).toBaseIO)

/-- The bytes that were read, if any. Why nothing was read is told by `refusal?`. -/
def bytes? : Except IO.Error ByteArray → Option ByteArray
  | .ok bytes => some bytes
  | .error _ => none

/-- Why something that is there could not be read, in the system's words. A file that is not there
is no refusal. -/
def refusal? : Except IO.Error ByteArray → Option String
  | .ok _ | .error (.noFileOrDirectory ..) => none
  | .error (.permissionDenied _ code reason) | .error (.inappropriateType _ code reason) =>
    some (reason ++ " (os error " ++ toString code ++ ")")
  | .error other => some (toString other)

end TextDecoration

open TextDecoration in
/-- Run the command line. The arguments are texts by the time they come here, so none of them stops
the program, and there is nothing to be written in that case. -/
def main (arguments : List String) : IO UInt32 := do
  let blank : Invocation :=
    { arguments := arguments.map String.toUTF8
      input := ByteArray.empty, file := fun _ => none
      configVariable := ← IO.getEnv "MARKDECO_CONFIG"
      home := ← IO.getEnv "HOME"
      alarm := fun _ => "" }
  let invocation ← match Request.ofArguments {} arguments with
    | .ok (.decorate options) =>
      let document := Invocation.documentPath options
      let files ← readFiles (document.toList ++ blank.configPath.toList)
      let input ←
        if document.isSome then pure ByteArray.empty
        else readAll (← IO.getStdin) ByteArray.empty
      pure { blank with
        file := fun path => (files.lookup path).bind bytes?
        refusal := fun path => (files.lookup path).bind refusal?
        input }
    | _ => pure blank
  let outcome := invocation.run
  (← IO.getStdout).putStr outcome.output
  (← IO.getStderr).putStr outcome.complaint
  return outcome.code.toUInt32
