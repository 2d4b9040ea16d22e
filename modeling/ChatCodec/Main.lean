import ChatCodec.CommandLine

/-!
# The program

Reads the payload, runs the job, prints the verdict.
-/

namespace ChatCodec

set_option autoImplicit false

/-- Everything that is left in a stream. -/
partial def readAll (stream : IO.FS.Stream) (before : ByteArray) : IO ByteArray := do
  let piece ← stream.read 65536
  if piece.isEmpty then return before else readAll stream (before ++ piece)

/-- The payload of a job. -/
def Job.payload (job : Job) : IO Bytes := do
  match job.path with
  | some path => return (← IO.FS.readBinFile path).toList
  | none => return (← readAll (← IO.getStdin) ByteArray.empty).toList

/-- The verdict on a call of the program. -/
def Invocation.verdict (invocation : Invocation) : IO Verdict := do
  match invocation.plan with
  | .error verdict => return verdict
  | .ok job =>
      match ← job.payload.toBaseIO with
      | .ok payload => return job.run payload
      | .error error => return Job.unreadable (toString error)

end ChatCodec

open ChatCodec

/-- Runs the program. -/
def main (arguments : List String) : IO UInt32 := do
  let invocation : Invocation := ⟨arguments, ← IO.getEnv settingVariable⟩
  let verdict ← invocation.verdict
  IO.eprint verdict.notice
  (← IO.getStdout).write (ByteArray.mk verdict.output.toArray)
  return verdict.exit.toUInt32
