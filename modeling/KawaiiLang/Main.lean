import KawaiiLang.CommandLine.Call

namespace KawaiiLang.CommandLine

/-- More fuel than any run can use up in the time that a machine lasts. -/
def abundantFuel : Nat :=
  1000000000000000000

/-- Looks for a script under a path. -/
def findScript (path : String) : IO Script := do
  try
    return .content (← IO.FS.readBinFile path)
  catch
    | .noFileOrDirectory .. => return .missing
    | .inappropriateType .. => return .directory
    | problem => return .unreadable (toString problem)

/-- Reads a stream to its end. -/
partial def readAll (stream : IO.FS.Stream) (read : ByteArray) : IO ByteArray := do
  let more ← stream.read 65536
  if more.isEmpty then
    return read
  else
    readAll stream (read ++ more)

end KawaiiLang.CommandLine

open KawaiiLang.CommandLine

/-- Runs the script named by the arguments, or holds an interactive session. -/
def main (arguments : List String) : IO UInt32 := do
  let result ← match Options.ofArguments arguments with
    | .error stop => pure stop.result
    | .ok options => do
      let script ← match options.file with
        | some path => findScript path
        | none => pure .missing
      let input ← readAll (← IO.getStdin) .empty
      pure (options.run abundantFuel script ⟨input.toList⟩)
  let output ← IO.getStdout
  output.write result.output
  output.flush
  for line in result.reports do
    IO.eprintln line
  return result.exitCode.toUInt32
