import QueryForest.Command.Answer

namespace QueryForest.Command

def readFailure : IO.Error → String
  | .noFileOrDirectory _ _ _ => "No such file or directory (os error 2)"
  | error => toString error

/-- Read the bytes that a source refers to; a text given inline needs none. -/
def readOutside (source : Source) : IO (Except String ByteArray) := do
  match source with
  | .absent | .inline _ => return .ok .empty
  | .file path =>
      try
        return .ok (← IO.FS.readBinFile path)
      catch error =>
        return .error (readFailure error)
  | .input =>
      try
        return .ok (← (← IO.getStdin).readBinToEnd)
      catch error =>
        return .error (readFailure error)

end QueryForest.Command

open QueryForest.Command in
def main (arguments : List String) : IO UInt32 := do
  let outcome ←
    match Request.ofArguments? arguments with
    | none => pure Outcome.misused
    | some request => pure (request.answer (← readOutside request.source))
  (← IO.getStdout).putStr outcome.output
  (← IO.getStderr).putStr outcome.errors
  return outcome.exitCode
