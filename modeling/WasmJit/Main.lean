import Std.Time
import WasmJit.CommandLine

/-!
# The program

Reads the files a request names and writes its outcome.
-/

namespace WasmJit

/-- The contents of a file. A failure to open it names the file, one to read it does not. -/
def contentOf (path : String) : IO Content := do
  if path.toList.contains '\x00' then
    return .error .invalidPath
  try
    return .ok (← IO.FS.readBinFile path).toList
  catch
    | .noFileOrDirectory .. => return .error .notFound
    | .inappropriateType (some _) .. => return .error .notDirectory
    | .inappropriateType none .. => return .error .isDirectory
    | .invalidArgument .. => return .error .nameTooLong
    | e => return .error (.other (toString e))

/-- The current time. -/
def currentStamp : IO Log.Stamp := do
  let now ← Std.Time.DateTime.now
  let nanoseconds := now.timestamp.toNanosecondsSinceUnixEpoch.toInt.toNat
  let fraction := toString (1000000 + nanoseconds / 1000 % 1000000)
  return ⟨now.format "uuuu-MM-dd'T'HH:mm:ss.SSSZ",
    toString (nanoseconds / 1000000000) ++ "." ++ String.ofList fraction.toList.tail⟩

/-- The outcome of the program on its arguments. -/
def outcomeOf (args : List String) : IO Outcome := do
  match Request.parse args with
  | .error o => return o
  | .ok r => return r.answer (← currentStamp) (← contentOf r.config) (← contentOf r.binary)

end WasmJit

/-- Carries out the request on the command line. -/
def main (args : List String) : IO UInt32 := do
  let o ← WasmJit.outcomeOf args
  (← IO.getStdout).putStr o.out
  (← IO.getStderr).putStr o.err
  return UInt32.ofNat o.exitCode
