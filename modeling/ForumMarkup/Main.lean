import ForumMarkup.CommandLine.Run

/-!
Contract: the program.

Owns: `main`, which reads the files a request names, prints or saves its result and
sets the exit code.

Does not own: what is written; see `ForumMarkup.CommandLine.Run`.
-/

set_option autoImplicit false

namespace ForumMarkup.CommandLine

def readTextFile (path : String) : IO (Except FileFault Text) := do
  try
    return decodeFile (← IO.FS.readBinFile path)
  catch
    | .noFileOrDirectory .. => return .error .notFound
    | other => return .error (.refused (toString other))

def readStandardInput : IO (Except FileFault Text) := do
  let stream ← IO.getStdin
  let mut bytes := ByteArray.empty
  repeat
    let more ← stream.read 65536
    if more.isEmpty then break
    bytes := bytes ++ more
  return decodeFile bytes

def report (failure : Failure) : IO UInt32 := do
  IO.eprintln ("error: " ++ failure.message)
  return 1

def runJob (job : Job) : IO UInt32 := do
  let contents ← job.files.mapM fun path => return (path, ← readTextFile path)
  let stdin ← if job.input = "-" then readStandardInput else pure (.ok [])
  let sources : Sources :=
    { file := fun path => (contents.lookup path).getD (.error .notFound), stdin }
  match job.run sources with
  | .error failure => report failure
  | .ok markdown =>
      match job.target? with
      | none =>
          (← IO.getStdout).putStr (String.ofList markdown)
          return 0
      | some path =>
          try
            IO.FS.writeFile path (String.ofList markdown)
            return 0
          catch
            | .noFileOrDirectory .. => report (.cannotWrite path .notFound)
            | other => report (.cannotWrite path (.refused (toString other)))

end ForumMarkup.CommandLine

open ForumMarkup.CommandLine in
/-- Carries out what the arguments ask for. -/
def main (arguments : List String) : IO UInt32 := do
  match Request.ofArguments? arguments with
  | none =>
      IO.eprintln "error: the arguments make no request"
      return 2
  | some .version =>
      (← IO.getStdout).putStr version
      return 0
  | some .tags =>
      (← IO.getStdout).putStr listing
      return 0
  | some (.convert job) => runJob job
