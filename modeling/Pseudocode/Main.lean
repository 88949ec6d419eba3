import Pseudocode.CommandLine

set_option autoImplicit false

namespace Pseudocode

/-- What kept a file from being read. -/
def faultOf : IO.Error → CommandLine.FileFault
  | .noFileOrDirectory .. => .missing
  | .inappropriateType _ 21 _ => .directory
  | .inappropriateType .. => .notDirectory
  | .permissionDenied _ code details | .invalidArgument _ code details
  | .resourceExhausted _ code details =>
      .other (details ++ " (os error " ++ toString code ++ ")").toList
  | e => .other (toString e).toList

def readText (path : Text) : IO (Except CommandLine.FileFault Text) := do
  try
    let data ← IO.FS.readBinFile (String.ofList path)
    match Text.decode data.toList with
    | some text => return .ok text
    | none => return .error .notUtf8
  catch e => return .error (faultOf e)

end Pseudocode

open Pseudocode in
def main (args : List String) : IO UInt32 := do
  let args := args.map String.toList
  let files ← (CommandLine.paths args).mapM fun path => do return (path, ← readText path)
  let lookUp : CommandLine.Files := fun path =>
    (files.lookup path).getD (.error .missing)
  let stdin ← match CommandLine.read {} args with
    | some (.command _ (.run _)) | some (.command _ .repl) => do
        let data ← (← IO.getStdin).readBinToEnd
        pure data.toList
    | _ => pure []
  let result := CommandLine.answer lookUp stdin args
  (← IO.getStdout).write ⟨result.stdout.toArray⟩
  (← IO.getStderr).putStr (String.ofList result.stderr)
  return result.code.toUInt32
