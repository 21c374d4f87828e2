import TemplateScript.Command

/-!
# The program

Reads the files named on the command line, runs the command on their contents and prints its
outcome.
-/

namespace TemplateScript.Command

/-- The number and the description that the system gave for an error, if it gave any. -/
def systemReason? : IO.Error → Option (UInt32 × String)
  | .alreadyExists _ code details | .otherError code details | .resourceBusy code details
  | .resourceVanished code details | .unsupportedOperation code details
  | .hardwareFault code details | .unsatisfiedConstraints code details
  | .illegalOperation code details | .protocolError code details | .timeExpired code details
  | .interrupted _ code details | .noFileOrDirectory _ code details
  | .invalidArgument _ code details | .permissionDenied _ code details
  | .resourceExhausted _ code details | .inappropriateType _ code details
  | .noSuchThing _ code details => some (code, details)
  | .unexpectedEof | .userError _ => none

/-- The reason why a file cannot be read: the system's description, capitalised, and its number.
Some calls give the number negated. -/
def readFailure (e : IO.Error) : String :=
  match systemReason? e with
  | some (code, details) =>
    let number := if code.toNat < 0x80000000 then code.toNat else 0x100000000 - code.toNat
    details.capitalize ++ " (os error " ++ toString number ++ ")"
  | none => toString e

/-- The bytes of a file, or the reason why they cannot be read. -/
def readFile (path : String) : IO (Except String Bytes) := do
  try
    let content ← IO.FS.readBinFile path
    return .ok content.toList
  catch e =>
    return .error (readFailure e)

end TemplateScript.Command

/-- Runs the command line. -/
def main (arguments : List String) : IO UInt32 := do
  let contents ← (TemplateScript.Command.pathsOf arguments.tail).mapM fun path => do
    return (path, ← TemplateScript.Command.readFile path)
  let read := fun path => (contents.lookup path).getD (.error "")
  let outcome := TemplateScript.Command.run read arguments
  IO.print outcome.output
  IO.eprint outcome.errors
  return outcome.status
