import TemplateScript.Listing
import TemplateScript.Template.Document

/-!
# The command line

A command is applied to each file in turn and adds to a report; a file that cannot be read or lexed
adds one message and does not stop the others.  The run is a function of the arguments and of what
reading each path gives, so its outcome is a value: what is printed and the exit status.

The arguments are Unicode text.  A program that is started with other bytes among them ends before it
does anything, and has no outcome here.  Nor has the log of its own work that it writes when the
environment asks for one.
-/

namespace TemplateScript

namespace Command

/-- What the command line does to a file. -/
inductive Action
  /-- List the segments. -/
  | segments
  /-- List the tokens of every block. -/
  | tokens
  /-- Check that the file lexes. -/
  | check
deriving DecidableEq, Repr

/-- The action of this name. -/
def Action.ofName? : String → Option Action
  | "segments" => some .segments
  | "tokens" => some .tokens
  | "check" => some .check
  | _ => none

/-- What has been printed so far, and whether a file failed. -/
structure Report where
  output : String := ""
  errors : String := ""
  failed : Bool := false
deriving DecidableEq, Repr

namespace Report

/-- One report after the other. -/
def append (a b : Report) : Report :=
  ⟨a.output ++ b.output, a.errors ++ b.errors, a.failed || b.failed⟩

instance : Append Report := ⟨append⟩

/-- A file that failed, with the reason. -/
def failure (path reason : String) : Report :=
  { errors := path ++ ": " ++ reason ++ "\n", failed := true }

end Report

/-- What is printed in all, and the exit status. -/
structure Outcome where
  status : UInt32
  output : String
  errors : String
deriving DecidableEq, Repr

/-- The outcome after the last file: status 1 when one of them failed. -/
def Report.outcome (r : Report) : Outcome :=
  ⟨if r.failed then 1 else 0, r.output, r.errors⟩

/-- The outcome of wrong usage: status 2. -/
def usageError (r : Report) (message : String) : Outcome :=
  ⟨2, r.output, r.errors ++ message⟩

/-! ### The actions -/

/-- The tokens of all blocks, listed. -/
def listTokens (document : Bytes) (blocks : List Template.Block) : String :=
  String.join (blocks.filterMap (·.tokens?.map fun ts => Listing.tokens document ts.toList))

/-- The message about a file that lexes: how many blocks and tokens it has. -/
def checked (path : String) (blocks : List Template.Block) : String :=
  let tokens := blocks.filterMap (·.tokens?)
  path ++ ": ok (" ++ toString tokens.length ++ " code block(s), " ++
    toString (tokens.foldl (fun n ts => n + ts.size) 0) ++ " token(s))\n"

/-- What an action adds to the report for a file of this content. -/
def Action.run (action : Action) (options : Options) (path : String) (content : Bytes) : Report :=
  match action with
  | segments => { output := Listing.segments content (Template.split content options) }
  | tokens =>
    match Template.lex content options with
    | .ok blocks => { output := listTokens content blocks }
    | .error e => .failure path e.message
  | check =>
    match Template.lex content options with
    | .ok blocks => { errors := checked path blocks }
    | .error e => .failure path e.message

/-! ### The run -/

/-- The flag that turns open constructs into errors. -/
def strictFlag : String := "--strict"

/-- The usage text. -/
def usage : String :=
  "Usage: scriptlex <command> [--strict] [files...]\n" ++
  "\n" ++
  "Commands:\n" ++
  "  segments  Print the RAW/CODE segments of each file\n" ++
  "  tokens    Print the tokens of every CODE block\n" ++
  "  check     Check that each file lexes without errors\n" ++
  "\n" ++
  "Options:\n" ++
  "  --strict  Report unterminated strings, comments and heredocs\n"

/-- The options that the arguments after the command ask for. -/
def optionsOf (arguments : List String) : Options :=
  if arguments.contains strictFlag then Options.strict {} else {}

/-- The paths among the arguments after the command. -/
def pathsOf (arguments : List String) : List String :=
  arguments.filter (· != strictFlag)

/-- Runs the command of this name on the files, after what is already in the report.  A name that
means no action is noticed at the first file that can be read. -/
def runFiles (name : String) (options : Options) (read : String → Except String Bytes) :
    Report → List String → Outcome
  | report, [] => report.outcome
  | report, path :: paths =>
    match read path with
    | .error reason => runFiles name options read (report ++ .failure path reason) paths
    | .ok content =>
      match Action.ofName? name with
      | none => usageError report ("Unknown command: " ++ name ++ "\n")
      | some action =>
        runFiles name options read (report ++ action.run options path content) paths

/-- The outcome of the command line, where `read` gives the bytes of a file or the reason why they
cannot be read.  The arguments are valid Unicode: with any other the program ends before this run
begins.  What is printed is what the command prints; the log that the environment can ask for is left
out. -/
def run (read : String → Except String Bytes) (arguments : List String) : Outcome :=
  match arguments with
  | [] => usageError {} usage
  | name :: rest =>
    if name = "--help" ∨ name = "-h" then usageError {} usage
    else if pathsOf rest = [] then usageError {} "Error: no files specified\n"
    else runFiles name (optionsOf rest) read {} (pathsOf rest)

end Command

end TemplateScript
