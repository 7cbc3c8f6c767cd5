import ProcProfile.Command
import ProcProfile.Command.Arguments

/-!
# Running a command line

A command line that is not understood ends with code 2, a failed command with code 1 and the chain of
its causes, a fault with code 101, and everything else with code 0.

Main definitions: `Exit`, `failureText`, `Host.runCommand`.
-/

namespace ProcProfile

/-- How a run of the program ended, and what it wrote. -/
structure Exit where
  code : Nat
  printed : String
  complaint : String

/-- A line of a cause; lines after the first are set in as far as the first. -/
def indentLines (first further : String) (text : String) : String :=
  match text.splitOn "\n" with
  | [] => first
  | line :: rest => first ++ line ++ String.join (rest.map fun l => "\n" ++ further ++ l)

/-- The causes of a failure; they are numbered if there are several. -/
def causesText (causes : List String) : String :=
  match causes with
  | [cause] => "\n" ++ indentLines "    " "    " cause
  | _ => String.join (causes.mapIdx fun i cause =>
      let number := toString i
      let blanks := String.ofList (List.replicate (5 - number.length) ' ')
      "\n" ++ indentLines (blanks ++ number ++ ": ") "       " cause)

/-- What a failed command says. -/
def failureText (e : CommandError) : String :=
  match e.chain with
  | [] => "Error: \n"
  | [text] => "Error: " ++ text ++ "\n"
  | text :: causes => "Error: " ++ text ++ "\n\nCaused by:" ++ causesText causes ++ "\n"

/-- The exit of a command. -/
def Outcome.exit {α : Type} (o : Outcome α) : Exit :=
  match o.result with
  | .ok _ => ⟨0, o.printed, ""⟩
  | .error (.error e) => ⟨1, o.printed, failureText e⟩
  | .error (.fault f) => ⟨101, o.printed, f.message ++ "\n"⟩

/-- How the program is to be called. -/
def usageText : String :=
  "Usage: plprofiler [OPTIONS] <COMMAND>\n\n" ++
  "Commands:\n" ++
  "  init     Create a shared region file (validates an existing one)\n" ++
  "  info     Show capacity and usage of a region\n" ++
  "  reset    Remove stored profiles\n" ++
  "  dump     Write every stored chunk to a JSON file\n" ++
  "  schema   Display report schema information\n" ++
  "  version  Display version information\n"

namespace Host

/-- Carries out a command. -/
def runCommand (h : Host) (command : CommandLine) (generatedAt : String) : Host × Exit :=
  match command with
  | .init region capacity units =>
    let (h, outcome) := h.initRegion region capacity units
    (h, outcome.exit)
  | .info region =>
    let (h, outcome) := h.showInfo region
    (h, outcome.exit)
  | .reset region unit =>
    let (h, outcome) := h.resetRegion region unit
    (h, outcome.exit)
  | .dump region output =>
    let (h, outcome) := h.dumpRegion region output generatedAt
    (h, outcome.exit)
  | .schema details => (h, ⟨0, schemaText details, ""⟩)
  | .version => (h, ⟨0, versionText, ""⟩)
  | .programVersion => (h, ⟨0, "plprofiler " ++ programVersion ++ "\n", ""⟩)
  | .help => (h, ⟨0, usageText, ""⟩)

/-- Runs the program with some arguments and the region file that the environment names. -/
def run (h : Host) (args : List String) (environment : Option String) (generatedAt : String) :
    Host × Exit :=
  match CommandLine.parse args environment with
  | none => (h, ⟨2, "", usageText⟩)
  | some command => h.runCommand command generatedAt

end Host

end ProcProfile
