import ProcProfile.Host

/-!
# Command-line arguments

A command line names one command and its options.  An option is written `--name value`, `--name=value`,
or, if it has a letter, `-n value`, `-nvalue` or `-n=value`; letters without values may stand together.
Every option may be given once; `--verbose` may be given once before and once after the command.  A
value that begins with a dash has to be attached.  Arguments are judged in their order: `--help` shows
the help unless something before it is not understood.

Main definitions: `CommandLine`, `OptionSpec`, `CommandLine.parse`.
-/

namespace ProcProfile

/-- What a command line asks for. -/
inductive CommandLine where
  | init (region : String) (capacity units : UInt64)
  | info (region : String)
  | reset (region : String) (unit : Option UnitKey)
  | dump (region output : String)
  | schema (details : Bool)
  | version
  /-- The name and version of the program. -/
  | programVersion
  | help
  deriving DecidableEq, Repr

/-- An option of a command. -/
structure OptionSpec where
  name : String
  letter : Option Char
  /-- Which values the option takes; a flag takes none. -/
  accepts : Option (String → Bool)

/-- The options given to a command; flags have an empty value. -/
abbrev Given := List (String × String)

/-- Why the options of a command were not all read. -/
inductive OptionStop where
  | help
  | invalid

namespace CommandLine

/-! ### Values -/

/-- A row of decimal digits. -/
def readDecimal? (digits : List Char) : Option Nat :=
  if digits.isEmpty || !digits.all Char.isDigit then none
  else some (digits.foldl (fun n c => 10 * n + (c.toNat - '0'.toNat)) 0)

/-- A number of a word's size; a plus sign may precede it. -/
def readSize? (value : String) : Option UInt64 := do
  let n ← readDecimal? (match value.toList with | '+' :: rest => rest | digits => digits)
  if n < UInt64.size then return UInt64.ofNat n else none

/-- An object id; a sign may precede it, and minus zero is zero. -/
def readId? (value : String) : Option UInt32 := do
  match value.toList with
  | '-' :: digits => if (← readDecimal? digits) = 0 then return 0 else none
  | '+' :: digits => ofNat? (← readDecimal? digits)
  | digits => ofNat? (← readDecimal? digits)
where
  ofNat? (n : Nat) : Option UInt32 := if n < UInt32.size then some (UInt32.ofNat n) else none

end CommandLine

namespace OptionSpec

def verbose : OptionSpec := ⟨"verbose", some 'v', none⟩

def helpFlag : OptionSpec := ⟨"help", some 'h', none⟩

/-- An option whose value is a path, which is not empty. -/
def path (name : String) (letter : Option Char) : OptionSpec := ⟨name, letter, some (· != "")⟩

def size (name : String) (letter : Option Char) : OptionSpec :=
  ⟨name, letter, some fun value => (CommandLine.readSize? value).isSome⟩

def id (name : String) (letter : Option Char) : OptionSpec :=
  ⟨name, letter, some fun value => (CommandLine.readId? value).isSome⟩

def region : OptionSpec := path "region" (some 'r')

def takesValue (spec : OptionSpec) : Bool := spec.accepts.isSome

end OptionSpec

namespace CommandLine

/-- An argument split at its first equals sign. -/
def splitValue (arg : List Char) : List Char × Option (List Char) :=
  match arg.dropWhile (· != '=') with
  | [] => (arg, none)
  | _ :: value => (arg.takeWhile (· != '='), some value)

/-- Notes an option; an option comes only once and with a value that it takes. -/
def note (given : Given) (spec : OptionSpec) (value : String) : Except OptionStop Given :=
  if spec.name = "help" then .error .help
  else if (given.lookup spec.name).isSome || spec.accepts.any (fun accepts => !accepts value) then
    .error .invalid
  else .ok ((spec.name, value) :: given)

/-- Whether an argument can be the value of the option before it. -/
def isValue (arg : String) : Bool :=
  match arg.toList with
  | '-' :: _ :: _ => false
  | _ => true

/-- Reads letters that stand together.  The answer also says which option still waits for its value. -/
def readLetters (specs : List OptionSpec) (given : Given) :
    List Char → Except OptionStop (Given × Option OptionSpec)
  | [] => .ok (given, none)
  | c :: rest =>
    match specs.find? fun s => s.letter == some c with
    | none => .error .invalid
    | some spec =>
      if spec.takesValue then
        match rest with
        | [] => .ok (given, some spec)
        | '=' :: value => (fun g => (g, none)) <$> note given spec (String.ofList value)
        | value => (fun g => (g, none)) <$> note given spec (String.ofList value)
      else do
        let given ← note given spec ""
        readLetters specs given rest

/-- Reads one argument that begins with a dash. -/
def readOption (specs : List OptionSpec) (given : Given) (arg : List Char) :
    Except OptionStop (Given × Option OptionSpec) :=
  match arg with
  | '-' :: '-' :: name =>
    let (name, value) := splitValue name
    match specs.find? fun s => s.name == String.ofList name, value with
    | none, _ => .error .invalid
    | some spec, none =>
      if spec.takesValue then .ok (given, some spec)
      else (fun g => (g, none)) <$> note given spec ""
    | some spec, some value =>
      if spec.takesValue then (fun g => (g, none)) <$> note given spec (String.ofList value)
      else .error .invalid
  | '-' :: letters => readLetters specs given letters
  | _ => .error .invalid

/-- Reads the options of a command; `pending` waits for its value. -/
def readOptions (specs : List OptionSpec) :
    (given : Given) → (pending : Option OptionSpec) → List String → Except OptionStop Given
  | given, none, [] => .ok given
  | _, some _, [] => .error .invalid
  | given, some spec, arg :: rest =>
    if isValue arg then do
      let given ← note given spec arg
      readOptions specs given none rest
    else .error .invalid
  | given, none, arg :: rest =>
    if arg = "--" then if rest.isEmpty then .ok given else .error .invalid
    else if isValue arg then .error .invalid
    else do
      let (given, pending) ← readOption specs given arg.toList
      readOptions specs given pending rest

/-! ### Commands -/

/-- The value of an option, or another if it is not given. -/
def valueOr {α : Type} (given : Given) (name : String) (read : String → Option α) (value : α) :
    Option α :=
  match given.lookup name with
  | none => some value
  | some text => read text

/-- The region file: as an option, or else from the environment. -/
def regionOf (given : Given) (environment : Option String) : Option String :=
  match given.lookup "region", environment with
  | some path, _ => some path
  | none, some path => if path = "" then none else some path
  | none, none => none

/-- The options of a command, beside those that every command has. -/
def optionsOf (command : String) : Option (List OptionSpec) :=
  match command with
  | "init" => some [.region, .size "capacity" (some 'c'), .size "units" none]
  | "info" => some [.region]
  | "reset" => some [.region, .id "unit" none, .id "db" none]
  | "dump" => some [.region, .path "output" (some 'o')]
  | "schema" => some [⟨"show", none, none⟩]
  | "version" => some []
  | _ => none

/-- The procedure of a reset: its id and its database go together. -/
def unitOf (given : Given) : Option (Option UnitKey) :=
  match given.lookup "unit", given.lookup "db" with
  | none, none => some none
  | some unit, some db => do return some ⟨← readId? unit, ← readId? db⟩
  | _, _ => none

/-- The command with its options. -/
def assemble (command : String) (given : Given) (environment : Option String) :
    Option CommandLine :=
  match command with
  | "init" => do
    let region ← regionOf given environment
    let capacity ← valueOr given "capacity" readSize? defaultCapacity
    let units ← valueOr given "units" readSize? defaultUnitCapacity
    return .init region capacity units
  | "info" => do return .info (← regionOf given environment)
  | "reset" => do return .reset (← regionOf given environment) (← unitOf given)
  | "dump" => do
    let region ← regionOf given environment
    let output ← valueOr given "output" some "region-dump.json"
    return .dump region output
  | "schema" => some (.schema (given.lookup "show").isSome)
  | "version" => some .version
  | _ => none

/-- Reads a command and its options. -/
def parseCommand (command : String) (args : List String) (environment : Option String) :
    Option CommandLine := do
  let specs ← optionsOf command
  match readOptions (.verbose :: .helpFlag :: specs) [] none args with
  | .ok given => assemble command given environment
  | .error .help => return .help
  | .error .invalid => none

/-- Reads the letters before the command: whether `-v` was among them, or what they ask for at once. -/
def readTopLetters (verbose : Bool) : List Char → Option (Bool ⊕ CommandLine)
  | [] => some (.inl verbose)
  | 'v' :: rest => if verbose then none else readTopLetters true rest
  | 'V' :: _ => some (.inr .programVersion)
  | 'h' :: _ => some (.inr .help)
  | _ => none

/-- Reads what precedes the command, and the command. -/
def parseFrom (environment : Option String) : (verbose : Bool) → List String → Option CommandLine
  | _, [] => none
  | verbose, arg :: rest =>
    match arg.toList with
    | '-' :: '-' :: _ =>
      if arg = "--verbose" then if verbose then none else parseFrom environment true rest
      else if arg = "--version" then some .programVersion
      else if arg = "--help" then some .help
      else none
    | '-' :: c :: letters =>
      match readTopLetters verbose (c :: letters) with
      | none => none
      | some (.inl verbose) => parseFrom environment verbose rest
      | some (.inr line) => some line
    | _ =>
      if arg = "help" then
        match rest with
        | [] => some .help
        | [command] => if command = "help" || (optionsOf command).isSome then some .help else none
        | _ => none
      else parseCommand arg rest environment

/-- What a command line asks for, with the region file that the environment names; none if it is not
understood. -/
def parse (args : List String) (environment : Option String) : Option CommandLine :=
  parseFrom environment false args

end CommandLine

end ProcProfile
