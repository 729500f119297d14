import Recast.Text.Search

/-!
# Arguments

An option has a long name, perhaps a letter, and perhaps a value. The value stands in
the same argument, after an equals sign or right after the letter, or in the next
argument, which then may not look like an option. Letters without values can be
joined. After a double dash everything is an operand.
-/

namespace Recast.CommandLine

structure OptionSpec where
  name : String
  letter? : Option Char := none
  takesValue : Bool := false
  mayRepeat : Bool := false
  mayBeEmpty : Bool := true

/-- Why the arguments ask for no work: they are wrong, or they ask for a text. -/
inductive Stop
  | misuse
  | version
  | help
  deriving DecidableEq, Repr

/-- What one level of the command line accepts. -/
structure Level where
  options : List OptionSpec
  operands : Nat
  subcommands : List String := []

/-- What was read so far. An option may still wait for its value. -/
structure Scan where
  given : List (String × String) := []
  operands : List String := []
  pending? : Option OptionSpec := none
  isTrailing : Bool := false

namespace Scan

def accept (s : Scan) (o : OptionSpec) (value : String) : Except Stop Scan :=
  if o.name == "version" then .error .version
  else if o.name == "help" then .error .help
  else if (!o.mayRepeat && s.given.any (·.1 == o.name)) || (!o.mayBeEmpty && value.isEmpty) then
    .error .misuse
  else .ok { s with given := s.given ++ [(o.name, value)] }

/-- A value in the same argument may follow an equals sign. -/
def attached : List Char → List Char
  | '=' :: r => r
  | r => r

/-- Letters joined in one argument. -/
def letters (options : List OptionSpec) (s : Scan) : List Char → Except Stop Scan
  | [] => .ok s
  | c :: r =>
    match options.find? (·.letter? == some c) with
    | none => .error .misuse
    | some o =>
      if !o.takesValue then do letters options (← s.accept o "") r
      else if r.isEmpty then .ok { s with pending? := some o }
      else s.accept o (.ofList (attached r))

def long (options : List OptionSpec) (s : Scan) (text : List Char) : Except Stop Scan :=
  let name := text.takeWhile (· != '=')
  let value? := (text.drop name.length).tail?
  match options.find? (·.name == .ofList name), value? with
  | none, _ => .error .misuse
  | some o, some value => if o.takesValue then s.accept o (.ofList value) else .error .misuse
  | some o, none => if o.takesValue then .ok { s with pending? := some o } else s.accept o ""

def operand (l : Level) (s : Scan) (arg : String) : Except Stop Scan :=
  if s.operands.length < l.operands then .ok { s with operands := s.operands ++ [arg] }
  else .error .misuse

def step (l : Level) (s : Scan) (arg : String) : Except Stop Scan :=
  match s.isTrailing, arg.toList, s.pending? with
  | true, _, none => operand l s arg
  | true, _, some _ => .error .misuse
  | false, '-' :: '-' :: r, none =>
    if r.isEmpty then .ok { s with isTrailing := true } else long l.options s r
  | false, '-' :: c :: r, none => letters l.options s (c :: r)
  | false, '-' :: _ :: _, some _ => .error .misuse
  | false, _, some o => accept { s with pending? := none } o arg
  | false, _, none => operand l s arg

/-- Reads a level up to a subcommand, and what follows that. -/
def readLevel (l : Level) (s : Scan) :
    List String → Except Stop (Scan × Option (String × List String))
  | [] => if s.pending?.isSome then .error .misuse else .ok (s, none)
  | arg :: args =>
    if !s.isTrailing && s.pending?.isNone && l.subcommands.contains arg then
      .ok (s, some (arg, args))
    else do readLevel l (← s.step l arg) args

def has (s : Scan) (name : String) : Bool := s.given.any (·.1 == name)

def value? (s : Scan) (name : String) : Option String :=
  (s.given.find? (·.1 == name)).map Prod.snd

end Scan

inductive Action
  | analyze
  | convert
  deriving DecidableEq, Repr

structure Request where
  action : Action
  config? : Option String := none
  input? : Option String := none
  name? : Option String := none
  output? : Option String := none
  runTests : Bool := false
  runBuild : Bool := false
  json : Bool := false
  deriving DecidableEq, Repr

namespace Request

/-- Options that stand before a subcommand or after it. -/
def shared : List OptionSpec :=
  [{ name := "verbose", letter? := some 'v', mayRepeat := true },
    { name := "config", letter? := some 'c', takesValue := true, mayBeEmpty := false },
    { name := "help", letter? := some 'h' }]

def nameOption : OptionSpec := { name := "name", letter? := some 'n', takesValue := true }

def top : Level where
  options := { name := "version", letter? := some 'V' } :: shared
  operands := 0
  subcommands := ["analyze", "convert", "help"]

def levelOf : Action → Level
  | .analyze => { options := shared ++ [nameOption, { name := "json" }], operands := 1 }
  | .convert =>
    { options := shared ++ [nameOption,
        { name := "output", letter? := some 'o', takesValue := true, mayBeEmpty := false },
        { name := "run-tests" }, { name := "run-build" }, { name := "json" }]
      operands := 1 }

/-- A shared option after the subcommand wins over the same one before it. -/
def ofScans (action : Action) (outer inner : Scan) : Request where
  action := action
  config? := (inner.value? "config").or (outer.value? "config")
  input? := inner.operands.head?
  name? := inner.value? "name"
  output? := inner.value? "output"
  runTests := inner.has "run-tests"
  runBuild := inner.has "run-build"
  json := inner.has "json"

/-- The text asked for, if the command that it is about exists. -/
def helpFor : List String → Stop
  | [] | ["analyze"] | ["convert"] | ["help"] => .help
  | _ => .misuse

def read (args : List String) : Except Stop Request := do
  let (outer, subcommand?) ← Scan.readLevel top {} args
  match subcommand? with
  | none => .error .misuse
  | some ("help", rest) => .error (helpFor rest)
  | some (name, rest) =>
    let action := if name == "analyze" then Action.analyze else .convert
    let (inner, _) ← Scan.readLevel (levelOf action) {} rest
    return ofScans action outer inner

end Request

end Recast.CommandLine
