import Recast.Decimal.Print
import Recast.Shell.State

/-!
# Small tools

The programs that every shell knows: printing, tests on texts and files, simple work
on files, waiting and signals. A tool takes its arguments and the state of the
shell, and leaves its status there.
-/

namespace Recast.Shell

/-- A tool gets the line it stands on and its arguments. -/
abbrev Tool := Nat → List String → State → State

namespace Tool

def isOctal (c : Char) : Bool := '0' ≤ c && c ≤ '7'

def octalByte (ds : List Char) : UInt8 :=
  .ofNat (ds.foldl (fun n d => 8 * n + (d.toNat - 48)) 0)

def letterEscape? : Char → Option UInt8
  | 'a' => some 7
  | 'b' => some 8
  | 'f' => some 12
  | 'n' => some 10
  | 'r' => some 13
  | 't' => some 9
  | 'v' => some 11
  | '\\' => some 92
  | _ => none

/-- The bytes of a text with backslash escapes, and whether an escape ended the output.
A byte in base eight has up to three digits, after a zero where `zeroFirst` holds. -/
def unescape (zeroFirst : Bool) : Nat → List Char → Bytes × Bool
  | 0, _ => ([], false)
  | _, [] => ([], false)
  | n + 1, '\\' :: c :: r =>
    let after (bs : Bytes) (rest : List Char) : Bytes × Bool :=
      let (more, ends) := unescape zeroFirst n rest
      (bs ++ more, ends)
    match letterEscape? c with
    | some b => after [b] r
    | none =>
      if c == 'c' then ([], true)
      else if zeroFirst && c == '0' then
        let ds := (r.take 3).takeWhile isOctal
        after [octalByte ds] (r.drop ds.length)
      else if !zeroFirst && isOctal c then
        let ds := ((c :: r).take 3).takeWhile isOctal
        after [octalByte ds] ((c :: r).drop ds.length)
      else after (bytesOf (.ofList ['\\', c])) r
  | n + 1, c :: r =>
    let (more, ends) := unescape zeroFirst n r
    (bytesOf (.ofList [c]) ++ more, ends)

def unescapeAll (zeroFirst : Bool) (text : String) : Bytes × Bool :=
  unescape zeroFirst (text.length + 1) text.toList

/-- Prints its arguments with escapes replaced. -/
def echo : Tool := fun _ args s =>
  let (newLine, args) := match args with
    | "-n" :: r => (false, r)
    | r => (true, r)
  let (bytes, ends) := unescapeAll true (" ".intercalate args)
  (s.emit (if newLine && !ends then bytes ++ [10] else bytes)).setStatus 0

/-- Prints its arguments as they are. -/
def plainEcho : Tool := fun _ args s =>
  match args with
  | "-n" :: r => (s.say (" ".intercalate r)).setStatus 0
  | r => (s.say (" ".intercalate r ++ "\n")).setStatus 0

structure Directive where
  leftAligned : Bool
  zeroFilled : Bool
  width : Nat
  precision? : Option Nat
  conversion : Char

/-- The directive after a percent sign. -/
def directive? (text : List Char) : Option (Directive × List Char) :=
  let flags := text.takeWhile ("-+ #0".toList.contains ·)
  let r := text.drop flags.length
  let width := r.takeWhile Char.isDigit
  let r := r.drop width.length
  let (precision?, r) := match r with
    | '.' :: r =>
      let ds := r.takeWhile Char.isDigit
      (some ((String.ofList ds).toNat?.getD 0), r.drop ds.length)
    | r => (none, r)
  match r with
  | c :: r =>
    some (⟨flags.contains '-', flags.contains '0', (String.ofList width).toNat?.getD 0, precision?, c⟩,
      r)
  | [] => none

def pad (d : Directive) (bytes : Bytes) : Bytes :=
  let fill := List.replicate (d.width - bytes.length) (if d.zeroFilled && !d.leftAligned then 48 else 32)
  if d.leftAligned then bytes ++ fill else fill ++ bytes

def inBase (base n : Nat) : String := .ofList (Nat.toDigits base n)

/-- The bytes that a directive makes of an argument, and whether it could. -/
def convert (d : Directive) (arg : String) : Bytes × Bool :=
  let number := arg.toInt?.getD 0
  let isNumber := arg.isEmpty || arg.toInt?.isSome
  match d.conversion with
  | 's' =>
    let text := match d.precision? with
      | some n => String.ofList (arg.toList.take n)
      | none => arg
    (pad d (bytesOf text), true)
  | 'b' => (pad d (unescapeAll true arg).1, true)
  | 'c' => (pad d (bytesOf (.ofList (arg.toList.take 1))), true)
  | 'd' | 'i' => (pad d (bytesOf (toString number)), isNumber)
  | 'u' => (pad d (bytesOf (toString number.toNat)), isNumber)
  | 'o' => (pad d (bytesOf (inBase 8 number.toNat)), isNumber)
  | 'x' => (pad d (bytesOf (inBase 16 number.toNat)), isNumber)
  | 'X' => (pad d (bytesOf (inBase 16 number.toNat).toUpper), isNumber)
  | 'f' =>
    let x := (Decimal.float? arg.toList).getD 0.0
    (pad d (bytesOf (Decimal.fixed (d.precision?.getD 6) x)), isNumber || (Decimal.float? arg.toList).isSome)
  | _ => ([], false)

/-- One run through a format: the bytes, the arguments left, and what was no number. -/
def format : Nat → List Char → List String → Bytes × List String × List String
  | 0, _, args => ([], args, [])
  | _, [], args => ([], args, [])
  | n + 1, '%' :: r, args =>
    match r, directive? r with
    | '%' :: r, _ =>
      let (bs, args, bad) := format n r args
      (37 :: bs, args, bad)
    | _, some (d, r) =>
      let arg := args.headD ""
      let (bytes, fine) := convert d arg
      let (bs, args, bad) := format n r args.tail
      (bytes ++ bs, args, if fine then bad else arg :: bad)
    | _, none => ([37], args, [])
  | n + 1, text, args =>
    let plain := text.takeWhile (· != '%')
    let (bytes, ends) := unescape false (plain.length + 1) plain
    if ends then (bytes, [], [])
    else
      let (bs, args, bad) := format n (text.drop plain.length) args
      (bytes ++ bs, args, bad)

/-- Runs through the format until no argument is left. -/
def formatAll (text : List Char) : Nat → List String → Bytes × List String
  | 0, _ => ([], [])
  | n + 1, args =>
    let (bytes, left, bad) := format (text.length + 1) text args
    if left.isEmpty || left.length == args.length then (bytes, bad)
    else
      let (more, worse) := formatAll text n left
      (bytes ++ more, bad ++ worse)

def printf : Tool := fun line args s =>
  match args with
  | [] => s.fail line "printf: usage: printf format [arg ...]" 2
  | text :: args =>
    let (bytes, bad) := formatAll text.toList (args.length + 1) args
    let s := bad.foldl (fun s a => s.fail line ("printf: " ++ a ++ ": expected numeric value") 1) s
    (s.emit bytes).setStatus (if bad.isEmpty then 0 else 1)

def isFile (s : State) (path : String) : Bool :=
  match s.disk.stat path with
  | .ok (.file _) => true
  | _ => false

def isDirectory (s : State) (path : String) : Bool :=
  match s.disk.stat path with
  | .ok .directory => true
  | _ => false

def isFilled (s : State) (path : String) : Bool :=
  match s.disk.read path with
  | .ok content => content.size != 0
  | .error _ => false

def unaryTest? (s : State) (op arg : String) : Option Bool :=
  match op with
  | "-n" => some (!arg.isEmpty)
  | "-z" => some arg.isEmpty
  | "-e" | "-r" | "-w" => some (isFile s arg || isDirectory s arg)
  | "-f" => some (isFile s arg)
  | "-d" => some (isDirectory s arg)
  | "-s" => some (isFilled s arg)
  | "-x" => some (isDirectory s arg)
  | _ => none

def binaryTest? (a op b : String) : Option Bool :=
  let numbers (p : Int → Int → Bool) : Option Bool := do return p (← a.toInt?) (← b.toInt?)
  match op with
  | "=" | "==" => some (a == b)
  | "!=" => some (a != b)
  | "-eq" => numbers (· == ·)
  | "-ne" => numbers (· != ·)
  | "-lt" => numbers (· < ·)
  | "-le" => numbers (· ≤ ·)
  | "-gt" => numbers (· > ·)
  | "-ge" => numbers (· ≥ ·)
  | _ => none

def holds? (s : State) : List String → Option Bool
  | [] => some false
  | [a] => some (!a.isEmpty)
  | "!" :: rest => (holds? s rest).map (!·)
  | [op, a] => unaryTest? s op a
  | [a, op, b] => binaryTest? a op b
  | _ => none

def test : Tool := fun line args s =>
  match holds? s args with
  | some true => s.setStatus 0
  | some false => s.setStatus 1
  | none =>
    match args with
    | [a, _, b] =>
      let wrong := if a.toInt?.isSome then b else a
      s.fail line ("test: Illegal number: " ++ wrong) 2
    | _ => s.fail line "test: unexpected operator" 2

/-- The same between brackets. -/
def bracket : Tool := fun line args s =>
  if args.getLast? == some "]" then test line args.dropLast s
  else s.fail line "[: missing ]" 2

def status (n : Nat) : Tool := fun _ _ s => s.setStatus n

/-- A tool that treats each argument and fails if one of them does. -/
def onEach (step : State → String → Except String State) (args : List String) (s : State) : State :=
  args.foldl (fun s a =>
    match step s a with
    | .ok s => s
    | .error text => (s.complain text).setStatus 1) (s.setStatus 0)

def cat : Tool := fun _ args s =>
  onEach (fun s a =>
    if a == "-" then .ok { s.emit s.input with input := [] }
    else
      match s.disk.read a with
      | .ok content => .ok (s.emit content.toList)
      | .error e => .error ("cat: " ++ a ++ ": " ++ e.text))
    (if args.isEmpty then ["-"] else args) s

def mkdir : Tool := fun _ args s =>
  let parents := args.contains "-p"
  onEach (fun s a =>
    let complaint (e : DiskFault) : String :=
      "mkdir: cannot create directory ‘" ++ a ++ "’: " ++ e.text
    if parents then
      match s.disk.makeDirectories a with
      | (disk, .ok ()) => .ok { s with disk }
      | (_, .error e) => .error (complaint e)
    else
      match s.disk.makeDirectory a with
      | .ok disk => .ok { s with disk }
      | .error e => .error (complaint e))
    (args.filter (· != "-p")) s

def touch : Tool := fun _ args s =>
  onEach (fun s a =>
    match s.disk.stat a with
    | .ok _ => .ok s
    | .error .notFound =>
      match s.disk.write a .empty with
      | .ok disk => .ok { s with disk }
      | .error e => .error ("touch: cannot touch '" ++ a ++ "': " ++ e.text)
    | .error e => .error ("touch: cannot touch '" ++ a ++ "': " ++ e.text)) args s

/-- Removes files, and directories with all below them where that is asked for. -/
def rm : Tool := fun _ args s =>
  let options := (args.filter (Text.startsWith ·.toList ['-'])).flatMap String.toList
  let deep := options.contains 'r' || options.contains 'R'
  onEach (fun s a =>
    let complaint (text : String) : Except String State :=
      .error ("rm: cannot remove '" ++ a ++ "': " ++ text)
    match s.disk.place a, s.disk.stat a with
    | .ok (.child parent name _), .ok e =>
      let path := parent ++ [name]
      match e, deep with
      | .directory, false => complaint "Is a directory"
      | _, _ =>
        .ok { s with
          disk := { s.disk with entries := s.disk.entries.filter fun e => !path.isPrefixOf e.1 } }
    | _, .error e => if options.contains 'f' && e == .notFound then .ok s else complaint e.text
    | _, _ => complaint "Is a directory")
    (args.filter (!Text.startsWith ·.toList ['-'])) s

/-- Milliseconds of a time in seconds or in the unit after it. -/
def millis? (text : String) : Option Nat :=
  let cs := text.toList
  let (number, unit) := match cs.getLast? with
    | some 's' => (cs.dropLast, 1)
    | some 'm' => (cs.dropLast, 60)
    | some 'h' => (cs.dropLast, 3600)
    | some 'd' => (cs.dropLast, 86400)
    | _ => (cs, 1)
  (Decimal.float? number).map fun x => (Decimal.toWord (x * 1000.0)).toNat * unit

def sleep : Tool := fun _ args s =>
  onEach (fun s a =>
    match millis? a with
    | some n => .ok { s with millis := s.millis + n }
    | none =>
      .error ("sleep: invalid time interval ‘" ++ a ++
        "’\nTry 'sleep --help' for more information.")) args s

def cd : Tool := fun line args s =>
  match args with
  | [] => s.setStatus 0
  | path :: _ =>
    match s.disk.enter path with
    | .ok disk => { s with disk }.setStatus 0
    | .error _ => s.fail line ("cd: can't cd to " ++ path) 2

def pwd : Tool := fun _ _ s => (s.say (s.valueOf "PWD" ++ "\n")).setStatus 0

/-- Every signal ends the shell, and signal zero only asks whether it is there. -/
def kill : Tool := fun line args s =>
  let (signal, targets) := match args with
    | "-s" :: name :: rest => (name, rest)
    | first :: rest =>
      if Text.startsWith first.toList ['-'] then (.ofList first.toList.tail, rest) else ("TERM", first :: rest)
    | [] => ("TERM", [])
  if targets.isEmpty then s.fail line "kill: usage: kill [-s sigspec | -signum] pid" 2
  else if targets.contains State.processNumber then
    if signal == "0" then s.setStatus 0 else s.finish .killed
  else s.fail line "kill: No such process" 1

def assignArg (s : State) (arg : String) : State :=
  match Text.cut? arg.toList ['='] with
  | some (name, value) => s.assign (.ofList name) (.ofList value)
  | none => s

def exportAll : Tool := fun _ args s => (args.foldl assignArg s).setStatus 0

def unset : Tool := fun _ args s =>
  { s with vars := s.vars.filter fun v => !args.contains v.1 }.setStatus 0

def set : Tool := fun _ args s =>
  let s := args.foldl (fun s a =>
    if Text.startsWith a.toList ['-'] && a.toList.contains 'e' then { s with stopsOnFailure := true }
    else if Text.startsWith a.toList ['+'] && a.toList.contains 'e' then
      { s with stopsOnFailure := false }
    else s) s
  s.setStatus 0

def exit : Tool := fun line args s =>
  match args with
  | [] => s.finish (.exited s.status)
  | code :: _ =>
    match code.toNat? with
    | some n => s.finish (.exited (n % 256))
    | none => (s.fail line ("exit: Illegal number: " ++ code) 2).finish (.exited 2)

/-- The programs that exist as files. -/
def programs : List (String × Tool) :=
  [("true", status 0), ("false", status 1), ("echo", plainEcho), ("printf", printf), ("cat", cat),
    ("sleep", sleep), ("pwd", pwd), ("test", test), ("[", bracket), ("mkdir", mkdir),
    ("touch", touch), ("rm", rm), ("kill", kill)]

/-- The tools that a shell brings with it, before the programs. -/
def builtIn : List (String × Tool) :=
  [(":", status 0), ("echo", echo), ("exit", exit), ("cd", cd), ("export", exportAll),
    ("unset", unset), ("set", set), ("wait", status 0), ("trap", status 0)]

def find? (tools : List (String × Tool)) (name : String) : Option Tool :=
  (tools.find? (·.1 == name)).map Prod.snd

/-- The directories in which the programs lie. -/
def programName (path : String) : String :=
  let cs := path.toList
  match (Text.dropPrefix? "/usr/bin/".toList cs).or (Text.dropPrefix? "/bin/".toList cs) with
  | some name => .ofList name
  | none => path

end Tool

end Recast.Shell
