import Recast.Disk.Basic
import Recast.Shell.Script
import Recast.Text.Bytes

/-!
# State of a shell

A shell has a disk, variables, two streams of output and a clock. A stream ends in
a buffer, in a file or nowhere.
-/

namespace Recast.Shell

abbrev Bytes := List UInt8

def bytesOf (s : String) : Bytes := s.toUTF8.toList

inductive Sink
  | output
  | errors
  | file (path : String)
  | nowhere
  deriving DecidableEq, Repr

/-- How a shell came to its end. -/
inductive Ending
  | exited (status : Nat)
  | killed
  /-- It was still busy when its steps were used up. -/
  | endless
  deriving DecidableEq, Repr

structure State where
  name : String := "sh"
  disk : Disk
  vars : List (String × String) := []
  output : Bytes := []
  errors : Bytes := []
  outputSink : Sink := .output
  errorSink : Sink := .errors
  input : Bytes := []
  status : Nat := 0
  millis : Nat := 0
  stopsOnFailure : Bool := false
  ending? : Option Ending := none

namespace State

def appendTo (s : State) (path : String) (bytes : Bytes) : State :=
  let before := match s.disk.read path with
    | .ok content => content.toList
    | .error _ => []
  match s.disk.write path ⟨(before ++ bytes).toArray⟩ with
  | .ok disk => { s with disk }
  | .error _ => s

def emitTo (s : State) (sink : Sink) (bytes : Bytes) : State :=
  match sink with
  | .output => { s with output := s.output ++ bytes }
  | .errors => { s with errors := s.errors ++ bytes }
  | .file path => s.appendTo path bytes
  | .nowhere => s

def emit (s : State) (bytes : Bytes) : State := s.emitTo s.outputSink bytes

def say (s : State) (text : String) : State := s.emit (bytesOf text)

def complain (s : State) (text : String) : State := s.emitTo s.errorSink (bytesOf (text ++ "\n"))

def setStatus (s : State) (status : Nat) : State := { s with status }

/-- The shell reports a fault under its own name and the line. -/
def fail (s : State) (line : Nat) (text : String) (status : Nat) : State :=
  (s.complain (s.name ++ ": " ++ toString line ++ ": " ++ text)).setStatus status

def finish (s : State) (e : Ending) : State := { s with ending? := some e }

def assign (s : State) (name value : String) : State :=
  { s with vars := (name, value) :: s.vars.filter (·.1 != name) }

/-- The number by which the shell is known to `kill`. -/
def processNumber : String := "4194"

def valueOf (s : State) (name : String) : String :=
  match name with
  | "?" => toString s.status
  | "$" => processNumber
  | "#" => "0"
  | "0" => s.name
  | "PWD" => "/" ++ "/".intercalate s.disk.here
  | _ => ((s.vars.find? (·.1 == name)).map Prod.snd).getD ""

/-- A parameter in braces may name the text that stands for an empty value. -/
def parameter (s : State) (text : String) : String :=
  match Text.cut? text.toList ":-".toList with
  | some (name, standIn) =>
    let value := s.valueOf (.ofList name)
    if value.isEmpty then .ofList standIn else value
  | none => s.valueOf text

/-- The path from the root, so that it stays the same file when the shell moves. -/
def rooted (s : State) (path : String) : String :=
  if Path.isAbsolute path.toList then path
  else "/" ++ "/".intercalate (s.disk.here ++ [path])

/-- Why a file cannot be opened for writing, in the words of the shell. -/
def createFault (path : String) (e : DiskFault) : String :=
  "cannot create " ++ path ++ ": " ++
    match e with
    | .notFound => "Directory nonexistent"
    | .isDirectory => "Is a directory"
    | .notDirectory => "Directory nonexistent"
    | .nameTooLong => "File name too long"
    | _ => "Permission denied"

def openFault (path : String) (e : DiskFault) : String :=
  "cannot open " ++ path ++ ": " ++
    match e with
    | .notFound | .notDirectory => "No such file"
    | _ => "Permission denied"

def withSink (s : State) (descriptor : Nat) (sink : Sink) : State :=
  if descriptor == 1 then { s with outputSink := sink }
  else if descriptor == 2 then { s with errorSink := sink }
  else s

def openOutput (s : State) (line descriptor : Nat) (keep : Bool) (path : String) :
    Except State State :=
  if path == "/dev/null" then .ok (s.withSink descriptor .nowhere)
  else
    let before : Except DiskFault ByteArray := match keep, s.disk.read path with
      | true, .ok content => .ok content
      | true, .error .isDirectory => .error DiskFault.isDirectory
      | _, _ => .ok ByteArray.empty
    match before.bind (s.disk.write path) with
    | .ok disk =>
      .ok ({ s with disk }.withSink descriptor (.file (s.rooted path)))
    | .error e => .error (s.fail line (createFault path e) 2)

def openInput (s : State) (line : Nat) (path : String) : Except State State :=
  if path == "/dev/null" then .ok { s with input := [] }
  else
    match s.disk.stat path with
    | .ok (.file content) => .ok { s with input := content.toList }
    | .ok .directory => .ok { s with input := [] }
    | .error e => .error (s.fail line (openFault path e) 2)

def sinkOf (s : State) : String → Option Sink
  | "1" => some s.outputSink
  | "2" => some s.errorSink
  | "-" => some .nowhere
  | _ => none

/-- The state with a stream led elsewhere, or the one after the complaint. -/
def redirect (s : State) (line descriptor : Nat) (operator target : String) : Except State State :=
  match operator with
  | ">" | ">|" => s.openOutput line descriptor false target
  | ">>" => s.openOutput line descriptor true target
  | "<" | "<>" => s.openInput line target
  | ">&" | "<&" =>
    match s.sinkOf target with
    | some sink => .ok (s.withSink descriptor sink)
    | none => .error (s.fail line "Bad file descriptor" 2)
  | _ => .ok s

end State

end Recast.Shell
