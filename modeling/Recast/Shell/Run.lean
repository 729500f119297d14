import Recast.Machine
import Recast.Shell.Tools

/-!
# Running scripts

A script runs on a disk. Words are replaced and split first, then streams are led
where the redirections say, then the tool runs. A pipeline and a group in brackets
run apart: what they assign is lost, and so is their exit.
-/

namespace Recast.Shell

/-- Fields that are complete, and the one that is still open. -/
structure Fields where
  complete : List (List Char) := []
  current? : Option (List Char) := none

namespace Fields

def append (f : Fields) (text : List Char) : Fields :=
  { f with current? := some (f.current?.getD [] ++ text) }

def close (f : Fields) : Fields := ⟨f.complete ++ f.current?.toList, none⟩

/-- Adds a text whose blanks end fields. -/
def appendSplit (f : Fields) (text : List Char) : Fields :=
  text.foldl (fun f c => if c == ' ' || c == '\t' || c == '\n' then f.close else f.append [c]) f

def add (f : Fields) (isQuoted : Bool) (text : List Char) : Fields :=
  if isQuoted then f.append text else f.appendSplit text

end Fields

namespace State

/-- The state of a shell after a part of it ran apart. Of its end only a signal or an
endless run reaches the shell. -/
def rejoin (s inner : State) : State :=
  let s := { s with disk := { inner.disk with here := s.disk.here }, errors := inner.errors,
                    output := inner.output, millis := inner.millis, status := inner.status }
  match inner.ending? with
  | some (.exited status) => { s with status }
  | other => { s with ending? := other }

/-- The sinks and the input of another state. -/
def withStreams (s outer : State) : State :=
  { s with outputSink := outer.outputSink, errorSink := outer.errorSink, input := outer.input }

/-- A failure that nothing checks ends the shell where that is asked for. -/
def checkFailure (s : State) (isChecked : Bool) : State :=
  if s.stopsOnFailure && !isChecked && s.status != 0 && s.ending?.isNone then
    s.finish (.exited s.status)
  else s

/-- The state without what it printed, for a part whose output goes elsewhere. -/
def recording (s : State) : State := { s with output := [], outputSink := .output }

end State

/-- The text of what was printed, without the line ends at its end. -/
def outputText (bytes : Bytes) : List Char :=
  Text.dropEndWhile (· == '\n') (Text.decode bytes)

/-- How a program that is no tool of the shell fails to start. -/
def missing (line : Nat) (name : String) (s : State) : State :=
  if name.toList.contains '/' then
    match s.disk.stat name with
    | .ok _ => s.fail line (name ++ ": Permission denied") 126
    | .error _ => s.fail line (name ++ ": not found") 127
  else s.fail line (name ++ ": not found") 127

/-- Whether the output of a script stands for a part of the words. -/
def asksOutput (ws : List Word) : Bool :=
  ws.any fun w => w.any fun
    | .output .. => true
    | _ => false

mutual

def run : Nat → Bool → Script → State → State
  | 0, _, _, s => s.finish .endless
  | n + 1, isChecked, script, s =>
    if s.ending?.isSome then s
    else
      match script with
      | .nothing => s.setStatus 0
      | .simple line assigned words redirects =>
        let (args, s) := expandAll n words s
        let (values, s) := assignAll n assigned s
        match lead n line redirects s with
        | .error failed => (failed.withStreams s).checkFailure isChecked
        | .ok inner =>
          let inner := values.foldl (fun s (k, v) => s.assign k v) inner
          match args with
          | [] =>
            let status := if asksOutput (assigned.map Prod.snd ++ words) then inner.status else 0
            ((inner.setStatus status).withStreams s).checkFailure isChecked
          | name :: args =>
            let after := (invoke n line name args inner).withStreams s
            let after :=
              if values.isEmpty then after else { after with vars := s.vars }
            after.checkFailure isChecked
      | .pipe first second =>
        let left := run n true first s.recording
        let s' := s.rejoin { left with output := s.output }
        if s'.ending?.isSome then s'
        else
          let right := run n isChecked second { s' with input := left.output }
          (s'.rejoin right).withStreams s
      | .negated body =>
        let s := run n true body s
        s.setStatus (if s.status == 0 then 1 else 0)
      | .bothOf first second =>
        let s := run n true first s
        if s.status == 0 then run n isChecked second s else s
      | .eitherOf first second =>
        let s := run n true first s
        if s.status == 0 then s else run n isChecked second s
      | .inTurn first second => run n isChecked second (run n isChecked first s)
      | .apart body redirects =>
        match lead n 1 redirects s with
        | .error failed => failed.withStreams s
        | .ok inner => ((s.rejoin (run n isChecked body inner)).withStreams s).checkFailure isChecked
      | .group body redirects =>
        match lead n 1 redirects s with
        | .error failed => failed.withStreams s
        | .ok inner => (run n isChecked body inner).withStreams s
      | .choose condition yes no =>
        let s := run n true condition s
        if s.ending?.isSome then s
        else if s.status == 0 then run n isChecked yes s
        else run n isChecked no s
      | .whileDo expected condition body =>
        let before := s.status
        let s := run n true condition s
        if s.ending?.isSome then s
        else if (s.status == 0) == expected then
          run n isChecked (.whileDo expected condition body) (run n isChecked body s)
        else s.setStatus before
      | .forEach name words body =>
        let (values, s) := expandAll n words s
        values.foldl (fun s v => run n isChecked body (s.assign name v)) (s.setStatus 0)

/-- The text that stands for a piece. -/
def replace : Nat → Piece → State → Bool × List Char × State
  | 0, _, s => (true, [], s.finish .endless)
  | n + 1, p, s =>
    match p with
    | .plain _ text => (true, text, s)
    | .variable isQuoted name => (isQuoted, (s.parameter name).toList, s)
    | .output isQuoted script =>
      let inner := runText n script s.recording
      let s := s.rejoin { inner with output := s.output }
      (isQuoted, outputText inner.output, s)

/-- The fields that a word stands for. -/
def expand : Nat → Word → Fields → State → Fields × State
  | 0, _, f, s => (f, s.finish .endless)
  | _, [], f, s => (f.close, s)
  | n + 1, p :: ps, f, s =>
    let (isQuoted, text, s) := replace n p s
    expand n ps (f.add isQuoted text) s

def expandAll : Nat → List Word → State → List String × State
  | 0, _, s => ([], s.finish .endless)
  | _, [], s => ([], s)
  | n + 1, w :: ws, s =>
    let (f, s) := expand n w {} s
    let (rest, s) := expandAll n ws s
    (f.complete.map String.ofList ++ rest, s)

/-- The values of assignments, which are not split. -/
def assignAll : Nat → List (String × Word) → State → List (String × String) × State
  | 0, _, s => ([], s.finish .endless)
  | _, [], s => ([], s)
  | n + 1, (name, w) :: rest, s =>
    let (text, s) := joined n w s
    let (more, s) := assignAll n rest s
    ((name, .ofList text) :: more, s)

def joined : Nat → Word → State → List Char × State
  | 0, _, s => ([], s.finish .endless)
  | _, [], s => ([], s)
  | n + 1, p :: ps, s =>
    let (_, text, s) := replace n p s
    let (rest, s) := joined n ps s
    (text ++ rest, s)

/-- Leads the streams where the redirections say, in order. -/
def lead : Nat → Nat → List Redirect → State → Except State State
  | 0, _, _, s => .error (s.finish .endless)
  | _, _, [], s => .ok s
  | n + 1, line, r :: rs, s =>
    let (target, s) := joined n r.target s
    match s.redirect line r.descriptor r.operator (.ofList target) with
    | .error failed => .error failed
    | .ok s => lead n line rs s

/-- Runs the tool of a name. -/
def invoke : Nat → Nat → String → List String → State → State
  | 0, _, _, _, s => s.finish .endless
  | n + 1, line, name, args, s =>
    match Tool.programName name, args with
    | "sh", "-c" :: script :: rest =>
      s.rejoin (runText n script.toList { s with name := rest.headD name })
    | "sh", [] => s.rejoin (runText n (Text.decode s.input) { s with name, input := [] })
    | "exec", name :: args =>
      let s := invoke n line name args s
      if s.ending?.isSome then s else s.finish (.exited s.status)
    | "eval", args => runText n (" ".intercalate args).toList s
    | "command", name :: args => invoke n line name args s
    | program, args =>
      match (Tool.find? Tool.builtIn name).or (Tool.find? Tool.programs program) with
      | some tool => tool line args s
      | none => missing line name s

/-- Runs the lines of a script up to one that cannot be read. -/
def runText : Nat → List Char → State → State
  | 0, _, s => s.finish .endless
  | n + 1, text, s =>
    let (scripts, fault?) := readScript text
    let s := scripts.foldl (fun s script => run n false script s) s
    match fault?, s.ending? with
    | some e, none => (s.complain (s.name ++ ": " ++ e.message)).finish (.exited 2)
    | _, _ => s

end

/-- How many steps a script may nest before it counts as endless. -/
def steps : Nat := 2000

/-- Standard output, then errors on a line of their own. -/
def combine (s : State) : List Char :=
  let output := Text.decode s.output
  let errors := Text.decode s.errors
  if errors.isEmpty || output.isEmpty || output.getLast? == some '\n' then output ++ errors
  else output ++ '\n' :: errors

/-- The result of a command whose shell has ended, within the time that it has. -/
def resultOf (c : Command) (s : State) : RunResult :=
  let output (exitCode? : Option Int) : RunResult :=
    if c.timeoutMillis ≤ s.millis then .error (.timedOut c.display c.timeoutSecs)
    else .ok { exitCode?, output := .ofList (combine s) }
  match s.ending? with
  | some .endless => .error (.timedOut c.display c.timeoutSecs)
  | some .killed => output none
  | some (.exited status) => output (some status)
  | none => output (some s.status)

/-- The tool of a program, or why it cannot be launched. -/
def launch (program : String) (disk : Disk) : Except DiskFault Tool :=
  let name := Tool.programName program
  match name, Tool.find? Tool.programs name with
  | "sh", _ => .ok fun line args s => invoke steps line program args s
  | _, some tool => .ok tool
  | _, none =>
    if program.toList.contains '/' then
      match disk.stat program with
      | .ok _ => .error .denied
      | .error e => .error e
    else .error .notFound

/-- Runs a command on a disk. -/
def runCommand (disk : Disk) (c : Command) : RunResult × Disk :=
  let failed (reason : String) : RunResult × Disk :=
    (.error (.launchFailed c.display reason), disk)
  if c.argv.any (·.toList.contains '\x00') then failed "nul byte found in provided data"
  else
    match disk.enter c.workingDir with
    | .error e => failed e.message
    | .ok inside =>
      match launch c.program inside with
      | .error e => failed e.message
      | .ok tool =>
        let s := tool 1 c.args { name := c.program, disk := inside }
        (resultOf c s, { s.disk with here := disk.here })

end Recast.Shell
