import Recast.Disk.Fault
import Recast.Artifact.Path
import Recast.Text.Cut

/-!
# Disks

A disk maps paths from its root to files and directories, and relative paths start
at its current directory. A path is walked name by name: what stands before a
separator must be a directory.
-/

namespace Recast

inductive DiskEntry
  | directory
  | file (content : ByteArray)

structure Disk where
  entries : List (List String × DiskEntry) := []
  here : List String := []

/-- Where a path ends: in a directory that exists, or at a name in one. A separator
may follow the name. -/
inductive Place
  | directory (path : List String)
  | child (parent : List String) (name : String) (slash : Bool)
  deriving DecidableEq, Repr

namespace Disk

def longestName : Nat := 255

def longestPath : Nat := 4095

/-- The root is a directory on every disk. -/
def entry? (d : Disk) (path : List String) : Option DiskEntry :=
  if path.isEmpty then some .directory
  else (d.entries.find? fun e => e.1 == path).map Prod.snd

def erase (d : Disk) (path : List String) : Disk :=
  { d with entries := d.entries.filter fun e => e.1 != path }

def put (d : Disk) (path : List String) (e : DiskEntry) : Disk :=
  { d with entries := (d.erase path).entries ++ [(path, e)] }

def isDirectory (d : Disk) (path : List String) : Bool :=
  match d.entry? path with
  | some .directory => true
  | _ => false

/-- The faults that a path has by its spelling alone. -/
def spellingFault? (path : List Char) : Option DiskFault :=
  if path.contains '\x00' then some .endedName
  else if path.isEmpty then some .notFound
  else if longestPath < Text.byteLength path then some .nameTooLong
  else none

def isTooLong (name : List Char) : Bool := longestName < Text.byteLength name

def walk (d : Disk) (dir : List String) : List (List Char) → Except DiskFault Place
  | [] => .ok (.directory dir)
  | piece :: rest =>
    if Path.isInert piece then d.walk dir rest
    else if piece == ['.', '.'] then d.walk dir.dropLast rest
    else if rest.all List.isEmpty then .ok (.child dir (.ofList piece) (!rest.isEmpty))
    else if isTooLong piece then .error .nameTooLong
    else
      match d.entry? (dir ++ [.ofList piece]) with
      | some .directory => d.walk (dir ++ [.ofList piece]) rest
      | some (.file _) => .error .notDirectory
      | none => .error .notFound

/-- The directory in which a path starts. -/
def origin (d : Disk) (path : List Char) : List String := if Path.isAbsolute path then [] else d.here

def place (d : Disk) (path : String) : Except DiskFault Place :=
  match spellingFault? path.toList with
  | some e => .error e
  | none => d.walk (d.origin path.toList) (Text.splitOn '/' path.toList)

def makeDirectory (d : Disk) (path : String) : Except DiskFault Disk := do
  match ← d.place path with
  | .directory _ => .error .alreadyExists
  | .child parent name _ =>
    if isTooLong name.toList then .error .nameTooLong
    else if (d.entry? (parent ++ [name])).isSome then .error .alreadyExists
    else return d.put (parent ++ [name]) .directory

/-- Makes the directories of a path that are missing, the outer ones first. Those made
before a fault stay. -/
def makeAll (d : Disk) (dir : List String) : List (List Char) → Disk × Except DiskFault Unit
  | [] => (d, .ok ())
  | piece :: rest =>
    if Path.isInert piece then d.makeAll dir rest
    else if piece == ['.', '.'] then d.makeAll dir.dropLast rest
    else if isTooLong piece then (d, .error .nameTooLong)
    else
      let path := dir ++ [.ofList piece]
      match d.entry? path with
      | some .directory => d.makeAll path rest
      | some (.file _) =>
        (d, .error (if rest.all Path.isInert then .alreadyExists else .notDirectory))
      | none => (d.put path .directory).makeAll path rest

/-- The empty path needs no directory. -/
def makeDirectories (d : Disk) (path : String) : Disk × Except DiskFault Unit :=
  if path.isEmpty then (d, .ok ())
  else
    match spellingFault? path.toList with
    | some e => (d, .error e)
    | none => d.makeAll (d.origin path.toList) (Text.splitOn '/' path.toList)

/-- A name before a separator is taken for a directory. -/
def write (d : Disk) (path : String) (content : ByteArray) : Except DiskFault Disk := do
  match ← d.place path with
  | .directory _ | .child _ _ true => .error .isDirectory
  | .child parent name false =>
    if isTooLong name.toList then .error .nameTooLong
    else if d.isDirectory (parent ++ [name]) then .error .isDirectory
    else return d.put (parent ++ [name]) (.file content)

/-- The entry at a path. A name before a separator must be a directory. -/
def stat (d : Disk) (path : String) : Except DiskFault DiskEntry := do
  match ← d.place path with
  | .directory _ => return .directory
  | .child parent name slash =>
    if isTooLong name.toList then .error .nameTooLong
    else
      match d.entry? (parent ++ [name]), slash with
      | none, _ => .error .notFound
      | some (.file _), true => .error .notDirectory
      | some e, _ => return e

def read (d : Disk) (path : String) : Except DiskFault ByteArray := do
  match ← d.stat path with
  | .directory => .error .isDirectory
  | .file content => return content

/-- The disk with another current directory. -/
def enter (d : Disk) (path : String) : Except DiskFault Disk := do
  match ← d.place path with
  | .directory p => return { d with here := p }
  | .child parent name _ =>
    if isTooLong name.toList then .error .nameTooLong
    else
      match d.entry? (parent ++ [name]) with
      | some .directory => return { d with here := parent ++ [name] }
      | some (.file _) => .error .notDirectory
      | none => .error .notFound

/-- The files in and below the current directory, by their paths from there. -/
def files (d : Disk) : List (String × ByteArray) :=
  d.entries.filterMap fun (path, e) =>
    match e with
    | .directory => none
    | .file content =>
      if d.here.isPrefixOf path then
        some ("/".intercalate (path.drop d.here.length), content)
      else none

/-- Puts a file there, or a directory where there is no content, with all directories
around it. What cannot be put there is left out. -/
def plant (d : Disk) (path : String) (content? : Option ByteArray) : Disk :=
  match content? with
  | none => (d.makeDirectories path).1
  | some content =>
    let parent := (Path.parent? path.toList).getD []
    let d := (d.makeDirectories (.ofList parent)).1
    match d.write path content with
    | .ok d => d
    | .error _ => d

/-- A disk with an empty current directory and the device that holds nothing. -/
def fresh : Disk where
  entries := [(["dev"], .directory), (["dev", "null"], .file .empty), (["tmp"], .directory),
    (["tmp", "work"], .directory)]
  here := ["tmp", "work"]

end Disk

end Recast
