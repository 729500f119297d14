import Recast.Shell.Token

/-!
# Scripts

The commands of a script: simple ones, pipelines, lists, groups, conditions and
loops. A script is read line by line, so the lines before a fault still run.
-/

namespace Recast.Shell

structure Redirect where
  descriptor : Nat
  operator : String
  target : Word
  deriving DecidableEq, Repr

inductive Script
  | nothing
  | simple (line : Nat) (assigned : List (String × Word)) (words : List Word)
      (redirects : List Redirect)
  | pipe (first second : Script)
  | negated (body : Script)
  | bothOf (first second : Script)
  | eitherOf (first second : Script)
  | inTurn (first second : Script)
  | apart (body : Script) (redirects : List Redirect)
  | group (body : Script) (redirects : List Redirect)
  | choose (condition yes no : Script)
  | whileDo (expected : Bool) (condition body : Script)
  | forEach (name : String) (words : List Word) (body : Script)
  deriving Repr

/-- Why a script cannot be read, and on which line. -/
inductive ScriptFault
  | unclosedQuote (line : Nat)
  | unexpected (line : Nat) (what : String) (expected? : Option String)
  deriving DecidableEq, Repr

def ScriptFault.message : ScriptFault → String
  | unclosedQuote line => toString line ++ ": Syntax error: Unterminated quoted string"
  | unexpected line what expected? =>
    toString line ++ ": Syntax error: " ++ what ++ " unexpected" ++
      match expected? with
      | some k => " (expecting \"" ++ k ++ "\")"
      | none => ""

abbrev Tokens := List (Token × Nat)

abbrev Parsed (α : Type) := α × Tokens

def lineOf : Tokens → Nat
  | [] => 1
  | (_, line) :: _ => line

/-- The fault of a token that may not stand where it does, perhaps in place of a
keyword. -/
def faultFor (lastLine : Nat) (expected? : Option String) : Tokens → ScriptFault
  | [] => .unexpected lastLine "end of file" expected?
  | (.unclosed, line) :: _ => .unclosedQuote line
  | (.lineEnd, line) :: _ => .unexpected line "newline" expected?
  | (.operator op, line) :: _ => .unexpected line ("\"" ++ op ++ "\"") expected?
  | (.redirect _ _, line) :: _ => .unexpected line "redirection" expected?
  | (.word w, line) :: _ =>
    match bareText? w with
    | some s => .unexpected line ("\"" ++ .ofList s ++ "\"") expected?
    | none => .unexpected line "word" expected?

def faultAt (lastLine : Nat) : Tokens → ScriptFault := faultFor lastLine none

def keywords : List String :=
  ["if", "then", "elif", "else", "fi", "while", "until", "for", "do", "done", "in", "!",
    "\x7b", "\x7d"]

/-- The keyword at the start. -/
def keyword? (ts : Tokens) : Option String :=
  match ts with
  | (.word w, _) :: _ =>
    match bareText? w with
    | some s => if keywords.contains (.ofList s) then some (.ofList s) else none
    | none => none
  | _ => none

def operator? : Tokens → Option String
  | (.operator op, _) :: _ => some op
  | _ => none

def isLineEnd : Tokens → Bool
  | (.lineEnd, _) :: _ => true
  | _ => false

def dropLineEnds : Tokens → Tokens
  | (.lineEnd, _) :: ts => dropLineEnds ts
  | ts => ts

/-- Whether a list of commands ends here. -/
def endsList (ts : Tokens) : Bool :=
  ts.isEmpty || operator? ts == some ")" ||
    (match keyword? ts with
      | some k => ["then", "elif", "else", "fi", "do", "done", "\x7d"].contains k
      | none => false)

/-- The name and the value of an assignment. -/
def assignment? (w : Word) : Option (String × Word) :=
  let name := (w.takeWhile fun p => p != .plain false ['=']).filterMap fun
    | .plain false s => some s
    | _ => none
  let text := name.flatten
  match w.drop name.length with
  | .plain false ['='] :: value =>
    if text.all isNameChar && (text.head?.map (!·.isDigit)).getD false then
      some (.ofList text, value)
    else none
  | _ => none

structure SimpleParts where
  assigned : List (String × Word) := []
  words : List Word := []
  redirects : List Redirect := []

/-- The words, assignments and redirections of a simple command. -/
def simpleParts (lastLine : Nat) (s : SimpleParts) : Tokens → Except ScriptFault (Parsed SimpleParts)
  | (.redirect d op, _) :: (.word w, _) :: ts =>
    simpleParts lastLine { s with redirects := s.redirects ++ [⟨d, op, w⟩] } ts
  | (.redirect _ _, _) :: ts => .error (faultAt lastLine ts)
  | (.word w, _) :: ts =>
    match s.words.isEmpty, assignment? w with
    | true, some a => simpleParts lastLine { s with assigned := s.assigned ++ [a] } ts
    | _, _ => simpleParts lastLine { s with words := s.words ++ [w] } ts
  | (.unclosed, line) :: _ => .error (.unclosedQuote line)
  | ts => .ok (s, ts)

/-- The redirections after a group. -/
def groupRedirects (lastLine : Nat) : Tokens → Except ScriptFault (Parsed (List Redirect))
  | (.redirect d op, _) :: (.word w, _) :: ts => do
    let (rs, ts) ← groupRedirects lastLine ts
    return (⟨d, op, w⟩ :: rs, ts)
  | (.redirect _ _, _) :: ts => .error (faultAt lastLine ts)
  | ts => .ok ([], ts)

/-- The words up to the end of a line or a semicolon. -/
def wordsUpTo (lastLine : Nat) : Tokens → Except ScriptFault (Parsed (List Word))
  | (.word w, _) :: ts => do
    let (ws, ts) ← wordsUpTo lastLine ts
    return (w :: ws, ts)
  | (.lineEnd, _) :: ts => .ok ([], ts)
  | (.operator ";", _) :: ts => .ok ([], ts)
  | ts => .error (faultAt lastLine ts)

def expectKeyword (lastLine : Nat) (k : String) (ts : Tokens) : Except ScriptFault Tokens :=
  if keyword? ts == some k then .ok ts.tail else .error (faultFor lastLine (some k) ts)

mutual

/-- A command with its arguments, or one that is built from others. -/
def command (lastLine : Nat) : Nat → Tokens → Except ScriptFault (Parsed Script)
  | 0, ts => .error (faultAt lastLine ts)
  | n + 1, ts =>
    match keyword? ts, operator? ts with
    | some "if", _ => condition lastLine n ts.tail
    | some "while", _ => loop lastLine true n ts.tail
    | some "until", _ => loop lastLine false n ts.tail
    | some "for", _ => each lastLine n ts.tail
    | some "\x7b", _ => do
      let (body, ts) ← commands lastLine n ts.tail
      let ts ← expectKeyword lastLine "\x7d" ts
      let (rs, ts) ← groupRedirects lastLine ts
      return (.group body rs, ts)
    | some _, _ => .error (faultAt lastLine ts)
    | none, some "(" => do
      let (body, ts) ← commands lastLine n ts.tail
      if operator? ts != some ")" then .error (faultFor lastLine (some ")") ts)
      else
        let (rs, ts) ← groupRedirects lastLine ts.tail
        return (.apart body rs, ts)
    | none, _ => do
      let line := lineOf ts
      let (s, rest) ← simpleParts lastLine {} ts
      if s.words.isEmpty && s.assigned.isEmpty && s.redirects.isEmpty then
        .error (faultAt lastLine ts)
      else if operator? rest == some "(" then .error (faultAt lastLine rest)
      else return (.simple line s.assigned s.words s.redirects, rest)

/-- The rest of a condition after its first word. -/
def condition (lastLine : Nat) : Nat → Tokens → Except ScriptFault (Parsed Script)
  | 0, ts => .error (faultAt lastLine ts)
  | n + 1, ts => do
    let (test, ts) ← commands lastLine n ts
    let (yes, ts) ← commands lastLine n (← expectKeyword lastLine "then" ts)
    match keyword? ts with
    | some "elif" =>
      let (no, ts) ← condition lastLine n ts.tail
      return (.choose test yes no, ts)
    | some "else" =>
      let (no, ts) ← commands lastLine n ts.tail
      return (.choose test yes no, ← expectKeyword lastLine "fi" ts)
    | _ => return (.choose test yes .nothing, ← expectKeyword lastLine "fi" ts)

def loop (lastLine : Nat) (expected : Bool) : Nat → Tokens → Except ScriptFault (Parsed Script)
  | 0, ts => .error (faultAt lastLine ts)
  | n + 1, ts => do
    let (test, ts) ← commands lastLine n ts
    let (body, ts) ← commands lastLine n (← expectKeyword lastLine "do" ts)
    return (.whileDo expected test body, ← expectKeyword lastLine "done" ts)

def each (lastLine : Nat) : Nat → Tokens → Except ScriptFault (Parsed Script)
  | 0, ts => .error (faultAt lastLine ts)
  | n + 1, ts =>
    match ts with
    | (.word w, _) :: ts => do
      let (ws, ts) ← wordsUpTo lastLine (← expectKeyword lastLine "in" ts)
      let (body, ts) ← commands lastLine n (← expectKeyword lastLine "do" (dropLineEnds ts))
      let name := (bareText? w).getD []
      return (.forEach (.ofList name) ws body, ← expectKeyword lastLine "done" ts)
    | ts => .error (faultAt lastLine ts)

def pipeline (lastLine : Nat) : Nat → Tokens → Except ScriptFault (Parsed Script)
  | 0, ts => .error (faultAt lastLine ts)
  | n + 1, ts =>
    if keyword? ts == some "!" then do
      let (body, ts) ← pipeline lastLine n ts.tail
      return (.negated body, ts)
    else do
      let (first, ts) ← command lastLine n ts
      if operator? ts == some "|" then
        let (second, ts) ← pipeline lastLine n (dropLineEnds ts.tail)
        return (.pipe first second, ts)
      else return (first, ts)

/-- Pipelines after a first one, each run or not by the status so far. -/
def alternatives (lastLine : Nat) : Nat → Script → Tokens → Except ScriptFault (Parsed Script)
  | 0, _, ts => .error (faultAt lastLine ts)
  | n + 1, first, ts =>
    match operator? ts with
    | some "&&" => do
      let (second, ts) ← pipeline lastLine n (dropLineEnds ts.tail)
      alternatives lastLine n (.bothOf first second) ts
    | some "||" => do
      let (second, ts) ← pipeline lastLine n (dropLineEnds ts.tail)
      alternatives lastLine n (.eitherOf first second) ts
    | _ => .ok (first, ts)

/-- Commands in turn on one line. -/
def line (lastLine : Nat) : Nat → Tokens → Except ScriptFault (Parsed Script)
  | 0, ts => .error (faultAt lastLine ts)
  | n + 1, ts => do
    let (first, ts) ← pipeline lastLine n ts
    let (first, ts) ← alternatives lastLine n first ts
    match operator? ts with
    | some ";" | some "&" =>
      if isLineEnd ts.tail || endsList ts.tail then return (first, ts.tail)
      else
        let (rest, ts) ← line lastLine n ts.tail
        return (.inTurn first rest, ts)
    | _ => return (first, ts)

/-- Commands in turn on any number of lines, at least one. -/
def commands (lastLine : Nat) : Nat → Tokens → Except ScriptFault (Parsed Script)
  | 0, ts => .error (faultAt lastLine ts)
  | n + 1, ts => do
    let (first, ts) ← line lastLine n (dropLineEnds ts)
    if isLineEnd ts && !endsList (dropLineEnds ts) then
      let (rest, ts) ← commands lastLine n ts
      return (.inTurn first rest, ts)
    else return (first, dropLineEnds ts)

end

/-- The lines of a script up to the first that cannot be read, and its fault. -/
def scriptLines (lastLine fuel : Nat) : Nat → Tokens → List Script × Option ScriptFault
  | 0, _ => ([], none)
  | n + 1, ts =>
    match dropLineEnds ts with
    | [] => ([], none)
    | ts =>
      match line lastLine fuel ts with
      | .error e => ([], some e)
      | .ok (s, rest) =>
        if rest.isEmpty || isLineEnd rest then
          let (more, fault?) := scriptLines lastLine fuel n rest
          (s :: more, fault?)
        else ([], some (faultAt lastLine rest))

def readScript (text : List Char) : List Script × Option ScriptFault :=
  let ts := tokensOf text
  scriptLines (text.count '\n' + 1) (8 * ts.length + 8) (ts.length + 1) ts

end Recast.Shell
