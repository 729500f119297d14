import Recast.Text.Str
import Recast.Unicode.Extending
import Recast.Unicode.Hidden

/-!
# Visible text

A text in double quotes in which every character can be seen. Controls, separators
and other characters without a form of their own are written by their code.
-/

namespace Recast.Text

def hexCode (c : Char) : List Char :=
  "\\u\x7b".toList ++ Nat.toDigits 16 c.toNat ++ [Char.ofNat 0x7D]

def visibleChar (c : Char) : List Char :=
  match c with
  | '\x00' => ['\\', '0']
  | '\t' => ['\\', 't']
  | '\r' => ['\\', 'r']
  | '\n' => ['\\', 'n']
  | '\\' => ['\\', '\\']
  | '"' => ['\\', '"']
  | c => if Unicode.isExtending c || Unicode.isHidden c then hexCode c else [c]

end Recast.Text

namespace Recast.Str

def visible (s : String) : String :=
  "\"" ++ .ofList (s.toList.flatMap Text.visibleChar) ++ "\""

end Recast.Str
