import Recast.Text.Case
import Recast.Text.Search

/-!
# Structural tiers

A tier says how much a component stands for. It is read off the name: of all
occurrences of the words below, the one that ends last decides, and of two that
end together the longer.
-/

namespace Recast

inductive Tier
  | leaf
  | composite
  | assembly
  deriving DecidableEq, Repr

namespace Tier

def label : Tier → String
  | leaf => "leaf"
  | composite => "composite"
  | assembly => "assembly"

def leafWords : List String :=
  ["avatar", "badge", "button", "checkbox", "chip", "divider", "heading", "icon", "image",
    "input", "label", "link", "logo", "radio", "select", "spinner", "switch", "tag", "text",
    "toggle", "tooltip"]

def compositeWords : List String :=
  ["breadcrumb", "card", "carousel", "dialog", "dropdown", "footer", "form", "header", "list",
    "menu", "modal", "nav", "navbar", "pagination", "panel", "search", "sidebar", "table",
    "tabs", "toolbar"]

def assemblyWords : List String :=
  ["app", "container", "dashboard", "layout", "page", "screen", "section", "shell", "template",
    "view", "wizard"]

def vocabulary : List (List Char × Tier) :=
  leafWords.map (·.toList, leaf) ++ compositeWords.map (·.toList, composite) ++
    assemblyWords.map (·.toList, assembly)

/-- The small form of a character as far as the vocabulary can tell: the ASCII
capitals, the Kelvin sign and the capital I with a dot. -/
def lowerChar (c : Char) : List Char :=
  if c == '\u212A' then ['k']
  else if c == '\u0130' then ['i', '\u0307']
  else [c.toLower]

/-- End of the last occurrence of `word`. -/
def lastEnd? (word : List Char) : List Char → Option Nat
  | [] => none
  | c :: r =>
    match lastEnd? word r with
    | some n => some (n + 1)
    | none => if Text.startsWith (c :: r) word then some word.length else none

structure Candidate where
  stop : Nat
  length : Nat
  tier : Tier

def Candidate.beats (a b : Candidate) : Bool :=
  b.stop < a.stop || (a.stop == b.stop && b.length < a.length)

def best (acc : Option Candidate) (c : Candidate) : Option Candidate :=
  match acc with
  | none => some c
  | some b => if c.beats b then some c else some b

/-- The words that occur in the text, each with its last occurrence. -/
def candidates (words : List (List Char × Tier)) (text : List Char) : List Candidate :=
  words.filterMap fun (word, tier) => (lastEnd? word text).map (⟨·, word.length, tier⟩)

/-- The tier that a component name stands for by the words given. A name without any
of them is an assembly. -/
def resolveBy (words : List (List Char × Tier)) (name : String) : Tier :=
  let found := (candidates words (name.toList.flatMap lowerChar)).foldl best none
  (found.map Candidate.tier).getD assembly

def resolve (name : String) : Tier := resolveBy vocabulary name

end Tier

end Recast
