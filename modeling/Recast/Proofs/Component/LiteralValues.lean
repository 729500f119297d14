import Recast.Component.ValueType
import Recast.Decimal.Binary
import Recast.Proofs.Text.Escapes
import Recast.Text.Split

/-!
# What a literal stands for

The literals of a script and their values, as far as a comparison of the contents tells values apart: the
order of properties does not count, and a property that is undefined is none. A literal that is read has the
type of its value (`ofLiteral_of_read`).
-/

namespace Recast

inductive ScriptValue
  | undefined
  | null
  | flag (b : Bool)
  | number (x : Float)
  | text (s : List Char)
  | list (items : List ScriptValue)
  | record (field? : List Char → Option ScriptValue)

namespace ScriptValue

open Text

def type : ScriptValue → String
  | undefined | null => "unknown"
  | flag _ => "boolean"
  | number _ => "number"
  | text _ => "string"
  | list _ => "unknown[]"
  | record _ => "Record<string, unknown>"

def isUndefined : ScriptValue → Bool
  | undefined => true
  | _ => false

/-- Whether the value counts as true. -/
def isTruthy : ScriptValue → Bool
  | undefined | null => false
  | flag b => b
  | number x => x != 0 && x == x
  | text s => !s.isEmpty
  | list _ | record _ => true

/-- The properties that the entries leave. Of two with one key the last stays. -/
def fields (entries : List (List Char × ScriptValue)) (key : List Char) : Option ScriptValue :=
  (entries.reverse.lookup key).filter (!·.isUndefined)

/-! ### Reading -/

def isQuote (c : Char) : Bool := c == '\'' || c == '"' || c == '`'

/-- The characters that no backslash stands before. -/
def bareChars : List Char → List Char
  | [] => []
  | ['\\'] => []
  | '\\' :: _ :: r => bareChars r
  | c :: r => c :: bareChars r

/-- The text with these bare characters is one literal between two such quotes. Between ticks it may go over
several lines but holds no expression. -/
def quotes (quote : Char) (bare : List Char) : Bool :=
  !bare.contains quote && !bare.contains '\r' &&
    if quote == '`' then !contains bare ['$', '{'] else !bare.contains '\n'

/-- What a literal stands for that begins with the quote, from behind that on. -/
def quoted? (quote : Char) (rest : List Char) : Option (List Char) :=
  if rest.getLast? = some quote && quotes quote (bareChars rest.dropLast) then unescape? rest.dropLast else none

/-- A number with a needless zero before its digits is no literal. -/
def number? (e : List Char) : Option Float :=
  let digits := if e.head?.any fun c => c == '-' || c == '+' then e.tail else e
  match Decimal.read? e with
  | some (.finite negative ds exponent) =>
    if digits.head? = some '0' && digits.tail.head?.any Char.isDigit then none
    else some (Decimal.Numeral.toFloat (.finite negative ds exponent))
  | _ => none

/-- The values that are neither lists nor records. -/
def atom? (e : List Char) : Option ScriptValue :=
  if e = "true".toList then some (flag true)
  else if e = "false".toList then some (flag false)
  else if e = "null".toList then some null
  else if e = "undefined".toList then some undefined
  else if e.head?.any isQuote then (e.head?.bind fun q => quoted? q e.tail).map text
  else (number? e).map number

def pieces (sep : Char) (inside : List Char) : List (List Char) := (rawPieces sep 0 (mark inside)).map trim

/-- A separator may end the list. -/
def elements (inside : List Char) : List (List Char) :=
  let ps := pieces ',' inside
  if ps.getLast? = some [] then ps.dropLast else ps

/-- The key `__proto__` is no property. -/
def key? (e : List Char) : Option (List Char) :=
  (match e with
    | [] => none
    | c :: r => if c == '\'' || c == '"' then quoted? c r else if isIdentifier e then some e else none).filter
    (· != "__proto__".toList)

def property? (e : List Char) : Option (List Char × List Char) :=
  match pieces ':' e with
  | [k, v] => (key? k).map (·, v)
  | _ => none

/-- What the bracket at the start encloses, if it closes at the end. -/
def whole? (e : List Char) : Option (List Char) :=
  match enclosed? e with
  | some (inside, []) => some inside
  | _ => none

/-- The value of an expression that nests less deep than `depth`. -/
def read? : Nat → List Char → Option ScriptValue
  | 0, _ => none
  | depth + 1, e =>
    if e.head? = some '[' then
      (whole? e).bind fun inside => ((elements inside).mapM (read? depth)).map list
    else if e.head? = some '{' then
      (whole? e).bind fun inside => ((elements inside).mapM fun x =>
        (property? x).bind fun (k, v) => (read? depth v).map (k, ·)).map (record ∘ fields)
    else atom? e

/-- The value of a literal. Other expressions have none here. -/
def ofLiteral? (e : List Char) : Option ScriptValue := read? e.length e

/-! ### The type of what is read -/

theorem not_isNumber {e : List Char} (h : e.head? = some '[' ∨ e.head? = some '{') : ValueType.isNumber e = false := by
  cases e with
  | nil => cases h <;> contradiction
  | cons c r =>
    simp only [List.head?_cons, Option.some.injEq] at h
    have hunsigned : Decimal.readUnsigned? false (c :: r) = none := by
      rcases h with rfl | rfl <;> rfl
    have hread : Decimal.read? (c :: r) = none := by
      rcases h with rfl | rfl <;> exact hunsigned
    rcases h with rfl | rfl <;> simp [ValueType.isNumber, hread]

theorem isNumber_of_number? {e : List Char} {x : Float} (h : number? e = some x) : ValueType.isNumber e = true := by
  have hread : (Decimal.read? e).isSome = true := by
    unfold number? at h
    dsimp only at h
    split at h
    · rename_i hread
      rw [hread]
      rfl
    · cases h
  simp [ValueType.isNumber, hread]

theorem type_of_atom? {e : List Char} {v : ScriptValue} (h : atom? e = some v) :
    (e = "true".toList ∨ e = "false".toList) ∧ v.type = "boolean" ∨
      (e = "null".toList ∨ e = "undefined".toList) ∧ v.type = "unknown" ∨
      e.head?.any isQuote = true ∧ v.type = "string" ∨
      ValueType.isNumber e = true ∧ e.head?.any isQuote = false ∧ v.type = "number" := by
  unfold atom? at h
  split at h
  · rename_i hword
    cases h
    exact .inl ⟨.inl hword, rfl⟩
  split at h
  · rename_i hword
    cases h
    exact .inl ⟨.inr hword, rfl⟩
  split at h
  · rename_i hword
    cases h
    exact .inr (.inl ⟨.inl hword, rfl⟩)
  split at h
  · rename_i hword
    cases h
    exact .inr (.inl ⟨.inr hword, rfl⟩)
  split at h
  · rename_i hquote
    obtain ⟨s, -, rfl⟩ := Option.map_eq_some_iff.1 h
    exact .inr (.inr (.inl ⟨hquote, rfl⟩))
  · rename_i hquote
    obtain ⟨x, hx, rfl⟩ := Option.map_eq_some_iff.1 h
    exact .inr (.inr (.inr ⟨isNumber_of_number? hx, Bool.eq_false_iff.2 hquote, rfl⟩))

/-- What a literal begins with tells the kind of its value. -/
theorem type_of_read? {depth : Nat} {e : List Char} {v : ScriptValue} (h : read? depth e = some v) :
    e.head? = some '[' ∧ v.type = "unknown[]" ∨ e.head? = some '{' ∧ v.type = "Record<string, unknown>" ∨
      atom? e = some v := by
  cases depth with
  | zero => cases h
  | succ depth =>
    unfold read? at h
    split at h
    · rename_i hhead
      obtain ⟨inside, -, h⟩ := Option.bind_eq_some_iff.1 h
      obtain ⟨items, -, rfl⟩ := Option.map_eq_some_iff.1 h
      exact .inl ⟨hhead, rfl⟩
    · split at h
      · rename_i hhead
        obtain ⟨inside, -, h⟩ := Option.bind_eq_some_iff.1 h
        obtain ⟨entries, -, rfl⟩ := Option.map_eq_some_iff.1 h
        exact .inr (.inl ⟨hhead, rfl⟩)
      · exact .inr (.inr h)

/-- The words that are read before anything else. -/
def words : List (List Char) := ["true".toList, "false".toList, [], "null".toList, "undefined".toList]

theorem ofLiteral_of_not_mem_words {e : List Char} (h : trim e ∉ words) : ValueType.ofLiteral e =
    if (trim e).head?.any isQuote then "string" else if ValueType.isNumber (trim e) then "number"
    else if (trim e).head? == some '[' then "unknown[]"
    else if (trim e).head? == some '{' then "Record<string, unknown>"
    else if startsWith (trim e) "new Date(".toList then "Date"
    else if startsWith (trim e) "() =>".toList && endsWith (trim e) "\x7b\x7d".toList then "() => void"
    else "unknown" := by
  simp only [words, List.mem_cons, not_or, List.not_mem_nil, not_false_eq_true, and_true] at h
  obtain ⟨htrue, hfalse, hempty, hnull, hundefined⟩ := h
  have hflag : (trim e == "true".toList || trim e == "false".toList) = false :=
    Bool.or_eq_false_iff.2 ⟨beq_eq_false_iff_ne.2 htrue, beq_eq_false_iff_ne.2 hfalse⟩
  have hunknown : ((trim e).isEmpty || trim e == "null".toList || trim e == "undefined".toList) = false :=
    Bool.or_eq_false_iff.2 ⟨Bool.or_eq_false_iff.2 ⟨List.isEmpty_eq_false_iff.2 hempty, beq_eq_false_iff_ne.2 hnull⟩,
      beq_eq_false_iff_ne.2 hundefined⟩
  unfold ValueType.ofLiteral
  simp only [hflag, hunknown, Bool.false_eq_true, if_false]
  rfl

/-- A literal has the type of its value. -/
theorem ofLiteral_of_read {e : List Char} {v : ScriptValue} (h : ofLiteral? (trim e) = some v) :
    ValueType.ofLiteral e = v.type := by
  have hother {p : List Char → Bool} (hp : ∀ w ∈ words, p w = false) (he : p (trim e) = true) : trim e ∉ words :=
    fun hmem => by rw [hp _ hmem] at he; cases he
  rcases type_of_read? h with ⟨he, htype⟩ | ⟨he, htype⟩ | hatom
  · have hword := hother (p := (·.head? == some '[')) (by decide) (beq_iff_eq.2 he)
    rw [ofLiteral_of_not_mem_words hword, not_isNumber (.inl he), he, htype]
    rfl
  · have hword := hother (p := (·.head? == some '{')) (by decide) (beq_iff_eq.2 he)
    rw [ofLiteral_of_not_mem_words hword, not_isNumber (.inr he), he, htype]
    rfl
  rcases type_of_atom? hatom with ⟨hword, htype⟩ | ⟨hword, htype⟩ | ⟨hquote, htype⟩ | ⟨hnumber, hquote, htype⟩
  · unfold ValueType.ofLiteral
    rcases hword with hword | hword <;> rw [hword, htype] <;> rfl
  · unfold ValueType.ofLiteral
    rcases hword with hword | hword <;> rw [hword, htype] <;> rfl
  · have hword := hother (p := (·.head?.any isQuote)) (by decide) hquote
    rw [ofLiteral_of_not_mem_words hword, if_pos hquote, htype]
  · have hword := hother (p := ValueType.isNumber) (by decide) hnumber
    rw [ofLiteral_of_not_mem_words hword, hquote, hnumber, htype]
    rfl

/-- Only the two words are flags. -/
theorem trim_of_ofLiteral_boolean {e : List Char} (h : ValueType.ofLiteral e = "boolean") :
    trim e = "true".toList ∨ trim e = "false".toList := by
  unfold ValueType.ofLiteral at h
  dsimp only at h
  split at h
  · rename_i hflag
    rcases Bool.or_eq_true_iff.1 hflag with htrue | hfalse
    · exact .inl (beq_iff_eq.1 htrue)
    · exact .inr (beq_iff_eq.1 hfalse)
  · repeat' split at h
    all_goals exact absurd h (by decide)

end ScriptValue

end Recast
