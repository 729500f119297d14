import Recast.Proofs.Text.Counting
import Recast.Proofs.Text.InkLines
import Recast.Toml.Quoted

/-!
# What a string literal stands for

Between its quotes a literal stands for its characters, but for the escapes. What was escaped is read
back (`unescape_escapeQuoted`). An escape takes up more characters than it stands for, blanks aside, so
a text that is read as itself holds none (`ink_unescape`).

The contents of a single-quoted literal are made by three replacements in a row, and no later one touches what
an earlier one put in. So an escaped text is one literal wherever it stands between quotes
(`literalEndAt?_escapeQuoted`), and undoing the escapes accepts exactly what escaping writes
(`undoEscapes?_eq_some_iff`). The title of a scenario is escaped in the same way once it is on one line.
-/

namespace Recast.Text

/-! ### Escapes -/

/-- The characters at which a line of a script ends. -/
def lineEnds : List Char := ['\n', '\r', '\u2028', '\u2029']

/-- A code of any length in braces, from behind the opening one. -/
def bracedEscape? (r : List Char) : Option (List Char × Nat) :=
  let code := r.takeWhile (· != '}')
  if code.isEmpty || code.length == r.length then none
  else (Toml.coded? code).map fun c => ([c], code.length + 3)

/-- Two codes, each of one half of a character. -/
def pairedEscape? (r : List Char) : Option (List Char × Nat) :=
  let high := r.take 4
  let low := (r.drop 6).take 4
  let isHalf (code : List Char) (start : Nat) : Bool :=
    code.length == 4 && code.all Toml.isHex && start ≤ Toml.valueIn 16 code &&
      Toml.valueIn 16 code < start + 0x400
  if isHalf high 0xD800 && (r.drop 4).take 2 == ['\\', 'u'] && isHalf low 0xDC00 then
    some ([Char.ofNat (0x10000 + 0x400 * (Toml.valueIn 16 high - 0xD800) + (Toml.valueIn 16 low - 0xDC00))], 11)
  else none

/-- What the text behind a backslash stands for, and how many of its characters do so. The end of a line
stands for nothing, and half a character for none. -/
def scriptEscape? : List Char → Option (List Char × Nat)
  | [] => none
  | 'n' :: _ => some (['\n'], 1)
  | 't' :: _ => some (['\t'], 1)
  | 'r' :: _ => some (['\r'], 1)
  | 'b' :: _ => some (['\x08'], 1)
  | 'v' :: _ => some (['\x0b'], 1)
  | 'f' :: _ => some (['\x0c'], 1)
  | 'x' :: r => Toml.codeEscape? 2 r
  | 'u' :: '{' :: r => bracedEscape? r
  | 'u' :: r => (Toml.codeEscape? 4 r).or (pairedEscape? r)
  | '0' :: r => if r.head?.any Char.isDigit then none else some (['\x00'], 1)
  | '\r' :: '\n' :: _ => some ([], 2)
  | c :: _ => if c.isDigit then none else if lineEnds.contains c then some ([], 1) else some ([c], 1)

/-- What the text stands for after its first `n` characters. -/
def unescapeFrom : Nat → List Char → Option (List Char)
  | _, [] => some []
  | n + 1, _ :: r => unescapeFrom n r
  | 0, c :: r =>
    if c = '\\' then (scriptEscape? r).bind fun (cs, n) => (unescapeFrom n r).map (cs ++ ·)
    else (unescapeFrom 0 r).map (c :: ·)

/-- What the text between the quotes of a literal stands for. -/
def unescape? (contents : List Char) : Option (List Char) := unescapeFrom 0 contents

theorem unescapeFrom_escape {r cs : List Char} {n : Nat} (h : scriptEscape? r = some (cs, n)) :
    unescapeFrom 0 ('\\' :: r) = (unescapeFrom n r).map (cs ++ ·) := by
  rw [unescapeFrom, if_pos rfl, h]
  rfl

theorem unescapeFrom_plain {c : Char} (h : c ≠ '\\') (r : List Char) :
    unescapeFrom 0 (c :: r) = (unescapeFrom 0 r).map (c :: ·) := by
  rw [unescapeFrom, if_neg h]

/-! ### Reading back -/

/-- What was escaped is read back. -/
theorem unescape_escapeQuoted (s : List Char) : unescape? (escapeQuoted s) = some s := by
  unfold unescape?
  induction s with
  | nil => rfl
  | cons c s ih =>
    have hcons : escapeQuoted (c :: s) = quotedChar c ++ escapeQuoted s := rfl
    rw [hcons]
    unfold quotedChar
    split
    case h_4 hslash _ _ =>
      rw [List.singleton_append, unescapeFrom_plain hslash, ih]
      rfl
    all_goals
      rw [List.cons_append, unescapeFrom_escape rfl]
      show (unescapeFrom 0 (escapeQuoted s)).map _ = _
      rw [ih]
      rfl

/-- A text without a backslash stands for itself. -/
theorem unescape_of_not_mem {s : List Char} (h : '\\' ∉ s) : unescape? s = some s := by
  unfold unescape?
  induction s with
  | nil => rfl
  | cons c s ih =>
    simp only [List.mem_cons, not_or] at h
    rw [unescapeFrom_plain (Ne.symm h.1), ih h.2]
    rfl

/-! ### What an escape takes up -/

theorem length_ink_le (s : List Char) : (ink s).length ≤ s.length := List.length_filter_le ..

theorem length_ink_cons_pos {c : Char} (h : isBlank c = false) (r : List Char) {n : Nat} :
    1 ≤ (ink ((c :: r).take (n + 1))).length := by
  rw [List.take_succ_cons, ink, List.filter_cons_of_pos (by simp [h])]
  exact Nat.le_add_left 1 _

theorem codeEscape?_eq_some {m n : Nat} {r cs : List Char} (h : Toml.codeEscape? m r = some (cs, n)) :
    cs.length = 1 ∧ n = m + 1 := by
  unfold Toml.codeEscape? at h
  split at h
  · obtain ⟨c, -, hc⟩ := Option.map_eq_some_iff.1 h
    cases hc
    exact ⟨rfl, rfl⟩
  · cases h

theorem bracedEscape?_eq_some {n : Nat} {r cs : List Char} (h : bracedEscape? r = some (cs, n)) :
    cs.length = 1 ∧ 1 ≤ n := by
  unfold bracedEscape? at h
  dsimp only at h
  split at h
  · cases h
  · obtain ⟨c, -, hc⟩ := Option.map_eq_some_iff.1 h
    cases hc
    exact ⟨rfl, Nat.le_add_left 1 _⟩

theorem pairedEscape?_eq_some {n : Nat} {r cs : List Char} (h : pairedEscape? r = some (cs, n)) :
    cs.length = 1 ∧ 1 ≤ n := by
  unfold pairedEscape? at h
  dsimp only at h
  split at h
  · cases h
    exact ⟨rfl, by decide⟩
  · cases h

/-- Blanks aside, an escape stands for no more than it takes up behind its backslash. -/
theorem ink_scriptEscape? {r cs : List Char} {n : Nat} (h : scriptEscape? r = some (cs, n)) :
    (ink cs).length ≤ (ink (r.take n)).length := by
  -- A mark that is a letter pays for the one character that it stands for.
  have hmark {c : Char} (hc : isBlank c = false) {s : List Char} (hcs : cs.length = 1 ∧ 1 ≤ n) :
      (ink cs).length ≤ (ink ((c :: s).take n)).length := by
    obtain ⟨m, rfl⟩ := Nat.exists_eq_add_of_le' hcs.2
    exact (length_ink_le cs).trans (hcs.1 ▸ length_ink_cons_pos hc s)
  unfold scriptEscape? at h
  split at h
  case h_1 => cases h
  case h_8 =>
    obtain ⟨hcs, hn⟩ := codeEscape?_eq_some h
    exact hmark (by decide) ⟨hcs, by omega⟩
  case h_9 => exact hmark (by decide) (bracedEscape?_eq_some h)
  case h_10 =>
    refine hmark (by decide) ?_
    rcases Option.or_eq_some_iff.1 h with h | ⟨-, h⟩
    · obtain ⟨hcs, hn⟩ := codeEscape?_eq_some h
      exact ⟨hcs, by omega⟩
    · exact pairedEscape?_eq_some h
  case h_11 =>
    split at h
    · cases h
    · cases h
      exact hmark (by decide) ⟨rfl, le_rfl⟩
  case h_12 => cases h; exact Nat.zero_le _
  case h_13 =>
    split at h
    · cases h
    · split at h
      · cases h
        exact Nat.zero_le _
      · cases h
        exact le_rfl
  all_goals
    cases h
    exact hmark (by decide) ⟨rfl, le_rfl⟩

theorem ink_unescapeFrom {n : Nat} {t s : List Char} (h : unescapeFrom n t = some s) :
    (ink s).length + (if '\\' ∈ t.drop n then 1 else 0) ≤ (ink (t.drop n)).length := by
  induction t generalizing n s with
  | nil =>
    cases n <;> cases h <;> simp
  | cons c r ih =>
    cases n with
    | succ n => exact ih h
    | zero =>
      rw [List.drop_zero]
      by_cases hc : c = '\\'
      · subst hc
        rw [unescapeFrom, if_pos rfl] at h
        obtain ⟨⟨cs, n⟩, hescape, hrest⟩ := Option.bind_eq_some_iff.1 h
        obtain ⟨s, hs, rfl⟩ := Option.map_eq_some_iff.1 hrest
        have hbehind := ih hs
        have htaken := ink_scriptEscape? hescape
        have hsplit : ink ('\\' :: r) = '\\' :: (ink (r.take n) ++ ink (r.drop n)) := by
          rw [← ink_append, List.take_append_drop]
          rfl
        rw [hsplit, if_pos List.mem_cons_self, ink_append, List.length_append, List.length_cons,
          List.length_append]
        omega
      · rw [unescapeFrom_plain hc] at h
        obtain ⟨s, hs, rfl⟩ := Option.map_eq_some_iff.1 h
        have hbehind := ih hs
        rw [List.drop_zero] at hbehind
        have hcons (u : List Char) : ink (c :: u) = ink [c] ++ ink u := ink_append [c] u
        have hmem : '\\' ∈ c :: r ↔ '\\' ∈ r := by simp [Ne.symm hc]
        rw [hcons s, hcons r, List.length_append, List.length_append]
        simp only [hmem]
        omega

/-- Blanks aside, a text with an escape stands for less than it holds. -/
theorem ink_unescape {t s : List Char} (h : unescape? t = some s) :
    (ink s).length + (if '\\' ∈ t then 1 else 0) ≤ (ink t).length := ink_unescapeFrom h

/-! ### Where a literal ends -/

/-- What finds no closing quote from behind a quote on does not go past that quote. -/
theorem stringLength?_le {q : Char} (hq : q ≠ '\\') (hline : q ≠ '\n') {v : List Char} (hv : stringLength? q v = none)
    {u : List Char} {n : Nat} (h : stringLength? q (u ++ q :: v) = some n) : n ≤ u.length + 1 := by
  induction hu : u.length using Nat.strong_induction_on generalizing u n with
  | _ k ih =>
    subst hu
    cases u with
    | nil =>
      rw [List.nil_append, stringLength?_cons hq, if_neg (by simpa using hline), if_pos (by simp)] at h
      cases h
      exact le_rfl
    | cons c u =>
      by_cases hc : c = '\\'
      · subst hc
        cases u with
        | nil =>
          -- The quote is escaped, and behind it nothing closes.
          have hnone : stringLength? q ('\\' :: q :: v) = (stringLength? q v).map (· + 2) := rfl
          rw [List.cons_append, List.nil_append, hnone, hv] at h
          cases h
        | cons d u =>
          have hpair : stringLength? q ('\\' :: d :: (u ++ q :: v)) = (stringLength? q (u ++ q :: v)).map (· + 2) :=
            rfl
          rw [List.cons_append, List.cons_append, hpair] at h
          obtain ⟨m, hm, rfl⟩ := Option.map_eq_some_iff.1 h
          have hle := ih u.length (by simp only [List.length_cons]; omega) hm rfl
          simp only [List.length_cons]
          omega
      · rw [List.cons_append, stringLength?_cons hc] at h
        split at h
        · cases h
        · split at h
          · cases h
            exact Nat.le_add_left 1 _
          · obtain ⟨m, hm, rfl⟩ := Option.map_eq_some_iff.1 h
            have hle := ih u.length (by simp) hm rfl
            simp only [List.length_cons]
            omega

/-- A line with neither a quote nor a backslash closes nothing. -/
theorem stringLength?_line {q : Char} {l : List Char} (hquote : q ∉ l) (hslash : '\\' ∉ l) (rest : List Char) :
    stringLength? q (l ++ '\n' :: rest) = none := by
  induction l with
  | nil =>
    rw [List.nil_append, stringLength?_cons (by decide)]
    rfl
  | cons c l ih =>
    simp only [List.mem_cons, not_or] at hquote hslash
    have hother : ¬ (c == q) = true := fun h => hquote.1 (eq_of_beq h).symm
    rw [List.cons_append, stringLength?_cons (Ne.symm hslash.1), ih hquote.2 hslash.2, if_neg hother]
    split <;> rfl

/-- Where nothing is escaped, a literal holds neither its quote nor a line feed. -/
theorem not_mem_of_stringLength? {q : Char} {t : List Char} {n : Nat} (h : stringLength? q t = some (n + 1))
    (hslash : '\\' ∉ t.take n) : q ∉ t.take n ∧ '\n' ∉ t.take n := by
  induction t generalizing n with
  | nil => cases h
  | cons c r ih =>
    cases n with
    | zero => simp
    | succ n =>
      simp only [List.take_succ_cons, List.mem_cons, not_or] at hslash ⊢
      rw [stringLength?_cons (Ne.symm hslash.1)] at h
      split at h
      · cases h
      · rename_i hfeed
        split at h
        · cases h
        · rename_i hquote
          obtain ⟨m, hm, hmn⟩ := Option.map_eq_some_iff.1 h
          obtain rfl : m = n + 1 := by omega
          obtain ⟨hq, hn⟩ := ih hm hslash.2
          exact ⟨⟨fun h => hquote (beq_iff_eq.2 h.symm), hq⟩, ⟨fun h => hfeed (beq_iff_eq.2 h.symm), hn⟩⟩

/-! ### Three replacements -/

theorem replace_char (c : Char) (new text : List Char) :
    replace [c] new text = text.flatMap fun d => if d = c then new else [d] := by
  unfold replace
  induction text with
  | nil => rfl
  | cons d r ih =>
    have hstart : startsWith (d :: r) [c] = true ↔ d = c := by
      rw [startsWith_iff, List.cons_prefix_cons, eq_comm]
      simp
    rw [replaceFrom, List.flatMap_cons, List.length_singleton, ih]
    by_cases h : d = c
    · rw [if_pos (hstart.2 h), if_pos h]
    · rw [if_neg (mt hstart.1 h), if_neg h]
      rfl

/-- The backslash goes first, so that none of those put in later is doubled, and the line feed last. -/
theorem replace_escapes (feed s : List Char) :
    replace ['\n'] feed (replace ['\''] ['\\', '\''] (replace ['\\'] ['\\', '\\'] s)) =
      s.flatMap fun c => if c = '\n' then feed else quotedChar c := by
  simp only [replace_char, List.flatMap_assoc]
  refine List.flatMap_congr fun c _ => ?_
  by_cases hslash : c = '\\'
  · subst hslash
    rfl
  by_cases hquote : c = '\''
  · subst hquote
    rfl
  rw [if_neg hslash, List.flatMap_singleton, if_neg hquote, List.flatMap_singleton]
  by_cases hline : c = '\n'
  · rw [if_pos hline, if_pos hline]
  · rw [if_neg hline, if_neg hline, quotedChar]
    · exact hslash
    · exact hquote
    · exact hline

theorem escapeQuoted_eq_replace (s : List Char) :
    escapeQuoted s =
      replace ['\n'] ['\\', 'n'] (replace ['\''] ['\\', '\''] (replace ['\\'] ['\\', '\\'] s)) := by
  rw [replace_escapes]
  refine List.flatMap_congr fun c _ => ?_
  split
  · rename_i hline
    rw [hline]
    rfl
  · rfl

theorem titleChar_eq (c : Char) : titleChar c = if c = '\n' then [' '] else quotedChar c := by
  unfold titleChar
  split
  · rfl
  · rename_i hline
    rw [if_neg hline]

theorem escapeTitle_eq_replace (s : List Char) :
    escapeTitle s = replace ['\n'] [' '] (replace ['\''] ['\\', '\''] (replace ['\\'] ['\\', '\\'] s)) := by
  rw [replace_escapes]
  exact List.flatMap_congr fun c _ => titleChar_eq c

/-- The text with a space for every line break. -/
def onOneLine (s : List Char) : List Char := s.map fun c => if c = '\n' then ' ' else c

theorem escapeTitle_eq (s : List Char) : escapeTitle s = escapeQuoted (onOneLine s) := by
  unfold escapeTitle escapeQuoted onOneLine
  rw [List.flatMap_map]
  refine List.flatMap_congr fun c _ => ?_
  rw [titleChar_eq]
  split <;> rfl

/-! ### One literal -/

/-- The text between single quotes. -/
def inQuotes (s : List Char) : List Char := '\'' :: (s ++ ['\''])

/-- Behind anything but a name, an escaped text between quotes is one literal, whatever follows it. -/
theorem literalEndAt?_escapeQuoted {before : List Char} (h : before.getLast?.any isIdentChar = false)
    (s rest : List Char) :
    literalEndAt? (before ++ (inQuotes (escapeQuoted s) ++ rest)) (byteLength before) =
      some (byteLength (before ++ inQuotes (escapeQuoted s))) := by
  have hquotes : inQuotes (escapeQuoted s) ++ rest = '\'' :: (escapeQuoted s ++ '\'' :: rest) := by simp [inQuotes]
  have hlength : (escapeQuoted s).length + 2 = (inQuotes (escapeQuoted s)).length := by simp [inQuotes]
  rw [hquotes, literalEndAt?_append, literal?_escapeQuoted h, ← hquotes, Option.map_some]
  dsimp only
  rw [hlength, List.take_left, byteLength_append]

/-! ### Back to the text -/

/-- Undoes the escapes of a backslash, a quote and a line feed. A backslash that begins none of them is refused,
and so is a quote or a line feed that stands by itself. -/
def undoEscapes? : List Char → Option (List Char)
  | [] => some []
  | '\\' :: '\\' :: r => (undoEscapes? r).map ('\\' :: ·)
  | '\\' :: '\'' :: r => (undoEscapes? r).map ('\'' :: ·)
  | '\\' :: 'n' :: r => (undoEscapes? r).map ('\n' :: ·)
  | c :: r => if c = '\\' ∨ c = '\'' ∨ c = '\n' then none else (undoEscapes? r).map (c :: ·)

theorem undoEscapes?_plain {c : Char} (hslash : c ≠ '\\') (hquote : c ≠ '\'') (hline : c ≠ '\n')
    (r : List Char) : undoEscapes? (c :: r) = (undoEscapes? r).map (c :: ·) := by
  rw [undoEscapes?, if_neg (by simp [hslash, hquote, hline])]
  all_goals exact fun _ h => absurd h hslash

theorem undoEscapes?_escapeQuoted (s : List Char) : undoEscapes? (escapeQuoted s) = some s := by
  induction s with
  | nil => rfl
  | cons c s ih =>
    have hcons : escapeQuoted (c :: s) = quotedChar c ++ escapeQuoted s := rfl
    rw [hcons]
    unfold quotedChar
    split
    case h_4 hslash hquote hline =>
      rw [List.singleton_append, undoEscapes?_plain hslash hquote hline, ih]
      rfl
    all_goals
      show (undoEscapes? (escapeQuoted s)).map _ = _
      rw [ih]
      rfl

/-- Nothing but escaped text is accepted. -/
theorem eq_escapeQuoted_of_undoEscapes? {t s : List Char} (h : undoEscapes? t = some s) : t = escapeQuoted s := by
  fun_induction undoEscapes? t generalizing s with
  | case1 => cases h; rfl
  | case2 r ih | case3 r ih | case4 r ih =>
    obtain ⟨u, hu, rfl⟩ := Option.map_eq_some_iff.1 h
    rw [ih hu]
    rfl
  | case5 => cases h
  | case6 c r _ _ _ hplain ih =>
    obtain ⟨u, hu, rfl⟩ := Option.map_eq_some_iff.1 h
    simp only [not_or] at hplain
    have hself : quotedChar c = [c] := by
      unfold quotedChar
      split <;> simp_all
    rw [ih hu]
    show _ = quotedChar c ++ escapeQuoted u
    rw [hself]
    rfl

theorem undoEscapes?_eq_some_iff {t s : List Char} : undoEscapes? t = some s ↔ t = escapeQuoted s :=
  ⟨eq_escapeQuoted_of_undoEscapes?, fun h => h ▸ undoEscapes?_escapeQuoted s⟩

theorem escapeQuoted_injective : Function.Injective escapeQuoted := fun s s' h =>
  Option.some.inj ((undoEscapes?_escapeQuoted s).symm.trans (h ▸ undoEscapes?_escapeQuoted s'))

/-- Every escaped text is one literal between quotes, from its first byte to its last, and the escapes are undone
to it and to no other. The title of a scenario is one literal too, and stands for the text on one line. -/
theorem escaped_is_one_literal :
    Function.Injective escapeQuoted ∧ ∀ s : List Char,
      (escapeQuoted s =
          replace ['\n'] ['\\', 'n'] (replace ['\''] ['\\', '\''] (replace ['\\'] ['\\', '\\'] s)) ∧
        literalEndAt? (inQuotes (escapeQuoted s)) 0 = some (byteLength (inQuotes (escapeQuoted s))) ∧
        (∀ t, undoEscapes? t = some s ↔ t = escapeQuoted s) ∧ unescape? (escapeQuoted s) = some s) ∧
      (escapeTitle s =
          replace ['\n'] [' '] (replace ['\''] ['\\', '\''] (replace ['\\'] ['\\', '\\'] s)) ∧
        literalEndAt? (inQuotes (escapeTitle s)) 0 = some (byteLength (inQuotes (escapeTitle s))) ∧
        undoEscapes? (escapeTitle s) = some (onOneLine s)) := by
  have hliteral (s : List Char) :
      literalEndAt? (inQuotes (escapeQuoted s)) 0 = some (byteLength (inQuotes (escapeQuoted s))) := by
    have hstart : ([] : List Char).getLast?.any isIdentChar = false := rfl
    have hplaced := literalEndAt?_escapeQuoted hstart s []
    rwa [List.append_nil] at hplaced
  refine ⟨escapeQuoted_injective, fun s => ⟨⟨escapeQuoted_eq_replace s, hliteral s, ?_, ?_⟩, ?_, ?_, ?_⟩⟩
  · exact fun t => undoEscapes?_eq_some_iff
  · exact unescape_escapeQuoted s
  · exact escapeTitle_eq_replace s
  · rw [escapeTitle_eq]
    exact hliteral (onOneLine s)
  · rw [escapeTitle_eq, undoEscapes?_escapeQuoted]

end Recast.Text
