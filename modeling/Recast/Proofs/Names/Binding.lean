import Recast.Proofs.Names.Listing
import Recast.Text.Split

/-!
# Binders

The forms in which an expression binds a name itself, and which of them keep the name
out of the dependency list. A parameter of an arrow function and a name right after
a declaring word are kept out. A name inside a pattern, a later declarator, a
parameter of another function and a caught error are listed, unless the scan sees
another binder of the name.
-/

namespace Recast.FreeNames

open Text

/-- What may stand between the start of a list of bindings and a name that it binds:
bindings before it, the opening brackets of the patterns around it, the key it is
taken from, and the dots of a rest. The flag says that a pattern is around it. -/
inductive BindingPath : Bool → List Char → Prop
  | start {bs} (hb : bs.all isAsciiBlank = true) : BindingPath false bs
  | rest {bs} (hb : bs.all isAsciiBlank = true) : BindingPath false (bs ++ "...".toList)
  | after {inside u v} (hu : isBalanced u = true) (hs : (splitTopLevel ';' u).length ≤ 1)
      (h : BindingPath inside v) : BindingPath inside (u ++ ',' :: v)
  | inside {inside bs c v} (hb : bs.all isAsciiBlank = true) (hc : c = '{' ∨ c = '[')
      (h : BindingPath inside v) : BindingPath true (bs ++ c :: v)
  | keyed {inside key v} (hk : isBalanced key = true) (h : BindingPath inside v) :
      BindingPath true (key ++ ':' :: v)

/-- A list of bindings that starts at position `i` binds the name at position `p`. In a
pattern a name before a colon is a key. -/
structure BoundFrom (expr w : List Char) (i p : Nat) (inside : Bool) : Prop where
  le : i ≤ p
  path : BindingPath inside ((⟨i, p⟩ : Span).text expr)
  notKey : inside = true → significantAt? expr (p + w.length) ≠ some ':'

/-- The name at position `p` is bound in the round brackets that open at `i` and close
`n` characters later. -/
structure InBrackets (expr w : List Char) (p i n : Nat) : Prop where
  opener : expr[i]? = some '('
  partner : partner? (expr.drop i) = some n
  right : p + w.length ≤ i + n
  path : ∃ inside, BoundFrom expr w (i + 1) p inside

inductive BinderForm
  /-- A name right after a declaring word. -/
  | plain
  /-- A name in the list of declarators after such a word, also inside a pattern. -/
  | declared
  /-- The only parameter of an arrow function, without brackets. -/
  | arrow
  | arrowParameter
  | functionParameter
  | caught
  deriving DecidableEq

def BinderForm.isSeen : BinderForm → Bool
  | plain | arrow | arrowParameter => true
  | declared | functionParameter | caught => false

def constLetVar : List (List Char) := ["const", "let", "var"].map (·.toList)

/-- The name at position `p` is a binder of the form. -/
inductive Binds (expr w : List Char) (p : Nat) : BinderForm → Prop
  | plain {k bs q} (hk : k ∈ declaringWords) (hb : bs.all isAsciiBlank = true) (hn : bs ≠ [])
      (ho : Occurs expr (k ++ bs ++ w) q) : Binds expr w p .plain
  | declared {k q inside} (hk : k ∈ constLetVar) (ho : Occurs expr k q)
      (hf : BoundFrom expr w (q + k.length) p inside) : Binds expr w p .declared
  | arrow (ha : arrowAt expr (p + w.length) = true) : Binds expr w p .arrow
  | arrowParameter {i n} (hi : InBrackets expr w p i n) (ha : arrowAt expr (i + n + 1) = true) :
      Binds expr w p .arrowParameter
  | functionParameter {q i n} (ho : Occurs expr "function".toList q)
      (hq : '(' ∉ (⟨q, i⟩ : Span).text expr) (hi : InBrackets expr w p i n) :
      Binds expr w p .functionParameter
  | caught {q i n} (ho : Occurs expr "catch".toList q)
      (hq : ((⟨q + 5, i⟩ : Span).text expr).all isAsciiBlank = true) (hi : InBrackets expr w p i n) :
      Binds expr w p .caught

/-- The expression binds the name at position `p`. -/
structure BoundAt (expr w : List Char) (p : Nat) (form : BinderForm) : Prop where
  occurs : Occurs expr w p
  binds : Binds expr w p form

/-- The last character of the text that is not blank. -/
def lastSignificant? (text : List Char) : Option Char := (text.reverse.dropWhile isAsciiBlank).head?

theorem significantBefore?_eq (expr : List Char) (p : Nat) :
    significantBefore? expr p = lastSignificant? (expr.take p) := rfl

theorem lastSignificant?_append_blanks {bs : List Char} (hb : bs.all isAsciiBlank = true)
    (text : List Char) : lastSignificant? (text ++ bs) = lastSignificant? text := by
  rw [lastSignificant?, List.reverse_append, List.dropWhile_append_of_pos (by simpa using hb),
    lastSignificant?]

theorem lastSignificant?_concat {c : Char} (hc : isAsciiBlank c = false) (text : List Char) :
    lastSignificant? (text ++ [c]) = some c := by
  simp [lastSignificant?, hc]

theorem endsWith_append (text word : List Char) : endsWith (text ++ word) word = true := by
  have h : dropPrefix? word.reverse (word.reverse ++ text.reverse) = some text.reverse :=
    dropPrefix?_eq_some_iff.2 rfl
  simp [endsWith, startsWith, h]

theorem take_append_span {i p : Nat} (h : i ≤ p) (text : List Char) :
    text.take p = text.take i ++ (⟨i, p⟩ : Span).text text := by
  obtain ⟨n, rfl⟩ := Nat.exists_eq_add_of_le h
  simp [Span.text, Span.length, List.take_add]

namespace BindingPath

variable {inside : Bool} {mid before : List Char}

/-- What holds of a text before a path holds of the text up to its end, if blanks keep it
and it holds after dots and after every mark of a path. -/
theorem append {P : List Char → Prop} (h : BindingPath inside mid)
    (blanks : ∀ text bs, bs.all isAsciiBlank = true → P text → P (text ++ bs))
    (dots : ∀ text, P (text ++ "...".toList))
    (mark : ∀ text, ∀ c ∈ [',', '{', '[', ':'], P (text ++ [c])) (hp : P before) :
    P (before ++ mid) := by
  induction h generalizing before with
  | start hb => exact blanks _ _ hb hp
  | @rest bs hb => simpa using dots (before ++ bs)
  | @after _ u v hu hs h ih => simpa using ih (mark (before ++ u) ',' (by simp))
  | @inside _ bs c v hb hc h ih =>
    have hm : c ∈ [',', '{', '[', ':'] := by rcases hc with rfl | rfl <;> simp
    simpa using ih (mark (before ++ bs) c hm)
  | @keyed _ key v hk h ih => simpa using ih (mark (before ++ key) ':' (by simp))

theorem lastSignificant?_ne (h : BindingPath inside mid) (hp : lastSignificant? before ≠ some '=') :
    lastSignificant? (before ++ mid) ≠ some '=' := by
  refine h.append (P := fun text => lastSignificant? text ≠ some '=') ?_ ?_ ?_ hp
  · intro text bs hb ht
    rwa [lastSignificant?_append_blanks hb]
  · intro text
    have hc : lastSignificant? (text ++ "...".toList) = some '.' := by
      simpa using lastSignificant?_concat (c := '.') rfl (text ++ ['.', '.'])
    simp only [hc, ne_eq, Option.some.injEq]
    decide
  · intro text c hc
    have hs : isAsciiBlank c = false ∧ c ≠ '=' := by
      simp only [List.mem_cons, List.not_mem_nil, or_false] at hc
      rcases hc with rfl | rfl | rfl | rfl <;> decide
    simpa [lastSignificant?_concat hs.1] using hs.2

theorem not_member (h : BindingPath inside mid) (hp : before.getLast? ≠ some '.') :
    (before ++ mid).getLast? = some '.' → endsWith (before ++ mid) "...".toList = true := by
  refine h.append (P := fun text => text.getLast? = some '.' → endsWith text "...".toList = true)
    ?_ ?_ ?_ fun hl => absurd hl hp
  · intro text bs hb ht hl
    cases hbs : bs.getLast? with
    | none => simp_all
    | some c =>
      have hc := List.all_eq_true.1 hb c (List.mem_of_getLast? hbs)
      simp only [List.getLast?_append, hbs, Option.some_or, Option.some.injEq] at hl
      simp [hl, isAsciiBlank] at hc
  · exact fun text _ => endsWith_append text _
  · intro text c hc hl
    simp only [List.getLast?_concat, Option.some.injEq] at hl
    simp [hl] at hc

end BindingPath

theorem not_isIdentChar_of_blank {c : Char} (hc : isAsciiBlank c = true) : isIdentChar c = false := by
  simp only [isAsciiBlank, Bool.or_eq_true, beq_iff_eq] at hc
  rcases hc with (((rfl | rfl) | rfl) | rfl) | rfl <;> rfl

theorem tokensFrom_append_blanks {bs : List Char} (hb : bs.all isAsciiBlank = true) (hn : bs ≠ [])
    (prev : Option Char) (pos : Nat) (rest : List Char) :
    tokensFrom prev pos (bs ++ rest) = tokensFrom bs.getLast? (pos + bs.length) rest := by
  induction bs generalizing prev pos with
  | nil => exact absurd rfl hn
  | cons b bs ih =>
    simp only [List.all_cons, Bool.and_eq_true] at hb
    have hs : literal? prev (b :: (bs ++ rest)) = none ∧ b ≠ '`' := by
      have hb := hb.1
      simp only [isAsciiBlank, Bool.or_eq_true, beq_iff_eq] at hb
      rcases hb with (((rfl | rfl) | rfl) | rfl) | rfl <;> exact ⟨rfl, by decide⟩
    have hi := not_isIdentChar_of_blank hb.1
    rw [List.cons_append, tokensFrom_code prev pos hs.2 hs.1 hi]
    cases bs with
    | nil => simp
    | cons d bs =>
      rw [ih hb.2 (by simp)]
      simp [List.getLast?_cons, Nat.add_left_comm, Nat.add_comm]

section

variable {expr w : List Char} {p i n : Nat} {inside : Bool} {form : BinderForm}

theorem BoundFrom.isMember_eq (h : BoundFrom expr w i p inside)
    (hl : (expr.take i).getLast? ≠ some '.') (e : Nat) : isMember expr ⟨w, p, e⟩ = false := by
  have hm := h.path.not_member hl
  rw [← take_append_span h.le] at hm
  simp only [isMember, Bool.and_eq_false_imp, beq_iff_eq, Bool.not_eq_false']
  exact hm

theorem InBrackets.take_eq (h : InBrackets expr w p i n) : expr.take (i + 1) = expr.take i ++ ['('] := by
  rw [List.take_add_one, h.opener]
  rfl

theorem InBrackets.isMember_eq (h : InBrackets expr w p i n) (e : Nat) :
    isMember expr ⟨w, p, e⟩ = false := by
  obtain ⟨inside, hf⟩ := h.path
  exact hf.isMember_eq (by simp [h.take_eq]) e

theorem InBrackets.significantBefore?_ne (h : InBrackets expr w p i n) :
    significantBefore? expr p ≠ some '=' := by
  obtain ⟨inside, hf⟩ := h.path
  rw [significantBefore?_eq, take_append_span hf.le]
  refine hf.path.lastSignificant?_ne ?_
  rw [h.take_eq, lastSignificant?_concat (by decide)]
  decide

theorem InBrackets.left (h : InBrackets expr w p i n) : i < p := by
  obtain ⟨inside, hf⟩ := h.path
  exact hf.le

theorem seen_of_plain {k bs : List Char} {q : Nat} (hw : isRun w = true) (hk : k ∈ declaringWords)
    (hb : bs.all isAsciiBlank = true) (hn : bs ≠ []) (ho : Occurs expr (k ++ bs ++ w) q) :
    Seen expr w := by
  obtain ⟨prev, text, rest, hr, ha⟩ := ho
  have hkr : isRun k = true := by
    have hall : ∀ k ∈ declaringWords, isRun k = true := by decide
    exact hall k hk
  have hx := (tokensFrom_of_reads ha.before).1 none 0 expr hr
  have hblank : ∀ c ∈ bs, isIdentChar c = false := fun c hc =>
    not_isIdentChar_of_blank (List.all_eq_true.1 hb c hc)
  have hks : StandsAlone prev text k (bs ++ (w ++ rest)) := by
    refine ⟨by simp [ha.eq], ha.before, ?_⟩
    cases bs with
    | nil => exact absurd rfl hn
    | cons b bs => simp [hblank b (List.mem_cons_self ..)]
  have hws : StandsAlone bs.getLast? (w ++ rest) w rest := by
    refine ⟨rfl, ?_, ha.after⟩
    cases hg : bs.getLast? with
    | none => simp
    | some c => simp [hblank c (List.mem_of_getLast? hg)]
  rw [tokensFrom_of_standsAlone hkr hks, tokensFrom_append_blanks hb hn,
    tokensFrom_of_standsAlone hw hws] at hx
  obtain ⟨l₁, l₂, hs⟩ := hx
  rw [List.append_assoc, List.cons_append, List.cons_append] at hs
  exact .declared hs.symm hk rfl

theorem BoundAt.seen (h : BoundAt expr w p form) (hw : isRun w = true) (hf : form.isSeen = true) :
    Seen expr w := by
  cases h.binds with
  | plain hk hb hn ho => exact seen_of_plain hw hk hb hn ho
  | arrow ha => exact .arrow h.occurs ha
  | arrowParameter hi ha =>
    exact .parameter h.occurs hi.opener hi.partner ha hi.left hi.right hi.significantBefore?_ne
  | declared | functionParameter | caught => cases hf

theorem BoundAt.usedAt (h : BoundAt expr w p form) (hf : form.isSeen = false)
    (hk : isKey expr ⟨w, p, p + w.length⟩ = false) : UsedAt expr w p := by
  refine ⟨h.occurs, ?_, hk⟩
  -- Only the code before the binder matters: it ends with the declaring word or with a
  -- bracket, and a path keeps a dot away unless it is the last of a rest.
  cases h.binds with
  | plain | arrow | arrowParameter => cases hf
  | @declared k q inside hk ho hb =>
    refine hb.isMember_eq ?_ _
    rw [ho.take_add]
    revert k
    simp [constLetVar]
  | functionParameter _ _ hi | caught _ _ hi => exact hi.isMember_eq _

end

/-- A name that the expression binds is kept out of the dependency list if it is bound
in a form that the scan sees. In another form it is listed exactly if the scan sees no
other binder of it, it is not always there, begins with no capital, and the binder is
not taken for a key or the name is used somewhere. -/
theorem bound_mem_ofExpr_iff {expr w : List Char} {p : Nat} {form : BinderForm}
    (h : BoundAt expr w p form) :
    (form.isSeen = true → w ∉ ofExpr expr) ∧
      (w ∈ ofExpr expr ↔ isRun w = true ∧ w ∉ ambient ∧ ¬ w.head?.any Char.isUpper ∧
        ¬ Seen expr w ∧ (isKey expr ⟨w, p, p + w.length⟩ = false ∨ ∃ q, UsedAt expr w q)) := by
  constructor
  · intro hf hm
    obtain ⟨hw, -, -, hs, -⟩ := mem_ofExpr_iff.1 hm
    exact hs (h.seen hw hf)
  · rw [mem_ofExpr_iff]
    refine ⟨fun ⟨hw, ha, hc, hs, hu⟩ => ⟨hw, ha, hc, hs, .inr hu⟩,
      fun ⟨hw, ha, hc, hs, hu⟩ => ⟨hw, ha, hc, hs, hu.elim (fun hk => ⟨p, ?_⟩) id⟩⟩
    cases hf : form.isSeen with
    | false => exact h.usedAt hf hk
    | true => exact absurd (h.seen hw hf) hs

def pairSaver : List Char := "(item) => { const { id, count } = item; save(id, count); }".toList

theorem tokens_pairSaver : tokens pairSaver =
    [⟨"item".toList, 1, 5⟩, ⟨"const".toList, 12, 17⟩, ⟨"id".toList, 20, 22⟩,
      ⟨"count".toList, 24, 29⟩, ⟨"item".toList, 34, 38⟩, ⟨"save".toList, 40, 44⟩,
      ⟨"id".toList, 45, 47⟩, ⟨"count".toList, 49, 54⟩] := by cbv

/-- The second name of the pattern is listed, though nothing around the expression has it. -/
theorem count_mem_ofExpr_pairSaver :
    BoundAt pairSaver "count".toList 24 .declared ∧ "count".toList ∈ ofExpr pairSaver := by
  have hk : Occurs pairSaver "const".toList 12 :=
    occurs_of_mem_tokens (by rw [tokens_pairSaver]; decide)
  have hid : BindingPath false (" id".toList ++ ',' :: [' ']) :=
    .after (by decide) (by decide) (.start rfl)
  have hpath : BindingPath true ([' '] ++ '\x7b' :: (" id".toList ++ ',' :: [' '])) :=
    .inside rfl (.inl rfl) hid
  have hb : BoundAt pairSaver "count".toList 24 .declared :=
    ⟨occurs_of_mem_tokens (by rw [tokens_pairSaver]; decide),
      .declared (by decide) hk ⟨by decide, hpath, fun _ => by decide⟩⟩
  have hs : ¬ Seen pairSaver "count".toList := by
    rw [← mem_bound_iff rfl, tokens_pairSaver]
    decide +kernel
  exact ⟨hb, (bound_mem_ofExpr_iff hb).2.2 ⟨rfl, by decide, by decide, hs, .inl (by decide)⟩⟩

end Recast.FreeNames
