import Mathlib.Data.List.DropRight
import Recast.Proofs.Text.Balance
import Recast.Proofs.Text.Occurrence
import Recast.Proofs.Text.Pieces

/-!
# Texts that close what they open

A text in which every literal and comment ends is scanned as it is by itself, whatever
follows it (`markFrom_append_of_closesLiterals`). So pieces of that kind, their brackets closed and no
separator outside them, are read back from their join (`splitTopLevel_joinWith`).
-/

namespace Recast.Text

/-! ### Trimmed texts -/

theorem trimStart_append_of_blank {u : List Char} (hu : isBlankText u = true) (v : List Char) :
    trimStart (u ++ v) = trimStart v := by
  have hnil : u.dropWhile isBlank = [] := List.dropWhile_eq_nil_iff.2 (List.all_eq_true.1 hu)
  rw [trimStart, List.dropWhile_append, hnil]
  rfl

theorem trimEnd_append_of_blank (u : List Char) {v : List Char} (hv : isBlankText v = true) :
    trimEnd (u ++ v) = trimEnd u := by
  have hblank : isBlankText v.reverse = true := by simpa [isBlankText] using hv
  have htrim := trimStart_append_of_blank hblank u.reverse
  rw [trimEnd, List.reverse_append]
  exact congrArg List.reverse htrim

/-- The text begins with no blank and ends with none. -/
structure IsTight (text : List Char) : Prop where
  first : trimStart text = text
  last : trimEnd text = text

theorem length_trimStart_le (text : List Char) : (trimStart text).length ≤ text.length :=
  (List.dropWhile_sublist isBlank).length_le

theorem length_trimEnd_le (text : List Char) : (trimEnd text).length ≤ text.length := by
  have hle : (text.reverse.dropWhile isBlank).length ≤ text.reverse.length :=
    (List.dropWhile_sublist isBlank).length_le
  rw [List.length_reverse] at hle
  rwa [trimEnd, List.length_reverse]

theorem length_trim_le (text : List Char) : (trim text).length ≤ text.length :=
  (length_trimEnd_le _).trans (length_trimStart_le text)

theorem IsTight.trim_eq {text : List Char} (h : IsTight text) : trim text = text := by
  rw [trim, h.first, h.last]

theorem isTight_of_trim_eq {text : List Char} (h : trim text = text) : IsTight text := by
  have hlen : text.length ≤ (trimStart text).length := by
    have hle := length_trimEnd_le (trimStart text)
    rwa [← trim, h] at hle
  have hfirst : trimStart text = text := (List.dropWhile_sublist isBlank).eq_of_length_le hlen
  refine ⟨hfirst, ?_⟩
  rwa [trim, hfirst] at h

theorem trimStart_append {u : List Char} (h : trimStart u = u) (hne : u ≠ []) (v : List Char) :
    trimStart (u ++ v) = u ++ v := by
  unfold trimStart at *
  rw [List.dropWhile_append, h]
  simp [hne]

theorem trimEnd_append (u : List Char) {v : List Char} (h : trimEnd v = v) (hne : v ≠ []) :
    trimEnd (u ++ v) = u ++ v := by
  have hstart : trimStart v.reverse = v.reverse := List.reverse_injective (by rwa [List.reverse_reverse])
  have happend := trimStart_append hstart (by simpa using hne) u.reverse
  rw [trimEnd, List.reverse_append]
  exact (congrArg List.reverse happend).trans (by simp)

theorem IsTight.append {u v : List Char} (hu : IsTight u) (hv : IsTight v) (hne : u ≠ [])
    (hne' : v ≠ []) (w : List Char) :
    IsTight (u ++ (w ++ v)) where
  first := trimStart_append hu.first hne _
  last := by rw [← List.append_assoc, trimEnd_append _ hv.last hne']

theorem IsTight.trim_append {u text v : List Char} (ht : IsTight text) (hu : isBlankText u = true)
    (hv : isBlankText v = true) : trim (u ++ (text ++ v)) = text := by
  by_cases hne : text = []
  · subst hne
    rw [trim, trimStart_append_of_blank hu]
    have hstart := trimStart_append_of_blank hv []
    rw [List.append_nil] at hstart
    rw [List.nil_append, hstart]
    rfl
  · rw [trim, trimStart_append_of_blank hu, trimStart_append ht.first hne, trimEnd_append_of_blank _ hv,
      ht.last]

theorem exists_trimStart_append (text : List Char) :
    ∃ u, text = u ++ trimStart text ∧ isBlankText u = true :=
  ⟨text.takeWhile isBlank, List.takeWhile_append_dropWhile.symm, List.all_takeWhile⟩

theorem exists_append_trimEnd_of_blank (text : List Char) :
    ∃ v, text = trimEnd text ++ v ∧ isBlankText v = true := by
  obtain ⟨v, hv, hblank⟩ := exists_trimStart_append text.reverse
  refine ⟨v.reverse, ?_, by simpa [isBlankText] using hblank⟩
  have hend := congrArg List.reverse hv
  rwa [List.reverse_reverse, List.reverse_append] at hend

/-- A text is what is left of it and the blanks around that. -/
theorem exists_trim_append (text : List Char) :
    ∃ u v, text = u ++ (trim text ++ v) ∧ isBlankText u = true ∧ isBlankText v = true := by
  obtain ⟨u, hu, hblank⟩ := exists_trimStart_append text
  obtain ⟨v, hv, hblank'⟩ := exists_append_trimEnd_of_blank (trimStart text)
  exact ⟨u, v, hu.trans (congrArg (u ++ ·) hv), hblank, hblank'⟩

theorem trimStart_of_append {u v : List Char} (h : trimStart (u ++ v) = u ++ v) : trimStart u = u := by
  cases u with
  | nil => rfl
  | cons c u =>
    have hc : isBlank c = false := by
      have hhead := List.dropWhile_eq_self_iff.1 h (by simp)
      simpa using hhead
    simp [trimStart, hc]

theorem trimEnd_trimEnd (text : List Char) : trimEnd (trimEnd text) = trimEnd text := by
  rw [trimEnd, trimEnd, List.reverse_reverse]
  exact congrArg List.reverse (List.dropWhile_idempotent isBlank _)

theorem isTight_trim (text : List Char) : IsTight (trim text) where
  first := by
    obtain ⟨v, hv, -⟩ := exists_append_trimEnd_of_blank (trimStart text)
    refine trimStart_of_append (v := v) ?_
    rw [trim, ← hv]
    exact List.dropWhile_idempotent isBlank text
  last := trimEnd_trimEnd _

theorem trim_append_of_blank (u : List Char) {v : List Char} (hv : isBlankText v = true) :
    trim (u ++ v) = trim u := by
  obtain ⟨a, b, hu, ha, hb⟩ := exists_trim_append u
  have hblank : isBlankText (b ++ v) = true := by
    rw [isBlankText, List.all_append]
    exact Bool.and_eq_true_iff.2 ⟨hb, hv⟩
  have htrim := (isTight_trim u).trim_append ha hblank
  rw [← htrim]
  conv_lhs => rw [hu]
  simp only [List.append_assoc]

theorem dropWhile_of_forall {p : Char → Bool} {u : List Char} (h : ∀ c ∈ u, p c = false) :
    u.dropWhile p = u := by
  cases u with
  | nil => rfl
  | cons c u => simp [h c List.mem_cons_self]

theorem dropEndWhile_of_forall {p : Char → Bool} {u : List Char} (h : ∀ c ∈ u, p c = false) :
    dropEndWhile p u = u := by
  have hreverse := dropWhile_of_forall (u := u.reverse) fun c hc => h c (List.mem_reverse.1 hc)
  exact (congrArg List.reverse hreverse).trans (List.reverse_reverse u)

theorem isTight_of_forall {u : List Char} (h : ∀ c ∈ u, isBlank c = false) : IsTight u :=
  ⟨dropWhile_of_forall h, dropEndWhile_of_forall h⟩

/-! ### Names -/

theorem ne_nil_of_isIdentifier {name : List Char} (h : isIdentifier name = true) : name ≠ [] := by
  rintro rfl
  cases h

theorem isIdentChar_of_mem {name : List Char} (h : isIdentifier name = true) {c : Char} (hc : c ∈ name) :
    isIdentChar c = true := by
  cases name with
  | nil => cases hc
  | cons d name =>
    obtain ⟨hd, hname⟩ := Bool.and_eq_true_iff.1 h
    rcases List.mem_cons.1 hc with rfl | hc
    · exact isIdentChar_of_start hd
    · exact List.all_eq_true.1 hname c hc

theorem isBlank_of_isIdentChar {c : Char} (h : isIdentChar c = true) : isBlank c = false := by
  rw [Bool.eq_false_iff]
  intro hblank
  have hrange : c.val.toNat < 33 ∨ 127 < c.val.toNat := by
    simp only [isBlank, Char.toNat, Bool.or_eq_true, Bool.and_eq_true, decide_eq_true_eq, beq_iff_eq] at hblank
    omega
  change (((decide (65 ≤ c.val ∧ c.val ≤ 90) || (decide (97 ≤ c.val) && decide (c.val ≤ 122))) ||
    (decide (48 ≤ c.val) && decide (c.val ≤ 57))) || c == '_' || c == '$') = true at h
  simp only [Bool.or_eq_true, decide_eq_true_eq, Bool.and_eq_true, beq_iff_eq, UInt32.le_iff_toNat_le,
    UInt32.reduceToNat] at h
  rcases h with (h | rfl) | rfl
  · omega
  · cases hblank
  · cases hblank

theorem isIdentChar_of_isBlank {c : Char} (h : isBlank c = true) : isIdentChar c = false := by
  rw [Bool.eq_false_iff]
  intro hname
  rw [isBlank_of_isIdentChar hname] at h
  cases h

theorem isBlankText_of_isIdentifier {name : List Char} (h : isIdentifier name = true) :
    isBlankText name = false := by
  cases name with
  | nil => cases h
  | cons c name =>
    have hc := isBlank_of_isIdentChar (isIdentChar_of_mem h List.mem_cons_self)
    rw [isBlankText, List.all_cons, hc, Bool.false_and]

theorem isBlankText_append_left {u : List Char} (hu : isBlankText u = false) (v : List Char) :
    isBlankText (u ++ v) = false := by
  rw [isBlankText, List.all_append, ← isBlankText, hu, Bool.false_and]

theorem all_isNeutral_of_isIdentifier {name : List Char} (h : isIdentifier name = true) :
    name.all isNeutral = true :=
  List.all_eq_true.2 fun _ hc => isNeutral_of_isIdentChar (isIdentChar_of_mem h hc)

theorem isTight_of_isIdentifier {name : List Char} (h : isIdentifier name = true) : IsTight name :=
  isTight_of_forall fun _ hc => isBlank_of_isIdentChar (isIdentChar_of_mem h hc)

/-! ### Literals that end inside the text -/

/-- An unescaped tick stands in the text. -/
def hasTick : List Char → Bool
  | [] => false
  | '\\' :: [] => false
  | '\\' :: _ :: r => hasTick r
  | '`' :: _ => true
  | _ :: r => hasTick r

/-- The literal or comment that the text after `prev` begins with ends inside it. A quote
behind a name is prose and begins none. -/
def endsInside (prev : Option Char) : List Char → Bool
  | '/' :: '/' :: r => r.contains '\n'
  | '/' :: '*' :: r => contains r "*/".toList
  | '`' :: r => hasTick r
  | c :: r => !(c == '\'' || c == '"') || prev.any isIdentChar || closes c false r
  | [] => true

/-- Every literal and comment of the text after `prev` ends inside it, where `n` characters
of one are still to come. -/
def closesLiteralsFrom : Option Char → Nat → List Char → Bool
  | _, _, [] => true
  | _, n + 1, c :: r => closesLiteralsFrom (some c) n r
  | prev, 0, c :: r =>
    endsInside prev (c :: r) &&
      closesLiteralsFrom (some c) ((literal? prev (c :: r)).elim 0 fun x => x.2 - 1) r

/-- Every literal and comment of the text ends inside it. -/
def closesLiterals (text : List Char) : Bool := closesLiteralsFrom none 0 text

theorem templateLength_append {r : List Char} (h : hasTick r = true) (rest : List Char) :
    templateLength (r ++ rest) = templateLength r := by
  fun_induction hasTick r with
  | case1 | case2 => cases h
  | case3 c r ih => exact congrArg (· + 2) (ih h)
  | case4 => rfl
  | case5 c r hlone hpair htick ih =>
    have hc : c ≠ '\\' := not_backslash hlone hpair
    rw [List.cons_append, templateLength_cons hc htick, templateLength_cons hc htick, ih h]

theorem blockCommentLength_append {r : List Char} (h : contains r "*/".toList = true)
    (rest : List Char) : blockCommentLength (r ++ rest) = blockCommentLength r := by
  fun_induction blockCommentLength r with
  | case1 => cases h
  | case2 => rfl
  | case3 c r hend ih =>
    have hstart : startsWith (c :: r) "*/".toList = false := by
      rw [Bool.eq_false_iff]
      intro hs
      obtain ⟨s, hs⟩ := startsWith_iff.1 hs
      obtain ⟨hc, hs⟩ := List.cons.inj hs
      exact hend s hc.symm hs.symm
    rw [contains_cons, hstart, Bool.false_or] at h
    rw [List.cons_append, blockCommentLength, ih h]
    intro s hc hs
    cases r with
    | nil => cases h
    | cons d r =>
      obtain ⟨rfl, -⟩ := List.cons.inj hs
      exact hend r hc rfl

theorem takeWhile_append_of_mem {r : List Char} (h : '\n' ∈ r) (rest : List Char) :
    (r ++ rest).takeWhile (· != '\n') = r.takeWhile (· != '\n') := by
  induction r with
  | nil => cases h
  | cons c r ih =>
    by_cases hc : c = '\n'
    · simp [hc]
    · have hr := ih ((List.mem_cons.1 h).resolve_left (Ne.symm hc))
      simpa [hc] using hr

/-- The last slash of the text makes no comment with what follows. -/
def KeepsSlash (u rest : List Char) : Prop :=
  u.getLast? = some '/' → rest.head? ≠ some '/' ∧ rest.head? ≠ some '*'

theorem KeepsSlash.right {u v rest : List Char} (h : KeepsSlash (u ++ v) rest) : KeepsSlash v rest := by
  intro hlast
  refine h ?_
  rw [List.getLast?_append, hlast]
  rfl

/-- A literal that ends inside the text, or none, is the same before any further text. -/
theorem literal?_append_of_endsInside {prev : Option Char} {c : Char} {r rest : List Char}
    (h : endsInside prev (c :: r) = true) (hslash : KeepsSlash (c :: r) rest) :
    literal? prev (c :: (r ++ rest)) = literal? prev (c :: r) := by
  by_cases hs : c = '/'
  · subst hs
    cases r with
    | nil => exact literal?_slash_eq_none_iff.2 (hslash rfl)
    | cons d r =>
      by_cases hd : d = '/'
      · subst hd
        have hline : '\n' ∈ r := by simpa [endsInside] using h
        simp only [List.cons_append, literal?, takeWhile_append_of_mem hline]
      by_cases ha : d = '*'
      · subst ha
        have hend : contains r "*/".toList = true := by simpa [endsInside] using h
        simp only [List.cons_append, literal?, blockCommentLength_append hend]
      · have hnone {s : List Char} : literal? prev ('/' :: d :: s) = none :=
          literal?_slash_eq_none_iff.2 ⟨by simpa using hd, by simpa using ha⟩
        rw [List.cons_append, hnone, hnone]
  by_cases ht : c = '`'
  · subst ht
    have htick : hasTick r = true := by simpa [endsInside] using h
    simp only [literal?, templateLength_append htick]
  by_cases hq : c = '\'' ∨ c = '"'
  · rw [literal?_string hq, literal?_string hq]
    split
    · rfl
    · rename_i hprev
      have hclose : closes c false r = true := by
        rcases hq with rfl | rfl <;> simpa [endsInside, hprev] using h
      obtain ⟨n, hn⟩ := Option.isSome_iff_exists.1 ((isSome_stringLength? c r).trans hclose)
      have hrest := stringLength?_take hn (r.drop n ++ rest)
      rw [← List.append_assoc, List.take_append_drop] at hrest
      rw [hrest, hn]
  · rw [literal?_plain hs ht hq, literal?_plain hs ht hq]

theorem closesLiteralsFrom_append (prev : Option Char) (u rest : List Char) :
    closesLiteralsFrom prev u.length (u ++ rest) = closesLiteralsFrom (u.getLast?.or prev) 0 rest := by
  induction u generalizing prev with
  | nil => rfl
  | cons c u ih =>
    have hlast : (c :: u).getLast?.or prev = u.getLast?.or (some c) := by
      cases u <;> simp [List.getLast?_cons]
    rw [List.cons_append, List.length_cons, closesLiteralsFrom, ih, hlast]

theorem closesLiterals_literal {prev : Option Char} {u rest : List Char} {l : Label} (hu : u ≠ [])
    (h : literal? prev (u ++ rest) = some (l, u.length)) :
    closesLiteralsFrom prev 0 (u ++ rest) =
      (endsInside prev (u ++ rest) && closesLiteralsFrom u.getLast? 0 rest) := by
  obtain ⟨c, u, rfl⟩ := List.exists_cons_of_ne_nil hu
  have hlast : u.getLast?.or (some c) = (c :: u).getLast? := by
    cases u <;> simp [List.getLast?_cons]
  rw [List.cons_append, List.length_cons] at h
  rw [List.cons_append, closesLiteralsFrom, h, ← hlast, ← closesLiteralsFrom_append]
  rfl

theorem closesLiterals_code {prev : Option Char} {c : Char} {r : List Char}
    (h : literal? prev (c :: r) = none) :
    closesLiteralsFrom prev 0 (c :: r) = (endsInside prev (c :: r) && closesLiteralsFrom (some c) 0 r) := by
  rw [closesLiteralsFrom, h]
  rfl

theorem getLast?_or_of_literal {u v : List Char} (hu : u ≠ []) (prev : Option Char) :
    (u ++ v).getLast?.or prev = v.getLast?.or u.getLast? := by
  rw [List.getLast?_append, Option.or_assoc, List.getLast?_eq_some_getLast hu]
  rfl

/-- A text in which every literal ends is scanned as if nothing followed it. -/
theorem markFrom_append_of_closesLiterals (prev : Option Char) (text : List Char)
    (h : closesLiteralsFrom prev 0 text = true) {rest : List Char} (hslash : KeepsSlash text rest) :
    markAfter prev (text ++ rest) = markAfter prev text ++ markAfter (text.getLast?.or prev) rest := by
  unfold markAfter
  have hliteral {prev : Option Char} {u v : List Char} {l : Label} (hu : u ≠ [])
      (hl : literal? prev (u ++ v) = some (l, u.length))
      (h : closesLiteralsFrom prev 0 (u ++ v) = true) (hslash : KeepsSlash (u ++ v) rest)
      (ih : closesLiteralsFrom u.getLast? 0 v = true → KeepsSlash v rest →
        markFrom u.getLast? .code 0 (v ++ rest) =
          markFrom u.getLast? .code 0 v ++ markFrom (v.getLast?.or u.getLast?) .code 0 rest) :
      markFrom prev .code 0 (u ++ v ++ rest) =
        markFrom prev .code 0 (u ++ v) ++ markFrom ((u ++ v).getLast?.or prev) .code 0 rest := by
    rw [closesLiterals_literal hu hl, Bool.and_eq_true] at h
    have hlong : literal? prev (u ++ (v ++ rest)) = some (l, u.length) := by
      obtain ⟨c, u, rfl⟩ := List.exists_cons_of_ne_nil hu
      rw [← hl, ← List.append_assoc]
      exact literal?_append_of_endsInside h.1 hslash
    rw [List.append_assoc, mark_literal hu hlong, mark_literal hu hl, ih h.2 hslash.right,
      getLast?_or_of_literal hu, List.append_assoc]
  induction prev, text using scan_induction with
  | nil prev => rfl
  | comment prev u v hu hl ih => exact hliteral hu hl h hslash ih
  | quoted prev u v hu hl ih => exact hliteral hu hl h hslash ih
  | code prev c r hl ih =>
    rw [closesLiterals_code hl, Bool.and_eq_true] at h
    have hlong := (literal?_append_of_endsInside h.1 hslash).trans hl
    have hright : KeepsSlash ([c] ++ r) rest := hslash
    rw [List.cons_append, mark_code hlong, mark_code hl, ih h.2 hright.right]
    cases r <;> simp [List.getLast?_cons]

/-! ### Texts that are scanned by themselves -/

/-- The text is scanned alike by itself and before any text that makes no comment of its
last slash. -/
def ScansAlone (u : List Char) : Prop :=
  ∀ rest, KeepsSlash u rest → mark (u ++ rest) = mark u ++ markAfter u.getLast? rest

theorem scansAlone_of_closesLiterals {u : List Char} (h : closesLiterals u = true) : ScansAlone u := by
  intro rest hslash
  have happend := markFrom_append_of_closesLiterals none u h hslash
  rwa [Option.or_none] at happend

theorem mark_plain {u : List Char} (hu : u.all isPlain = true) (prev : Option Char) (rest : List Char) :
    markAfter prev (u ++ rest) = u.map (·, .code) ++ markAfter (u.getLast?.or prev) rest := by
  unfold markAfter
  induction u generalizing prev with
  | nil => rfl
  | cons c u ih =>
    rw [List.all_cons, Bool.and_eq_true] at hu
    have hlast : (c :: u).getLast?.or prev = u.getLast?.or (some c) := by
      cases u <;> simp [List.getLast?_cons]
    rw [List.cons_append, mark_code (literal?_of_isPlain hu.1 prev _), ih hu.2, hlast]
    rfl

theorem mark_of_plain {u : List Char} (hu : u.all isPlain = true) : mark u = u.map (·, .code) := by
  have hmark := mark_plain hu none []
  rwa [List.append_nil, show markAfter (u.getLast?.or none) [] = [] from rfl, List.append_nil] at hmark

/-- Behind plain text that ends with no name character, a text is scanned as it is by itself. -/
theorem mark_append_of_plain {u : List Char} (hu : u.all isPlain = true)
    (hlast : u.getLast?.any isIdentChar = false) (rest : List Char) :
    mark (u ++ rest) = u.map (·, .code) ++ mark rest := by
  have hmark := mark_plain hu none rest
  rwa [Option.or_none, markAfter_fresh hlast] at hmark

theorem all_isNeutral_of_blank {u : List Char} (h : isBlankText u = true) : u.all isNeutral = true :=
  List.all_eq_true.2 fun c hc => isNeutral_of_isBlank (List.all_eq_true.1 h c hc)

theorem code_mark_of_plain {u : List Char} (hu : u.all isPlain = true) : (mark u).code = u := by
  rw [mark_of_plain hu]
  induction u with
  | nil => rfl
  | cons c u ih => exact congrArg (c :: ·) (ih (Bool.and_eq_true_iff.1 hu).2)

/-- Behind `u` the text `v` is scanned as it is by itself. -/
def Joins (u v : List Char) : Prop :=
  ∀ rest, KeepsSlash (u ++ v) rest → mark (u ++ (v ++ rest)) = mark u ++ mark (v ++ rest)

theorem joins_of_plain {u : List Char} (hu : u.all isPlain = true)
    (hlast : u.getLast?.any isIdentChar = false) (v : List Char) : Joins u v := by
  intro rest _
  rw [mark_append_of_plain hu hlast, mark_of_plain hu]

theorem joins_of_blank {u v : List Char} (hu : ScansAlone u) (hv : isBlankText v = true) (hne : v ≠ []) :
    Joins u v := by
  obtain ⟨c, v, rfl⟩ := List.exists_cons_of_ne_nil hne
  have hc := List.all_eq_true.1 hv c List.mem_cons_self
  have hplain := all_isPlain_of_neutral (all_isNeutral_of_blank hv)
  intro rest _
  have hslash : KeepsSlash u (c :: v ++ rest) := by
    intro _
    constructor <;>
    · rintro hhead
      cases hhead
      cases hc
  have hlast : ((c :: v).getLast?.or u.getLast?) = (c :: v).getLast?.or none := by
    simp [List.getLast?_cons]
  rw [hu _ hslash, mark_plain hplain, hlast, ← mark_plain hplain]
  rfl

theorem Joins.mark_append {u v : List Char} (h : Joins u v) : mark (u ++ v) = mark u ++ mark v := by
  have happend := h [] fun _ => ⟨by simp, by simp⟩
  rwa [List.append_nil] at happend

theorem ScansAlone.append {u v : List Char} (hv : ScansAlone v) (hne : v ≠ []) (h : Joins u v) :
    ScansAlone (u ++ v) := by
  intro rest hslash
  have hlast : (u ++ v).getLast? = v.getLast? := by
    rw [List.getLast?_append, List.getLast?_eq_some_getLast hne]
    rfl
  rw [List.append_assoc, h rest hslash, hv rest hslash.right, h.mark_append, List.append_assoc, hlast]

theorem scansAlone_of_plain {u : List Char} (hu : u.all isPlain = true) : ScansAlone u := by
  intro rest _
  have hmark := mark_plain hu none rest
  rwa [Option.or_none, ← mark_of_plain hu] at hmark

/-! ### Pieces -/

/-- The separator stands in the code where all brackets before it are closed. -/
def TopLevel (sep : Char) (text : List Char) : Prop :=
  ∃ before after : Marked, mark text = before ++ (sep, .code) :: after ∧ nests [] before.code = true

/-- A text without the separator at the top level, which closes its brackets and literals. -/
structure IsPiece (sep : Char) (text : List Char) : Prop where
  balanced : isBalanced text = true
  alone : ScansAlone text
  whole : ¬ TopLevel sep text

theorem IsPiece.append {sep : Char} {u v : List Char} (hu : IsPiece sep u) (hv : IsPiece sep v)
    (hne : v ≠ []) (h : Joins u v) : IsPiece sep (u ++ v) where
  balanced := by
    unfold isBalanced
    rw [h.mark_append, code_append]
    exact Closed.append hu.balanced hv.balanced
  alone := hv.alone.append hne h
  whole := by
    rintro ⟨before, after, hm, hn⟩
    rw [h.mark_append] at hm
    rcases List.append_eq_append_iff.1 hm with ⟨m, rfl, hv'⟩ | ⟨m, hu', hv'⟩
    · refine hv.whole ⟨m, after, hv', ?_⟩
      have hskip : nests ([] ++ []) ((mark u).code ++ Marked.code m) = nests [] (Marked.code m) :=
        nests_append hu.balanced _
      rwa [code_append, ← List.append_nil [], hskip] at hn
    · cases m with
      | nil =>
        rw [List.append_nil] at hu'
        exact hv.whole ⟨[], after, hv'.symm, rfl⟩
      | cons x m =>
        obtain ⟨rfl, -⟩ := List.cons.inj hv'
        exact hu.whole ⟨before, m, hu', hn⟩

theorem isPiece_of_neutral {sep : Char} {u : List Char} (hu : u.all isNeutral = true) (hsep : sep ∉ u) :
    IsPiece sep u where
  balanced := by
    unfold isBalanced
    rw [code_mark_of_plain (all_isPlain_of_neutral hu)]
    exact closed_of_neutral hu
  alone := scansAlone_of_plain (all_isPlain_of_neutral hu)
  whole := by
    rintro ⟨before, after, hm, -⟩
    refine hsep ?_
    rw [← map_fst_mark u, hm]
    simp

theorem IsPiece.append_blank {sep : Char} {u v : List Char} (hu : IsPiece sep u) (hv : isBlankText v = true)
    (hsep : isBlank sep = false) : IsPiece sep (u ++ v) := by
  cases v with
  | nil => rwa [List.append_nil]
  | cons c v =>
    have hneutral := all_isNeutral_of_blank hv
    have hnot : sep ∉ c :: v := by
      intro hmem
      rw [List.all_eq_true.1 hv sep hmem] at hsep
      cases hsep
    exact hu.append (isPiece_of_neutral hneutral hnot) (List.cons_ne_nil c v)
      (joins_of_blank hu.alone hv (List.cons_ne_nil c v))

theorem not_ident_getLast?_of_blank {u : List Char} (hu : isBlankText u = true) :
    u.getLast?.any isIdentChar = false := by
  cases hlast : u.getLast? with
  | none => rfl
  | some c => exact isIdentChar_of_isBlank (List.all_eq_true.1 hu c (List.mem_of_getLast? hlast))

theorem IsPiece.blank_append {sep : Char} {u v : List Char} (hu : isBlankText u = true) (hv : IsPiece sep v)
    (hne : v ≠ []) (hsep : isBlank sep = false) : IsPiece sep (u ++ v) := by
  have hneutral := all_isNeutral_of_blank hu
  refine (isPiece_of_neutral hneutral ?_).append hv hne
    (joins_of_plain (all_isPlain_of_neutral hneutral) (not_ident_getLast?_of_blank hu) v)
  intro hmem
  rw [List.all_eq_true.1 hu sep hmem] at hsep
  cases hsep

theorem code_cons (c : Char) (l : Label) (m : Marked) :
    Marked.code ((c, l) :: m) = if l = .code then c :: m.code else m.code := by
  unfold Marked.code
  by_cases hl : l = .code <;> simp [hl]

theorem rawPieces_of_nests {sep : Char} {st : List Bracket} {m : Marked} (hn : nests st m.code = true)
    (hsep : ∀ before after : Marked, m = before ++ (sep, .code) :: after → ¬ nests st before.code = true)
    {rest : Marked} {p : List Char} {ps : List (List Char)} (hrest : rawPieces sep 0 rest = p :: ps) :
    rawPieces sep st.length (m ++ rest) = (m.map Prod.fst ++ p) :: ps := by
  induction m generalizing st with
  | nil =>
    obtain rfl : st = [] := List.isEmpty_iff.1 hn
    exact hrest
  | cons x m ih =>
    obtain ⟨c, l⟩ := x
    -- A character that opens no piece goes to the first one, at the depth behind it.
    have hnext (st' : List Bracket) (hcode : ∀ u : Marked,
        nests st (Marked.code ((c, l) :: u)) = nests st' u.code) :
        rawPieces sep st'.length (m ++ rest) = (m.map Prod.fst ++ p) :: ps :=
      ih ((hcode m).symm.trans hn) fun before after hm hb =>
        hsep ((c, l) :: before) after (by rw [hm]; rfl) ((hcode before).trans hb)
    by_cases hl : l = .code
    · subst hl
      cases ho : Bracket.ofOpener? c with
      | some b =>
        have hlater := hnext (b :: st) fun u => by rw [code_cons, if_pos rfl, nests, ho]
        rw [List.length_cons, Int.natCast_add, Int.natCast_one] at hlater
        simp [rawPieces, isOpener, ho, hlater]
      | none =>
        cases hc : Bracket.ofCloser? c with
        | some b =>
          rw [code_cons, if_pos rfl, nests, ho, hc] at hn
          cases st with
          | nil => cases hn
          | cons b' st =>
            have hb : (b == b') = true := (Bool.and_eq_true_iff.1 hn).1
            have hlater := hnext st fun u => by
              rw [code_cons, if_pos rfl, nests, ho, hc]
              simp only [hb, Bool.true_and]
            simp [rawPieces, isOpener, isCloser, ho, hc, hlater]
        | none =>
          have hlater := hnext st fun u => by rw [code_cons, if_pos rfl, nests, ho, hc]
          have hdepth : c = sep → st ≠ [] := by
            rintro rfl rfl
            exact hsep [] m rfl rfl
          simpa [rawPieces, isOpener, isCloser, ho, hc, hlater] using hdepth
    · have hlater := hnext st fun u => by rw [code_cons, if_neg hl]
      simp [rawPieces, hl, hlater]

/-- The first raw piece of a text that begins with a piece begins with it. -/
theorem rawPieces_append {sep : Char} {piece : List Char} (hpiece : IsPiece sep piece) {rest : Marked}
    {p : List Char} {ps : List (List Char)} (hrest : rawPieces sep 0 rest = p :: ps) :
    rawPieces sep 0 (mark piece ++ rest) = (piece ++ p) :: ps := by
  have hbalanced : nests [] (mark piece).code = true := hpiece.balanced
  have hraw := rawPieces_of_nests hbalanced
    (fun before after hm hb => hpiece.whole ⟨before, after, hm, hb⟩) hrest
  rwa [map_fst_mark] at hraw

theorem rawPieces_mark_of_isPiece {sep : Char} {piece : List Char} (h : IsPiece sep piece) :
    rawPieces sep 0 (mark piece) = [piece] := by
  have hnil : rawPieces sep 0 [] = [[]] := rfl
  have hraw := rawPieces_append h hnil
  rwa [List.append_nil, List.append_nil] at hraw

theorem length_splitTopLevel_le_of_not_mem {sep : Char} {text : List Char} (h : sep ∉ text) :
    (splitTopLevel sep text).length ≤ 1 := by
  have hmark : ∀ x ∈ mark text, x.1 ≠ sep := by
    rintro x hx rfl
    refine h ?_
    rw [← map_fst_mark text]
    exact List.mem_map_of_mem hx
  rw [← length_rawPieces_of_not_mem hmark 0]
  exact List.length_filter_le _ _

/-- The characters that texts are split at. -/
def separators : List Char := [',', ':', '=']

theorem neutral_of_separator {sep : Char} (h : sep ∈ separators) : isPlain sep = true ∧
    isOpener sep = false ∧ isCloser sep = false ∧ isBlank sep = false ∧ isIdentChar sep = false ∧
      sep ≠ '/' ∧ sep ≠ '*' := by
  simp only [separators, List.mem_cons, List.not_mem_nil, or_false] at h
  rcases h with rfl | rfl | rfl <;> decide

section

variable {sep : Char} (hsep : sep ∈ separators)

include hsep

theorem rawPieces_separator (rest : Marked) :
    rawPieces sep 0 ((sep, .code) :: rest) = [] :: rawPieces sep 0 rest := by
  obtain ⟨-, hopener, hcloser, -⟩ := neutral_of_separator hsep
  simp [rawPieces, hopener, hcloser]

/-- Behind a separator the text is scanned as it is by itself. -/
theorem ScansAlone.mark_separator {u : List Char} (hu : ScansAlone u) (rest : List Char) :
    mark (u ++ sep :: rest) = mark u ++ (sep, .code) :: mark rest := by
  obtain ⟨hplain, -, -, -, hname, hslash, hstar⟩ := neutral_of_separator hsep
  have hfresh : markAfter (some sep) rest = mark rest := markAfter_fresh (by simpa using hname) rest
  rw [hu _ fun _ => ⟨by simpa using hslash, by simpa using hstar⟩, ← hfresh]
  unfold markAfter
  rw [mark_code (literal?_of_isPlain hplain _ _)]

/-- The first raw piece ends at the first separator, if a piece stands before it. -/
theorem rawPieces_mark_append {piece : List Char} (h : IsPiece sep piece) (rest : List Char) :
    rawPieces sep 0 (mark (piece ++ sep :: rest)) = piece :: rawPieces sep 0 (mark rest) := by
  rw [h.alone.mark_separator hsep, rawPieces_append h (rawPieces_separator hsep _), List.append_nil]

/-- Pieces are read back from their join, blank ones left out. -/
theorem splitTopLevel_joinWith {pieces : List (List Char)} (h : ∀ p ∈ pieces, IsPiece sep p) :
    splitTopLevel sep (joinWith [sep] pieces) = pieces.filter (!isBlankText ·) := by
  cases pieces with
  | nil => rfl
  | cons p ps =>
    unfold splitTopLevel
    refine congrArg (List.filter _) ?_
    induction ps generalizing p with
    | nil => exact rawPieces_mark_of_isPiece (h p List.mem_cons_self)
    | cons q ps ih =>
      obtain ⟨hp, hrest⟩ := List.forall_mem_cons.1 h
      rw [joinWith_cons_cons, List.append_assoc, List.singleton_append, rawPieces_mark_append hsep hp,
        ih q hrest]

/-! ### Pieces behind blanks and separators -/

/-- The text consists of blanks and separators. -/
def isVoid (sep : Char) (text : List Char) : Bool := text.all fun c => isBlank c || c == sep

omit hsep in
theorem isVoid_of_blank {u : List Char} (h : isBlankText u = true) : isVoid sep u = true :=
  List.all_eq_true.2 fun c hc => Bool.or_eq_true_iff.2 (.inl (List.all_eq_true.1 h c hc))

theorem isPiece_of_blank {u : List Char} (h : isBlankText u = true) : IsPiece sep u := by
  obtain ⟨-, -, -, hblank, -⟩ := neutral_of_separator hsep
  refine isPiece_of_neutral (all_isNeutral_of_blank h) ?_
  intro hmem
  rw [List.all_eq_true.1 h sep hmem] at hblank
  cases hblank

theorem isPiece_of_isIdentifier {name : List Char} (h : isIdentifier name = true) : IsPiece sep name := by
  obtain ⟨-, -, -, -, hname, -⟩ := neutral_of_separator hsep
  refine isPiece_of_neutral (all_isNeutral_of_isIdentifier h) ?_
  intro hmem
  rw [isIdentChar_of_mem h hmem] at hname
  cases hname

theorem splitTopLevel_append {piece : List Char} (h : IsPiece sep piece) (rest : List Char) :
    splitTopLevel sep (piece ++ sep :: rest) =
      if isBlankText piece then splitTopLevel sep rest else piece :: splitTopLevel sep rest := by
  unfold splitTopLevel
  rw [rawPieces_mark_append hsep h, List.filter_cons]
  cases isBlankText piece <;> rfl

/-- Of blanks and separators before a text only the blanks behind the last one count. -/
theorem exists_blank_of_isVoid {b v : List Char} (hb : isBlankText b = true) (hv : isVoid sep v = true) :
    ∃ b', isBlankText b' = true ∧
      ∀ rest, splitTopLevel sep (b ++ (v ++ rest)) = splitTopLevel sep (b' ++ rest) := by
  induction v generalizing b with
  | nil => exact ⟨b, hb, fun _ => rfl⟩
  | cons c v ih =>
    obtain ⟨hc, hv⟩ := Bool.and_eq_true_iff.1 hv
    by_cases hs : c = sep
    · subst hs
      obtain ⟨b', hb', hsplit⟩ := ih (b := []) rfl hv
      refine ⟨b', hb', ?_⟩
      intro rest
      rw [← hsplit rest, List.cons_append, splitTopLevel_append hsep (isPiece_of_blank hsep hb), if_pos hb]
      rfl
    · have hblank : isBlank c = true := by simpa [hs] using hc
      obtain ⟨b', hb', hsplit⟩ := ih (b := b ++ [c]) (by simpa [isBlankText, hblank] using hb) hv
      refine ⟨b', hb', ?_⟩
      intro rest
      rw [← hsplit rest]
      simp

/-- A text has no piece exactly if it consists of blanks and separators. -/
theorem splitTopLevel_eq_nil_iff {text : List Char} :
    splitTopLevel sep text = [] ↔ isVoid sep text = true := by
  constructor
  · intro hnone
    refine List.all_eq_true.2 ?_
    intro c hc
    have hmem : c ∈ joinWith [sep] (rawPieces sep 0 (mark text)) := by
      rwa [joinWith_rawPieces, map_fst_mark]
    rcases mem_joinWith hmem with hsep | ⟨piece, hp, hc⟩
    · simp [List.mem_singleton.1 hsep]
    · have hpiece : isBlankText piece = true := by
        simpa using List.filter_eq_nil_iff.1 hnone piece hp
      simp [List.all_eq_true.1 hpiece c hc]
  · intro hvoid
    obtain ⟨b, hb, hsplit⟩ := exists_blank_of_isVoid hsep (b := []) rfl hvoid
    have hnil := hsplit []
    rw [List.append_nil, List.append_nil] at hnil
    show splitTopLevel sep ([] ++ text) = []
    rw [hnil]
    unfold splitTopLevel
    rw [rawPieces_mark_of_isPiece (isPiece_of_blank hsep hb)]
    simp [hb]

omit hsep in
theorem exists_joinWith_append {blanks : List (List Char)} (h : ∀ b ∈ blanks, isBlankText b = true)
    (piece : List Char) (pieces : List (List Char)) :
    ∃ start, joinWith [sep] (blanks ++ piece :: pieces) = start ++ joinWith [sep] (piece :: pieces) ∧
      isVoid sep start = true := by
  induction blanks with
  | nil => exact ⟨[], rfl, rfl⟩
  | cons b blanks ih =>
    obtain ⟨hb, hblanks⟩ := List.forall_mem_cons.1 h
    obtain ⟨start, hstart, hvoid⟩ := ih hblanks
    refine ⟨b ++ sep :: start, ?_, ?_⟩
    · obtain ⟨q, qs, hq⟩ := List.exists_cons_of_ne_nil (l := blanks ++ piece :: pieces) (by simp)
      rw [List.cons_append, hq, joinWith_cons_cons, ← hq, hstart]
      simp
    · have hblank : isVoid sep b = true := isVoid_of_blank hb
      unfold isVoid at *
      simp [List.all_append, hblank, hvoid]

omit hsep in
/-- Before the first of several pieces stand blanks and separators, and behind it a separator. -/
theorem exists_append_of_splitTopLevel {text piece next : List Char} {others : List (List Char)}
    (h : splitTopLevel sep text = piece :: next :: others) :
    ∃ start rest, text = start ++ (piece ++ sep :: rest) ∧ isVoid sep start = true := by
  obtain ⟨blanks, later, hraw, hblank, -, hlater⟩ := List.filter_eq_cons_iff.1 h
  cases later with
  | nil => cases hlater
  | cons q qs =>
    obtain ⟨start, hstart, hvoid⟩ : ∃ start, joinWith [sep] (blanks ++ piece :: q :: qs) =
        start ++ joinWith [sep] (piece :: q :: qs) ∧ isVoid sep start = true :=
      exists_joinWith_append (by simpa using hblank) piece (q :: qs)
    refine ⟨start, joinWith [sep] (q :: qs), ?_, hvoid⟩
    rw [← map_fst_mark text, ← joinWith_rawPieces sep 0, hraw, hstart, joinWith_cons_cons,
      List.append_assoc]
    rfl

end

end Recast.Text
