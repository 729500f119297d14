import Recast.Proofs.Artifact.References
import Recast.Proofs.Text.Blanking
import Recast.Proofs.Text.Splitting

/-!
# The grammar of import declarations

A line is read as words, signs and strings. An import declaration binds a default name, or a whole
module, or names in braces; a default name may also stand before one of the other two, but not in a
declaration of types. A whole module and braces never stand in one declaration. Attributes behind
the origin are left out, since no line of an import set has them.

What a declaration binds can be read off its lexemes (`Derives.unique`).
-/

namespace Recast

open Text

inductive Lexeme
  | word (text : List Char)
  | sign (c : Char)
  | string (text : List Char)
  deriving DecidableEq, Repr

namespace Lexeme

/-- A character of a word. Beyond ASCII every character that is no blank may be one. -/
def isWordPart (c : Char) : Bool := isIdentChar c || (127 < c.toNat && !isBlank c)

def isQuote (c : Char) : Bool := c == '\'' || c == '"'

def ofWord (w : List Char) : List Lexeme := if w.isEmpty then [] else [word w]

/-- Length of the string that `c` opens, less its first quote. -/
def stringAfter? (c : Char) (r : List Char) : Option Nat := if isQuote c then stringLength? c r else none

/-- The lexemes of a text, where `w` has been read of a word, or `n` characters of a string are still
to come. A quote without a partner is a sign. -/
def readFrom : (w : List Char) → (n : Nat) → List Char → List Lexeme
  | w, _, [] => ofWord w
  | w, n + 1, _ :: r => readFrom w n r
  | w, 0, c :: r =>
    if isWordPart c then readFrom (w ++ [c]) 0 r
    else if isBlank c then ofWord w ++ readFrom [] 0 r
    else
      match stringAfter? c r with
      | some n => ofWord w ++ string (r.take (n - 1)) :: readFrom [] n r
      | none => ofWord w ++ sign c :: readFrom [] 0 r

def read (text : List Char) : List Lexeme := readFrom [] 0 text

/-- The text is read as the lexemes, and every string of it ends in it. -/
def Reads (text : List Char) (ls : List Lexeme) : Prop :=
  read text = ls ∧ sign '\'' ∉ ls ∧ sign '"' ∉ ls

instance (text : List Char) (ls : List Lexeme) : Decidable (Reads text ls) :=
  inferInstanceAs (Decidable (_ ∧ _ ∧ _))

theorem readFrom_of_edge {w v : List Char} (hw : ∀ c ∈ w, isWordPart c = true)
    (hedge : w.getLast?.any isWordPart = false ∨ v.head?.any isWordPart = false) :
    readFrom w 0 v = ofWord w ++ read v := by
  have hnil : ofWord [] = [] := rfl
  rcases hedge with hlast | hhead
  · have hempty : w = [] := by
      by_contra hne
      rw [List.getLast?_eq_some_getLast hne, Option.any_some, hw _ (List.getLast_mem hne)] at hlast
      cases hlast
    rw [hempty, hnil]
    rfl
  · cases v with
    | nil =>
      rw [readFrom, read, readFrom, hnil, List.append_nil]
    | cons c v =>
      have hc : ¬ isWordPart c = true := by simpa using hhead
      rw [read, readFrom, readFrom, if_neg hc, if_neg hc, hnil]
      split
      · rfl
      · split <;> rfl

theorem stringAfter?_append {c : Char} {r : List Char} {n : Nat} (h : stringAfter? c r = some n)
    (s : List Char) : stringAfter? c (r ++ s) = some n ∧ n ≤ r.length := by
  unfold stringAfter? at h ⊢
  split at h
  · rename_i hc
    rw [if_pos hc]
    have htake := stringLength?_take h (r.drop n ++ s)
    rw [← List.append_assoc, List.take_append_drop] at htake
    obtain ⟨u, rest, rfl, rfl⟩ := FreeNames.stringLength?_split h
    exact ⟨htake, by simp⟩
  · cases h

theorem readFrom_append {w u v : List Char} {n : Nat} (hn : n ≤ u.length) (hstate : n = 0 ∨ w = [])
    (hw : ∀ c ∈ w, isWordPart c = true)
    (hedge : (w ++ u).getLast?.any isWordPart = false ∨ v.head?.any isWordPart = false)
    (hquotes : ∀ c, isQuote c = true → sign c ∉ readFrom w n u) :
    readFrom w n (u ++ v) = readFrom w n u ++ read v := by
  induction u generalizing w n with
  | nil =>
    obtain rfl : n = 0 := Nat.le_zero.1 hn
    rw [List.append_nil] at hedge
    exact readFrom_of_edge hw hedge
  | cons c u ih =>
    -- Behind a lexeme no word has begun.
    have hfresh : ([] ++ u).getLast?.any isWordPart = false ∨ v.head?.any isWordPart = false := by
      refine hedge.imp_left fun hlast => ?_
      cases u with
      | nil => rfl
      | cons d u => simpa [List.getLast?_append, List.getLast?_cons] using hlast
    have hnone : ∀ c ∈ ([] : List Char), isWordPart c = true := fun _ h => by cases h
    cases n with
    | succ n =>
      obtain rfl : w = [] := hstate.resolve_left (Nat.succ_ne_zero n)
      exact ih (Nat.le_of_succ_le_succ hn) (.inr rfl) hnone hfresh hquotes
    | zero =>
      rw [List.cons_append]
      by_cases hc : isWordPart c = true
      · simp only [readFrom, if_pos hc] at hquotes ⊢
        refine ih (Nat.zero_le _) (.inl rfl) ?_ (by simpa using hedge) hquotes
        intro d hd
        rcases List.mem_append.1 hd with hd | hd
        · exact hw d hd
        · exact List.mem_singleton.1 hd ▸ hc
      · by_cases hb : isBlank c = true
        · simp only [readFrom, if_neg hc, if_pos hb] at hquotes ⊢
          rw [ih (Nat.zero_le _) (.inl rfl) hnone hfresh fun d hd h =>
            hquotes d hd (List.mem_append_right _ h), List.append_assoc]
        · cases hs : stringAfter? c u with
          | some k =>
            obtain ⟨hlong, hk⟩ := stringAfter?_append hs v
            have htake : (u ++ v).take (k - 1) = u.take (k - 1) := List.take_append_of_le_length (by omega)
            simp only [readFrom, if_neg hc, if_neg hb, hs, hlong, htake] at hquotes ⊢
            rw [ih hk (.inr rfl) hnone hfresh fun d hd h =>
              hquotes d hd (List.mem_append_right _ (List.mem_cons_of_mem _ h)), List.append_assoc,
              List.cons_append]
          | none =>
            simp only [readFrom, if_neg hc, if_neg hb, hs] at hquotes
            have hquote : ¬ isQuote c = true := fun hq => hquotes c hq (by simp)
            have hlong : stringAfter? c (u ++ v) = none := if_neg hquote
            simp only [readFrom, if_neg hc, if_neg hb, hs, hlong]
            rw [ih (Nat.zero_le _) (.inl rfl) hnone hfresh fun d hd h =>
              hquotes d hd (List.mem_append_right _ (List.mem_cons_of_mem _ h)), List.append_assoc,
              List.cons_append]

/-- Two texts are read one after the other where no string and no word goes on from the first to the
second. -/
theorem Reads.append {u v : List Char} {ls ms : List Lexeme} (hu : Reads u ls) (hv : Reads v ms)
    (hedge : u.getLast?.any isWordPart = false ∨ v.head?.any isWordPart = false) :
    Reads (u ++ v) (ls ++ ms) := by
  obtain ⟨rfl, hsingle, hdouble⟩ := hu
  obtain ⟨rfl, hsingle', hdouble'⟩ := hv
  have hquotes : ∀ c, isQuote c = true → sign c ∉ readFrom [] 0 u := by
    intro c hc
    rw [isQuote, Bool.or_eq_true, beq_iff_eq, beq_iff_eq] at hc
    rcases hc with rfl | rfl
    · exact hsingle
    · exact hdouble
  refine ⟨readFrom_append (Nat.zero_le _) (.inl rfl) (fun _ h => by cases h) hedge hquotes, ?_, ?_⟩
  · exact fun h => (List.mem_append.1 h).elim hsingle hsingle'
  · exact fun h => (List.mem_append.1 h).elim hdouble hdouble'

theorem isWordPart_of_isBlank {c : Char} (h : isBlank c = true) : isWordPart c = false := by
  simp [isWordPart, isIdentChar_of_isBlank h, h]

/-- A text of word characters is one word. -/
theorem read_word {u : List Char} (hne : u ≠ []) (hu : ∀ c ∈ u, isWordPart c = true) : read u = [word u] := by
  have hfrom (w : List Char) : readFrom w 0 u = ofWord (w ++ u) := by
    induction u generalizing w with
    | nil => rw [readFrom, List.append_nil]
    | cons c u ih =>
      obtain ⟨hc, hrest⟩ := List.forall_mem_cons.1 hu
      rw [readFrom, if_pos hc]
      by_cases hnil : u = []
      · subst hnil
        rw [readFrom]
      · rw [ih hnil hrest, List.append_assoc]
        rfl
  rw [read, hfrom, List.nil_append, ofWord, if_neg (by simpa using hne)]

theorem reads_of_blank {u : List Char} (h : isBlankText u = true) : Reads u [] := by
  have hread : read u = [] := by
    unfold read
    induction u with
    | nil => rfl
    | cons c u ih =>
      obtain ⟨hc, hu⟩ := Bool.and_eq_true_iff.1 h
      rw [readFrom, if_neg (by simp [isWordPart_of_isBlank hc]), if_pos hc, ih hu]
      rfl
  exact ⟨hread, by simp, by simp⟩

theorem any_isWordPart_of_blank {u : List Char} (h : isBlankText u = true) :
    u.head?.any isWordPart = false ∧ u.getLast?.any isWordPart = false := by
  have hnone : ∀ o : Option Char, (∀ c ∈ o, c ∈ u) → o.any isWordPart = false := by
    intro o ho
    cases o with
    | none => rfl
    | some c => exact isWordPart_of_isBlank (List.all_eq_true.1 h c (ho c rfl))
  exact ⟨hnone _ fun c => List.mem_of_mem_head?, hnone _ fun c => List.mem_of_mem_getLast?⟩

/-- Blanks around a text are not read. -/
theorem reads_of_trim {text : List Char} {ls : List Lexeme} (h : Reads (trim text) ls) : Reads text ls := by
  obtain ⟨u, v, htext, hu, hv⟩ := exists_trim_append text
  have hpadded := (reads_of_blank hu).append
    (h.append (reads_of_blank hv) (.inr (any_isWordPart_of_blank hv).1)) (.inl (any_isWordPart_of_blank hu).2)
  rwa [← htext, List.nil_append, List.append_nil] at hpadded

/-- Texts with commas between them are read one by one. -/
theorem reads_intercalate {sep : String} (hsep : sep = "," ∨ sep = ", ") {parts : List String}
    {lss : List (List Lexeme)} (h : List.Forall₂ (fun p ls => Reads p.toList ls) parts lss) :
    Reads (String.intercalate sep parts).toList ([sign ','].intercalate lss) := by
  have hcomma : Reads sep.toList [sign ','] ∧ sep.toList.getLast?.any isWordPart = false := by
    rcases hsep with rfl | rfl <;> decide
  have hhead (v : List Char) : (sep.toList ++ v).head?.any isWordPart = false := by
    rcases hsep with rfl | rfl <;> rfl
  rw [String.toList_intercalate]
  induction h with
  | nil => exact (by decide : Reads [] [])
  | @cons p ls ps lss hp hps ih =>
    cases hps with
    | nil =>
      rw [List.map_cons, List.map_nil, List.intercalate_singleton, List.intercalate_singleton]
      exact hp
    | @cons q ms qs mss hq hqs =>
      rw [List.map_cons, List.map_cons, List.intercalate_cons_cons, List.intercalate_cons_cons,
        List.append_assoc, List.append_assoc]
      exact hp.append (hcomma.1.append ih (.inl hcomma.2)) (.inr (hhead _))

/-- What stands in braces for one name: the name itself, or a key and the name that it is bound to. -/
inductive IsSpecifier (isName : List Char → Prop) : List Lexeme → Prop
  | name {n : List Char} (hn : isName n) : IsSpecifier isName [word n]
  | renamed (key : List Char) {n : List Char} (hn : isName n) :
      IsSpecifier isName [word key, word ['a', 's'], word n]
  | quoted (key : List Char) {n : List Char} (hn : isName n) :
      IsSpecifier isName [string key, word ['a', 's'], word n]

/-- Specifiers with commas between them. One more comma may stand at the end. -/
inductive Listed (isName : List Char → Prop) : List String → List Lexeme → Prop
  | nil : Listed isName [] []
  | last {s : String} (hs : IsSpecifier isName (read s.toList)) : Listed isName [s] (read s.toList)
  | cons {s : String} {ss : List String} {ls : List Lexeme} (hs : IsSpecifier isName (read s.toList))
      (hss : Listed isName ss ls) : Listed isName (s :: ss) (read s.toList ++ sign ',' :: ls)

variable {isName : List Char → Prop}

theorem IsSpecifier.sign_notMem {ls : List Lexeme} (h : IsSpecifier isName ls) (c : Char) : sign c ∉ ls := by
  cases h <;> simp

theorem IsSpecifier.reads {s : List Char} (h : IsSpecifier isName (read s)) : Reads s (read s) :=
  ⟨rfl, h.sign_notMem _, h.sign_notMem _⟩

theorem listed_intercalate {names : List String} (h : ∀ s ∈ names, IsSpecifier isName (read s.toList)) :
    Listed isName names ([sign ','].intercalate (names.map fun s => read s.toList)) := by
  induction names with
  | nil => exact .nil
  | cons s ss ih =>
    obtain ⟨hs, hss⟩ := List.forall_mem_cons.1 h
    cases ss with
    | nil =>
      rw [List.map_cons, List.map_nil, List.intercalate_singleton]
      exact .last hs
    | cons t ts =>
      rw [List.map_cons, List.map_cons, List.intercalate_cons_cons, List.append_assoc]
      exact .cons hs (ih hss)

theorem Listed.read_subset {names : List String} {ls : List Lexeme} (h : Listed isName names ls) {s : String}
    (hs : s ∈ names) : read s.toList ⊆ ls := by
  induction h with
  | nil => cases hs
  | last _ => exact List.mem_singleton.1 hs ▸ List.Subset.refl _
  | cons _ _ ih =>
    rcases List.mem_cons.1 hs with rfl | hs
    · exact List.subset_append_left _ _
    · exact List.Subset.trans (ih hs) fun l hl => by simp [hl]

theorem Listed.eq_comma {names : List String} {ls : List Lexeme} (h : Listed isName names ls) {c : Char}
    (hc : sign c ∈ ls) : c = ',' := by
  induction h with
  | nil => cases hc
  | last hs => exact absurd hc (hs.sign_notMem c)
  | cons hs _ ih =>
    rcases List.mem_append.1 hc with hc | hc
    · exact absurd hc (hs.sign_notMem c)
    · cases hc with
      | head => rfl
      | tail _ hc => exact ih hc

/-- The specifiers of a list are what stands between its commas. -/
theorem Listed.mem_splitOn_iff {names : List String} {ls l : List Lexeme} (h : Listed isName names ls)
    (hl : l ≠ []) : l ∈ ls.splitOn (sign ',') ↔ ∃ s ∈ names, read s.toList = l := by
  induction h with
  | nil => simp [hl]
  | last hs =>
    rw [List.splitOn_eq_singleton (hs.sign_notMem ',')]
    simp [eq_comm]
  | cons hs _ ih =>
    rw [List.splitOn_append_cons_self_of_not_mem (hs.sign_notMem ','), List.mem_cons, ih]
    simp [eq_comm]

theorem Listed.isSpecifier {names : List String} {ls : List Lexeme} (h : Listed isName names ls) {s : String}
    (hs : s ∈ names) : IsSpecifier isName (read s.toList) := by
  induction h with
  | nil => cases hs
  | last hlast => exact List.mem_singleton.1 hs ▸ hlast
  | cons hfirst _ ih => exact (List.mem_cons.1 hs).elim (fun he => he ▸ hfirst) ih

theorem IsSpecifier.ne_nil {ls : List Lexeme} (h : IsSpecifier isName ls) : ls ≠ [] := by
  cases h <;> exact List.cons_ne_nil _ _

end Lexeme

namespace ImportStatement

open Lexeme

def keyword (s : String) : Lexeme := word s.toList

/-- `import`, and `type` where types are declared. -/
def opening (typeOnly : Bool) : List Lexeme :=
  keyword "import" :: if typeOnly then [keyword "type"] else []

def source (origin : String) : List Lexeme := [keyword "from", string origin.toList, sign ';']

def moduleClause (name : String) : List Lexeme := [sign '*', keyword "as", word name.toList]

def braces (ls : List Lexeme) : List Lexeme := sign '{' :: (ls ++ [sign '}'])

/-- The import declarations, each with what it declares. -/
inductive Derives (isName : List Char → Prop) : ImportStatement → List Lexeme → Prop
  | effect (o : String) : Derives isName (.effect o) [keyword "import", string o.toList, sign ';']
  | default (t : Bool) (o : String) {n : String} (hn : isName n.toList) :
      Derives isName { origin := o, typeOnly := t, default? := some n }
        (opening t ++ word n.toList :: source o)
  | wholeModule (t : Bool) (o : String) {m : String} (hm : isName m.toList) :
      Derives isName { origin := o, typeOnly := t, module? := some m }
        (opening t ++ moduleClause m ++ source o)
  | named (t : Bool) (o : String) {ns : List String} {ls : List Lexeme} (h : Listed isName ns ls) :
      Derives isName { origin := o, typeOnly := t, named? := some ns }
        (opening t ++ braces ls ++ source o)
  | defaultModule (o : String) {n m : String} (hn : isName n.toList) (hm : isName m.toList) :
      Derives isName { origin := o, default? := some n, module? := some m }
        (opening false ++ word n.toList :: sign ',' :: moduleClause m ++ source o)
  | defaultNamed (o : String) {n : String} {ns : List String} {ls : List Lexeme} (hn : isName n.toList)
      (h : Listed isName ns ls) :
      Derives isName { origin := o, default? := some n, named? := some ns }
        (opening false ++ word n.toList :: sign ',' :: braces ls ++ source o)

def IsBindingName (isName : List Char → Prop) (name : String) : Prop :=
  read name.toList = [word name.toList] ∧ isName name.toList

/-- The text between quotes, where it has none itself. -/
def IsOrigin (origin : String) : Prop := read ("'" ++ origin ++ "'").toList = [string origin.toList]

/-- The line is an import declaration that declares the statement. -/
def DeclaredBy (isName : List Char → Prop) (line : String) (i : ImportStatement) : Prop :=
  Derives isName i (read line.toList)

/-- Whether types are imported, the default name and the name of the module; none of them where the
origin is imported for its effect. -/
def heading (i : ImportStatement) : Option (Bool × Option (List Char) × Option (List Char)) :=
  if i.clause.isEmpty then none
  else some (i.typeOnly, i.default?.map String.toList, i.module?.map String.toList)

/-- Whether values or types are declared. An import for its effect declares neither. -/
def sort (i : ImportStatement) : Option Bool := i.heading.map Prod.fst

/-- The heading, read off what stands behind `import`. -/
def headingOf : List Lexeme → Option (Bool × Option (List Char) × Option (List Char))
  | sign '*' :: _ :: word m :: _ => some (false, none, some m)
  | sign _ :: _ => some (false, none, none)
  | word n :: sign ',' :: sign '*' :: _ :: word m :: _ => some (false, some n, some m)
  | word n :: sign ',' :: _ => some (false, some n, none)
  | word _ :: sign '*' :: _ :: word m :: _ => some (true, none, some m)
  | word _ :: sign _ :: _ => some (true, none, none)
  | word _ :: word n :: word _ :: _ => some (true, some n, none)
  | word n :: _ => some (false, some n, none)
  | _ => none

variable {isName : List Char → Prop} {i j : ImportStatement} {ls : List Lexeme}

theorem heading_eq_of_clause (h : i.clause ≠ []) :
    i.heading = some (i.typeOnly, i.default?.map String.toList, i.module?.map String.toList) :=
  if_neg (by simpa using h)

/-- The heading tells the names that are not in braces. -/
theorem eq_of_heading_eq (h : i.heading = j.heading) (hclause : i.clause ≠ []) :
    j.clause ≠ [] ∧ i.typeOnly = j.typeOnly ∧ i.default? = j.default? ∧ i.module? = j.module? := by
  rw [heading_eq_of_clause hclause] at h
  have hj : j.clause ≠ [] := by
    intro hnil
    rw [heading, hnil] at h
    cases h
  have hinj : Function.Injective (Option.map String.toList) := Option.map_injective fun _ _ => String.toList_inj.1
  simp only [heading_eq_of_clause hj, Option.some.injEq, Prod.mk.injEq] at h
  exact ⟨hj, h.1, hinj h.2.1, hinj h.2.2⟩

theorem Derives.heading_eq (h : Derives isName i ls) : i.heading = headingOf ls.tail := by
  cases h with
  | effect o => rfl
  | default t o hn => cases t <;> rfl
  | wholeModule t o hm => cases t <;> rfl
  | named t o h => cases t <;> rfl
  | defaultModule o hn hm => rfl
  | defaultNamed o hn h => rfl

theorem Derives.exists_append (h : Derives isName i ls) :
    ∃ before, ls = before ++ [string i.origin.toList, sign ';'] := by
  have hsource (before : List Lexeme) (o : String) :
      ∃ b, before ++ source o = b ++ [string o.toList, sign ';'] :=
    ⟨before ++ [keyword "from"], by rw [List.append_assoc]; rfl⟩
  cases h with
  | effect o => exact ⟨[keyword "import"], rfl⟩
  | default t o hn =>
    rw [List.append_cons]
    exact hsource _ o
  | wholeModule t o hm => exact hsource _ o
  | named t o h => exact hsource _ o
  | defaultModule o hn hm => exact hsource _ o
  | defaultNamed o hn h => exact hsource _ o

/-- A line declares of one origin, and one heading. -/
theorem Derives.unique (hi : Derives isName i ls) (hj : Derives isName j ls) :
    i.origin = j.origin ∧ i.heading = j.heading := by
  obtain ⟨before, hbefore⟩ := hi.exists_append
  obtain ⟨before', hbefore'⟩ := hj.exists_append
  refine ⟨?_, hi.heading_eq.trans hj.heading_eq.symm⟩
  have hends := (List.append_inj' (hbefore.symm.trans hbefore') rfl).2
  simp only [List.cons.injEq, string.injEq] at hends
  exact String.toList_inj.1 hends.1

theorem Derives.read_subset (h : Derives isName i ls) {s : String} (hs : s ∈ i.named?.getD []) :
    read s.toList ⊆ ls := by
  cases h with
  | named t o h =>
    exact List.Subset.trans (h.read_subset hs) fun l hl => by simp [braces, hl]
  | defaultNamed o hn h =>
    exact List.Subset.trans (h.read_subset hs) fun l hl => by simp [braces, hl]
  | _ => cases hs

/-- The whole module and braces are not declared together. -/
theorem Derives.brace_notMem (h : Derives isName i ls) (hstar : sign '*' ∈ ls) : sign '{' ∉ ls := by
  have hlisted {names : List String} {ls : List Lexeme} (h : Listed isName names ls) : sign '*' ∉ ls :=
    fun hmem => absurd (h.eq_comma hmem) (by decide)
  cases h with
  | effect o => simp [keyword]
  | default t o hn => cases t <;> simp [opening, source, keyword]
  | wholeModule t o hm => cases t <;> simp [opening, source, keyword, moduleClause]
  | named t o h => cases t <;> simp [opening, source, keyword, braces, hlisted h] at hstar
  | defaultModule o hn hm => simp [opening, source, keyword, moduleClause]
  | defaultNamed o hn h => simp [opening, source, keyword, braces, hlisted h] at hstar

/-- What stands in front of the braces. -/
def headLexemes (n? : Option String) : List Lexeme :=
  keyword "import" :: (n?.map fun n => [word n.toList, sign ',']).getD []

/-- What an import with names in braces declares. -/
theorem derives_braces_iff {n? : Option String} (hn : ∀ n ∈ n?, isName n.toList) {o : String} :
    Derives isName i (headLexemes n? ++ (braces ls ++ source o)) ↔
      i.origin = o ∧ i.typeOnly = false ∧ i.default? = n? ∧ i.module? = none ∧
        ∃ ns, i.named? = some ns ∧ Listed isName ns ls := by
  constructor
  · intro h
    have hsame {ls' : List Lexeme} {o' : String}
        (hL : ls ++ [sign '}'] ++ source o = ls' ++ [sign '}'] ++ source o') : o' = o ∧ ls' = ls := by
      obtain ⟨hbody, hsource⟩ := List.append_inj' hL rfl
      refine ⟨?_, (List.append_cancel_right hbody).symm⟩
      simp only [source, List.cons.injEq, string.injEq, true_and, and_true] at hsource
      exact (String.toList_inj.1 hsource).symm
    generalize hL : headLexemes n? ++ (braces ls ++ source o) = L at h
    cases n? with
    | none =>
      cases h with
      | effect o => cases hL
      | default t o hn => cases t <;> cases hL
      | wholeModule t o hm => cases t <;> cases hL
      | named t o h =>
        cases t with
        | true => cases hL
        | false =>
          obtain ⟨rfl, rfl⟩ := hsame (List.cons.inj (List.cons.inj hL).2).2
          exact ⟨rfl, rfl, rfl, rfl, _, rfl, h⟩
      | defaultModule o hn hm => cases hL
      | defaultNamed o hn h => cases hL
    | some n =>
      have hrest {k : Lexeme} {rest : List Lexeme} (hL : headLexemes (some n) ++ (braces ls ++ source o) =
          keyword "import" :: k :: rest) : k = word n.toList ∧ rest = sign ',' :: (braces ls ++ source o) := by
        obtain ⟨hk, hrest⟩ := List.cons.inj (List.cons.inj hL).2
        exact ⟨hk.symm, hrest.symm⟩
      cases h with
      | effect o => cases (hrest hL).1
      | default t o hn =>
        cases t with
        | true => cases (List.cons.inj (hrest hL).2).1
        | false => cases (List.cons.inj (hrest hL).2).1
      | wholeModule t o hm =>
        cases t with
        | true => cases (List.cons.inj (hrest hL).2).1
        | false => cases (hrest hL).1
      | named t o h =>
        cases t with
        | true => cases (List.cons.inj (hrest hL).2).1
        | false => cases (hrest hL).1
      | defaultModule o hn hm => cases (List.cons.inj (List.cons.inj (hrest hL).2).2).1
      | defaultNamed o hn h =>
        obtain ⟨hk, hL⟩ := hrest hL
        obtain ⟨rfl, rfl⟩ := hsame (List.cons.inj (List.cons.inj hL).2).2.symm
        obtain rfl := String.toList_inj.1 (word.inj hk)
        exact ⟨rfl, rfl, rfl, rfl, _, rfl, h⟩
  · obtain ⟨o, t, m?, k?, ns?⟩ := i
    rintro ⟨rfl, rfl, rfl, rfl, ns, rfl, hlisted⟩
    cases m? with
    | none => exact .named false o hlisted
    | some n => exact .defaultNamed o (hn n rfl) hlisted
theorem IsOrigin.reads {o : String} (h : IsOrigin o) :
    Reads (("'" ++ o ++ "'").toList ++ [';']) [string o.toList, sign ';'] :=
  have hquoted : Reads ("'" ++ o ++ "'").toList [string o.toList] := ⟨h, by simp, by simp⟩
  hquoted.append (by decide : Reads [';'] [sign ';']) (.inr (by decide))

theorem IsOrigin.declaredBy_effect {o : String} (h : IsOrigin o) :
    DeclaredBy isName (effect o).text (.effect o) := by
  have himport : Reads "import ".toList [keyword "import"] := by decide
  have htext : (effect o).text.toList = "import ".toList ++ (("'" ++ o ++ "'").toList ++ [';']) := by
    simp [text, effect, clause]
  rw [DeclaredBy, htext, (himport.append h.reads (.inl (by decide))).1]
  exact .effect o

/-- The statement is read part by part. -/
theorem reads_text {lss : List (List Lexeme)} (hclause : i.clause ≠ []) (horigin : IsOrigin i.origin)
    (hparts : List.Forall₂ (fun p ls => Reads p.toList ls) i.clause lss) :
    Reads i.text.toList (opening i.typeOnly ++ [sign ','].intercalate lss ++ source i.origin) := by
  have hopening : Reads (if i.typeOnly then "import type " else "import ").toList (opening i.typeOnly) := by
    cases i.typeOnly <;> decide
  have hlast : (if i.typeOnly then "import type " else "import ").toList.getLast?.any isWordPart = false := by
    cases i.typeOnly <;> decide
  have hfrom : Reads " from ".toList [keyword "from"] := by decide
  have hsource : Reads (" from ".toList ++ (("'" ++ i.origin ++ "'").toList ++ [';'])) (source i.origin) :=
    hfrom.append horigin.reads (.inl (by decide))
  have htext : i.text.toList = (if i.typeOnly then "import type " else "import ").toList ++
      ((String.intercalate ", " i.clause).toList ++
        (" from ".toList ++ (("'" ++ i.origin ++ "'").toList ++ [';']))) := by
    unfold text
    dsimp only
    rw [if_neg (by simpa using hclause)]
    simp
  rw [htext, List.append_assoc]
  exact hopening.append ((reads_intercalate (.inr rfl) hparts).append hsource (.inr rfl)) (.inl hlast)

theorem IsBindingName.reads {name : String} (h : IsBindingName isName name) :
    Reads name.toList [word name.toList] := ⟨h.1, by simp, by simp⟩

theorem reads_moduleClause {m : String} (hm : IsBindingName isName m) :
    Reads ("* as " ++ m).toList (moduleClause m) := by
  have hstar : Reads "* as ".toList [sign '*', keyword "as"] := by decide
  rw [String.toList_append]
  exact hstar.append hm.reads (.inl (by decide))

theorem reads_braced {names : List String} (h : ∀ s ∈ names, IsSpecifier isName (read s.toList)) :
    Reads (Str.braced (" " ++ String.intercalate ", " names ++ " ")).toList
      (braces ([sign ','].intercalate (names.map fun s => read s.toList))) := by
  have hnames : List.Forall₂ (fun p ls => Reads p.toList ls) names (names.map fun s => read s.toList) :=
    List.forall₂_map_right_iff.2 (List.forall₂_same.2 fun s hs => (h s hs).reads)
  have hopen : Reads ['{', ' '] [sign '{'] := by decide
  have hclose : Reads [' ', '}'] [sign '}'] := by decide
  have htext : (Str.braced (" " ++ String.intercalate ", " names ++ " ")).toList =
      ['{', ' '] ++ ((String.intercalate ", " names).toList ++ [' ', '}']) := by
    simp [Str.braced]
  rw [htext]
  exact hopen.append ((reads_intercalate (.inr rfl) hnames).append hclose (.inr rfl)) (.inl (by decide))

end ImportStatement

namespace ImportEntry

open Lexeme ImportStatement

/-- Every part of the entry is read as what it stands for in the grammar. -/
structure WellFormed (isName : List Char → Prop) (e : ImportEntry) : Prop where
  origin : IsOrigin e.origin
  default : ∀ n, e.default? = some n → IsBindingName isName n
  module : ∀ m, e.module? = some m → IsBindingName isName m
  named : ∀ s ∈ e.named, IsSpecifier isName (read s.toList)
  types : e.typeOnly = true → e.default? = none ∧ e.module? = none

variable {isName : List Char → Prop} {e : ImportEntry}

/-- The lexemes of what the entry binds. -/
def clauseLexemes (e : ImportEntry) : List (List Lexeme) :=
  (e.default?.map fun n => [word n.toList]).toList ++ (e.module?.map moduleClause).toList ++
    if e.named.isEmpty then [] else [braces ([sign ','].intercalate (e.named.map fun s => read s.toList))]

def lexemes (e : ImportEntry) : List Lexeme :=
  opening e.typeOnly ++ [sign ','].intercalate e.clauseLexemes ++ source e.origin

theorem WellFormed.reads (h : e.WellFormed isName) (hclause : ImportSet.clause e ≠ []) :
    Reads (ofEntry e).text.toList e.lexemes := by
  have hdefault : List.Forall₂ (fun p ls => Reads p.toList ls) e.default?.toList
      (e.default?.map fun n => [word n.toList]).toList := by
    cases hn : e.default? with
    | none => exact .nil
    | some n => exact .cons (h.default n hn).reads .nil
  have hmodule : List.Forall₂ (fun p ls => Reads p.toList ls) (e.module?.map ("* as " ++ ·)).toList
      (e.module?.map moduleClause).toList := by
    cases hm : e.module? with
    | none => exact .nil
    | some m => exact .cons (reads_moduleClause (h.module m hm)) .nil
  refine reads_text (by rwa [clause_ofEntry]) h.origin ?_
  rw [clause_ofEntry]
  refine List.rel_append (List.rel_append hdefault hmodule) ?_
  split
  · exact .nil
  · exact .cons (reads_braced h.named) .nil

/-- An entry that does not bind both the whole module and names in braces declares what it holds. -/
theorem WellFormed.declaredBy (h : e.WellFormed isName) (hclause : ImportSet.clause e ≠ [])
    (happart : e.module? = none ∨ e.named = []) : DeclaredBy isName (ofEntry e).text (ofEntry e) := by
  have hlisted := listed_intercalate h.named
  rw [DeclaredBy, (h.reads hclause).1]
  obtain ⟨o, t, n?, m?, names⟩ := e
  -- A declaration of types has no default name and no module.
  have hvalues {name : String} (hname : n? = some name ∨ m? = some name) : t = false := by
    cases t with
    | false => rfl
    | true => rcases hname with rfl | rfl <;> simpa using h.types rfl
  cases n? with
  | none =>
    cases m? with
    | none =>
      cases names with
      | nil => exact absurd rfl hclause
      | cons s ss =>
        change Derives isName _ (opening t ++ [sign ','].intercalate [braces _] ++ source o)
        rw [List.intercalate_singleton]
        exact .named t o hlisted
    | some m =>
      obtain rfl : names = [] := happart.resolve_left (by simp)
      exact .wholeModule t o (h.module m rfl).2
  | some n =>
    obtain rfl := hvalues (.inl rfl)
    have hn := (h.default n rfl).2
    cases m? with
    | none =>
      cases names with
      | nil => exact .default false o hn
      | cons s ss =>
        change Derives isName _ (opening false ++ [sign ','].intercalate [[word n.toList], braces _] ++ source o)
        rw [List.intercalate_cons_cons, List.intercalate_singleton]
        exact .defaultNamed o hn hlisted
    | some m =>
      obtain rfl : names = [] := happart.resolve_left (by simp)
      exact .defaultModule o hn (h.module m rfl).2

/-- No declaration binds both the whole module and names in braces. -/
theorem WellFormed.not_declaredBy (h : e.WellFormed isName) {m : String} (hmodule : e.module? = some m)
    (hnamed : e.named ≠ []) (i : ImportStatement) : ¬ DeclaredBy isName (ofEntry e).text i := by
  intro hi
  have hclause : ImportSet.clause e ≠ [] := by simp [ImportSet.clause, hnamed]
  rw [DeclaredBy, (h.reads hclause).1] at hi
  refine hi.brace_notMem ?_ ?_
  · cases hdefault : e.default? <;> simp [lexemes, clauseLexemes, hmodule, hnamed, hdefault, moduleClause]
  · cases hdefault : e.default? <;> simp [lexemes, clauseLexemes, hmodule, hnamed, hdefault, braces]

end ImportEntry

end Recast
