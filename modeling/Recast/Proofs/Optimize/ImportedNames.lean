import Recast.Proofs.Artifact.ImportGrammar
import Recast.Proofs.Optimize.ImportLine
import Recast.Proofs.Text.InkLines

/-!
# The names of the framework import

What the completed import declares: the new name, and of the import that was there before its default
name and every name in its braces. Main statement: `ensure_completes`.
-/

namespace Recast

open Text

/-- One of the specifiers in the braces is read as `ls`. -/
def ImportStatement.Specifies (i : ImportStatement) (ls : List Lexeme) : Prop :=
  ∃ s ∈ i.named?.getD [], Lexeme.read s.toList = ls

namespace ReactImport

open Lexeme ImportStatement Pattern

def defaultName? (default : List Char) : Option String := if default.isEmpty then none else some "React"

variable {isName : List Char → Prop} {content before default clause after : List Char}
  {names : List (List Char)} {i : ImportStatement} {ls : List Lexeme}

/-! ### The lexemes of the line -/

theorem reads_namedLine (hdefault : IsDefault default) (h : Reads clause ls) :
    Reads (namedLine default clause) (headLexemes (defaultName? default) ++ (braces ls ++ source "react")) := by
  have hopening : Reads (opening default) (headLexemes (defaultName? default) ++ [sign '{']) ∧
      (opening default).getLast?.any isWordPart = false := by
    rcases hdefault with rfl | rfl <;> decide
  have hclosing : Reads closing (sign '}' :: source "react") := by decide
  have hline := hopening.1.append (h.append hclosing (.inr rfl)) (.inl hopening.2)
  have hbraces : braces ls ++ source "react" = [sign '{'] ++ (ls ++ sign '}' :: source "react") := by
    simp [braces]
  rwa [List.append_assoc, ← hbraces] at hline

/-- Texts with commas between them are read one by one. -/
theorem reads_joinWith {sep : String} (hsep : sep = "," ∨ sep = ", ") {pieces : List (List Char)}
    (h : ∀ p ∈ pieces, Reads p (read p)) :
    Reads (joinWith sep.toList pieces) ([sign ','].intercalate (pieces.map read)) := by
  have hpieces : List.Forall₂ (fun (p : String) ls => Reads p.toList ls) (pieces.map .ofList) (pieces.map read) := by
    rw [List.forall₂_map_left_iff, List.forall₂_map_right_iff, List.forall₂_same]
    intro p hp
    rw [String.toList_ofList]
    exact h p hp
  have htexts : (pieces.map String.ofList).map String.toList = pieces := by simp
  have hlist := reads_intercalate hsep hpieces
  rwa [String.toList_intercalate, htexts, ← joinWith_eq_intercalate] at hlist

/-- What a line declares that lists names. -/
theorem declaredBy_namedLine_iff (hdefault : IsDefault default) (hreact : isName "React".toList) (hclause : Reads clause ls) :
    DeclaredBy isName (.ofList (namedLine default clause)) i ↔
      i.origin = "react" ∧ i.typeOnly = false ∧ i.default? = defaultName? default ∧ i.module? = none ∧
        ∃ ns, i.named? = some ns ∧ Listed isName ns ls := by
  have hn : ∀ n ∈ defaultName? default, isName n.toList := by
    intro n hn
    obtain ⟨-, ⟨⟩⟩ := Option.ite_none_left_eq_some.1 hn
    exact hreact
  rw [DeclaredBy, String.toList_ofList, (reads_namedLine hdefault hclause).1]
  exact derives_braces_iff hn

section

variable (h : ∀ n ∈ entries clause, IsSpecifier isName (read n))

include h

/-- What stands between two commas is a specifier with blanks around it, or blank. -/
theorem reads_piece {p : List Char} (hp : p ∈ splitOn ',' clause) :
    Reads p (read p) ∧ (read p = [] ∨ ∃ n ∈ entries clause, read n = read p) := by
  by_cases htrim : trim p = []
  · have hblank := reads_of_blank (trim_eq_nil_iff.1 htrim)
    rw [hblank.1]
    exact ⟨hblank, .inl rfl⟩
  · have hmem : trim p ∈ entries clause :=
      List.mem_filter.2 ⟨List.mem_map_of_mem hp, by simpa using htrim⟩
    have hreads := reads_of_trim (h _ hmem).reads
    rw [hreads.1]
    exact ⟨hreads, .inr ⟨_, hmem, rfl⟩⟩

theorem reads_clause : Reads clause ([sign ','].intercalate ((splitOn ',' clause).map read)) := by
  have hjoin : joinWith ",".toList (splitOn ',' clause) = clause := by
    rw [joinWith_eq_intercalate, splitOn, splitWhen_eq_splitOnP]
    exact List.intercalate_splitOn ','
  have hpieces := reads_joinWith (.inl rfl) fun p hp => (reads_piece h hp).1
  rwa [hjoin] at hpieces

theorem mem_splitOn_clause (hls : ls ≠ []) :
    ls ∈ ([sign ','].intercalate ((splitOn ',' clause).map read)).splitOn (sign ',') ↔
      ∃ n ∈ entries clause, read n = ls := by
  have hcomma : ∀ l ∈ (splitOn ',' clause).map read, sign ',' ∉ l := by
    intro l hl
    obtain ⟨p, hp, rfl⟩ := List.mem_map.1 hl
    rcases (reads_piece h hp).2 with hnil | ⟨n, hn, hread⟩
    · rw [hnil]
      exact List.not_mem_nil
    · rw [← hread]
      exact (h n hn).sign_notMem ','
  rw [List.splitOn_intercalate _ hcomma (by simpa using splitOn_ne_nil ',' clause), List.mem_map]
  constructor
  · rintro ⟨p, hp, rfl⟩
    exact (reads_piece h hp).2.resolve_left hls
  · rintro ⟨n, hn, rfl⟩
    obtain ⟨p, hp, rfl⟩ := List.mem_map.1 (List.mem_filter.1 hn).1
    exact ⟨p, hp, (reads_of_trim (h _ hn).reads).1⟩

/-- A line declares the specifiers between its commas and no others. -/
theorem specifies_iff (hdefault : IsDefault default) (hreact : isName "React".toList)
    (hi : DeclaredBy isName (.ofList (namedLine default clause)) i) :
    i.Specifies ls ↔ ∃ n ∈ entries clause, read n = ls := by
  obtain ⟨-, -, -, -, ns, hns, hlisted⟩ := (declaredBy_namedLine_iff hdefault hreact (reads_clause h)).1 hi
  have hnamed : i.Specifies ls ↔ ∃ s ∈ ns, read s.toList = ls := by
    rw [Specifies, hns]
    rfl
  by_cases hls : ls = []
  · subst hls
    rw [hnamed]
    refine iff_of_false ?_ ?_
    · rintro ⟨s, hs, hread⟩
      exact (hlisted.isSpecifier hs).ne_nil hread
    · rintro ⟨n, hn, hread⟩
      exact (h n hn).ne_nil hread
  · rw [hnamed, ← hlisted.mem_splitOn_iff hls, mem_splitOn_clause h hls]

end

/-- The specifiers of a list, with a comma and a space between them, make a declaration. -/
theorem exists_declaredBy (hdefault : IsDefault default) (hreact : isName "React".toList)
    (h : ∀ n ∈ names, IsSpecifier isName (read n)) :
    ∃ j, DeclaredBy isName (.ofList (namedLine default (joinWith ", ".toList names))) j ∧ j.origin = "react" ∧
      j.typeOnly = false ∧ j.default? = defaultName? default ∧
      ∀ ls, j.Specifies ls ↔ ∃ n ∈ names, read n = ls := by
  have hread : ∀ s ∈ names.map String.ofList, IsSpecifier isName (read s.toList) := by
    intro s hs
    obtain ⟨n, hn, rfl⟩ := List.mem_map.1 hs
    rw [String.toList_ofList]
    exact h n hn
  have hlisted := listed_intercalate hread
  rw [List.map_map, show (fun s : String => read s.toList) ∘ String.ofList = read by
    funext n
    simp] at hlisted
  refine ⟨{ origin := "react", default? := defaultName? default, named? := some (names.map .ofList) }, ?_, rfl, rfl,
    rfl, fun ls => ?_⟩
  · exact (declaredBy_namedLine_iff hdefault hreact (reads_joinWith (.inr rfl) fun n hn => (h n hn).reads)).2
      ⟨rfl, rfl, rfl, rfl, _, rfl, hlisted⟩
  · simp [Specifies]

/-! ### The import in its text -/

/-- Outside literals and comments the text imports values of the framework, as the property says. -/
def Imports (isName : List Char → Prop) (content : List Char) (P : ImportStatement → Prop) : Prop :=
  ∃ before line after i, LineAt content before line after ∧ ScansAlone before ∧
    DeclaredBy isName (.ofList line) i ∧ i.origin = "react" ∧ i.typeOnly = false ∧ P i

theorem brace_mem_of_specifies {k : List Lexeme} (h : Derives isName i ls) (hs : i.Specifies k) : sign '{' ∈ ls := by
  obtain ⟨s, hs, -⟩ := hs
  cases h with
  | named | defaultNamed => simp [braces]
  | _ => cases hs

theorem declaredBy_plainLine (hreact : isName "React".toList) (h : DeclaredBy isName (.ofList plainLine) i) :
    i.origin = "react" ∧ i.typeOnly = false ∧ i.default? = some "React" ∧ ∀ ls, ¬ i.Specifies ls := by
  have hread : read plainLine = keyword "import" :: keyword "React" :: source "react" := by decide
  rw [DeclaredBy, String.toList_ofList, hread] at h
  have hself := Derives.default false "react" (n := "React") hreact
  obtain ⟨horigin, hheading⟩ := Derives.unique hself h
  obtain ⟨-, hvalues, hdefault, -⟩ := eq_of_heading_eq hheading (List.cons_ne_nil _ _)
  refine ⟨horigin.symm, hvalues.symm, hdefault.symm, fun ls hs => ?_⟩
  have hbrace := brace_mem_of_specifies h hs
  simp [keyword, source] at hbrace

theorem not_declaredBy_nil : ¬ DeclaredBy isName (.ofList []) i := by
  intro h
  obtain ⟨before, hbefore⟩ := h.exists_append
  cases before <;> cases hbefore

/-- What the line that is taken declares, if its names are specifiers. -/
theorem Taken.declares {line : List Char} (h : Taken content before line after default names)
    (hreact : isName "React".toList) (hnames : ∀ n ∈ names, IsSpecifier isName (read n))
    (hi : DeclaredBy isName (.ofList line) i) :
    i.origin = "react" ∧ i.typeOnly = false ∧ i.default? = defaultName? default ∧
      ∀ ls, i.Specifies ls ↔ ∃ n ∈ names, read n = ls := by
  cases h with
  | named h =>
    obtain ⟨horigin, hvalues, hdefault, -⟩ := (declaredBy_namedLine_iff h.isDefault hreact (reads_clause hnames)).1 hi
    exact ⟨horigin, hvalues, hdefault, fun ls => specifies_iff hnames h.isDefault hreact hi⟩
  | plain _ h =>
    obtain ⟨horigin, hvalues, hdefault, hlists⟩ := declaredBy_plainLine hreact hi
    exact ⟨horigin, hvalues, hdefault, fun ls => iff_of_false (hlists ls) (by simp)⟩
  | fresh => exact absurd hi not_declaredBy_nil

/-- A name is added to one line, whose names and default name are kept, and the text around it stays. The
line imports what it says if it stands outside literals and comments and its names can be read. Adding the
name again changes nothing, unless the line becomes the end of an import that begins above it. -/
theorem ensure_completes {name : List Char} (hname : isIdentifier name = true) (content : List Char) :
    ∃ before line after default names line', Taken content before line after default names ∧
      LineAt (ensure name content) before line' after ∧
      (name ∈ names → line' = line) ∧
      (name ∉ names → ∃ all, all.Perm (name :: names) ∧ all.Pairwise (fun a b => ¬ b < a) ∧
        line' = namedLine default (joinWith ", ".toList all)) ∧
      (∀ isName : List Char → Prop, (∀ n, isIdentifier n = true → isName n) →
        (line = [] ∨ ∃ i, DeclaredBy isName (.ofList line) i) → (∀ n ∈ names, IsSpecifier isName (read n)) →
        ScansAlone before → Imports isName (ensure name content) fun j => j.Specifies [word name] ∧
          ∀ i, DeclaredBy isName (.ofList line) i →
            j.default? = i.default? ∧ ∀ ls, i.Specifies ls → j.Specifies ls) ∧
      (ensure name (ensure name content) = ensure name content ↔ ¬ Reopened name content) := by
  obtain ⟨before, line, after, default, names, htaken⟩ := exists_taken content
  have hline := htaken.lineAt name
  refine ⟨before, line, after, default, names, _, htaken, hline, fun hmem => if_pos hmem, fun hmem => ?_, ?_,
    ensure_ensure_iff hname⟩
  · refine ⟨sortNames (names ++ [name]), ?_, pairwise_sortNames _, if_neg hmem⟩
    exact (List.mergeSort_perm ..).trans (List.perm_append_singleton name names)
  intro isName hnames hlegible hspecifiers halone
  have hreact := hnames "React".toList (by decide)
  have hread : read name = [word name] :=
    read_word (ne_nil_of_isIdentifier hname) fun c hc => by simp [isWordPart, isIdentChar_of_mem hname hc]
  have hdeclares {i : ImportStatement} := htaken.declares (i := i) hreact hspecifiers
  by_cases hmem : name ∈ names
  · -- The line stays, and it is a declaration: a line that has names is not empty.
    obtain ⟨j, hj⟩ := hlegible.resolve_left (htaken.line_ne_nil hmem)
    obtain ⟨horigin, hvalues, hdefault, hlists⟩ := hdeclares hj
    refine ⟨before, _, after, j, hline, halone, by rwa [lineOf, if_pos hmem], horigin, hvalues, ?_, fun i hi => ?_⟩
    · exact (hlists _).2 ⟨name, hmem, hread⟩
    · obtain ⟨-, -, hdefault', hlists'⟩ := hdeclares hi
      exact ⟨hdefault.trans hdefault'.symm, fun ls hls => (hlists ls).2 ((hlists' ls).1 hls)⟩
  · have hall : ∀ n ∈ sortNames (names ++ [name]), IsSpecifier isName (read n) := by
      intro n hn
      rcases List.mem_append.1 (mem_sortNames.1 hn) with hn | hn
      · exact hspecifiers n hn
      · rw [List.mem_singleton.1 hn, hread]
        exact .name (hnames name hname)
    obtain ⟨j, hj, horigin, hvalues, hdefault, hlists⟩ := exists_declaredBy htaken.isDefault hreact hall
    refine ⟨before, _, after, j, hline, halone, by rwa [lineOf, if_neg hmem], horigin, hvalues, ?_, fun i hi => ?_⟩
    · exact (hlists _).2 ⟨name, mem_sortNames.2 (by simp), hread⟩
    · obtain ⟨-, -, hdefault', hlists'⟩ := hdeclares hi
      refine ⟨hdefault.trans hdefault'.symm, fun ls hls => (hlists ls).2 ?_⟩
      obtain ⟨n, hn, hls⟩ := (hlists' ls).1 hls
      exact ⟨n, mem_sortNames.2 (List.mem_append_left _ hn), hls⟩

/-- A comment in which an import begins, above a plain import. -/
def openComment : List Char := "/*\nimport \x7b everything\n*/\nimport React from 'react';\n".toList

/-- A name beside another one is imported, but below the comment the second time breaks the import. -/
theorem memo_imported_unless_reopened :
    let isName (n : List Char) := isIdentifier n = true
    let memo := "memo".toList
    let listing := namedLine "React, ".toList "useState".toList ++ ['\n']
    let once := "/*\nimport \x7b everything\n*/\nimport React, \x7b memo \x7d from 'react';\n".toList
    (isName memo ∧ Imports isName (ensure memo listing) fun j => j.default? = some "React" ∧
      j.Specifies [word memo] ∧ j.Specifies [word "useState".toList]) ∧
      ensure memo openComment = once ∧ Reopened memo openComment ∧ ensure memo once ≠ once := by
  intro isName memo listing once
  have hname : isIdentifier memo = true := by decide
  refine ⟨⟨hname, ?_⟩, ?_⟩
  · obtain ⟨before, line, after, default, names, -, htaken, -, -, -, himports, -⟩ := ensure_completes hname listing
    have hfirst : FirstNamed listing [] "React, ".toList "useState".toList ['\n'] :=
      ⟨⟨⟨rfl, rfl, rfl⟩, isDefault_react, by decide⟩, fun _ _ _ _ _ => Nat.zero_le _⟩
    cases htaken with
    | plain hnone _ | fresh hnone _ => exact absurd hfirst.toNamedAt (hnone _ _ _ _)
    | named h =>
      obtain ⟨rfl, rfl, rfl, rfl⟩ := h.unique hfirst
      have hread : ∀ n ∈ entries "useState".toList, IsSpecifier isName (read n) := by
        have hself : entries "useState".toList = ["useState".toList] := by decide
        rw [hself, List.forall_mem_singleton, show read "useState".toList = [word "useState".toList] by decide]
        exact .name (by decide)
      obtain ⟨i, hi, -, -, hdefault, hlists⟩ := exists_declaredBy isDefault_react (by decide) hread
      obtain ⟨b, l, a, j, hat, halone, hj, horigin, hvalues, hmemo, hkept⟩ :=
        himports isName (fun _ h => h) (.inr ⟨i, hi⟩) hread fun rest _ => rfl
      obtain ⟨hsame, hspecifies⟩ := hkept i hi
      exact ⟨b, l, a, j, hat, halone, hj, horigin, hvalues, hsame.trans hdefault, hmemo,
        hspecifies _ ((hlists _).2 ⟨"useState".toList, by decide, by decide⟩)⟩
  · have honce : ensure memo openComment = once := by decide +kernel
    have hagain : ensure memo once ≠ once := by
      cases hfind : Generated.reactNamedImport.find? once with
      | none => exact absurd (Option.isNone_iff_eq_none.2 hfind) (by decide +kernel)
      | some m =>
        obtain ⟨b, a, hfirst, -⟩ := firstNamed_of_find? hfind
        have hlacks : (Generated.reactNamedImport.find? once).all
            fun m => !(entries (m.groupText once 2)).contains memo := by decide +kernel
        rw [hfind] at hlacks
        intro hsame
        have hmem := (ensure_eq_self_iff hname hfirst).1 hsame
        simp [hmem] at hlacks
    obtain ⟨-, -, -, -, -, -, -, -, -, -, -, hiff⟩ := ensure_completes hname openComment
    rw [honce] at hiff
    exact ⟨honce, by_contra fun hclosed => hagain (hiff.2 hclosed), hagain⟩

end ReactImport

end Recast
