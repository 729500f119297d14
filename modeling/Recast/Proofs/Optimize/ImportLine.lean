import Recast.Proofs.Artifact.Specifiers
import Recast.Proofs.Optimize.Rewriting
import Recast.Proofs.Pattern.Places
import Recast.Proofs.Text.Splitting

/-!
# The line of the framework import

A name is added to one line of the text: to the first import that lists names, or else to the first
plain import, or else to a new import at the top (`Taken`). In its place stands an import that lists the
names of before and the new one, and nothing else of the text is written anew (`ensure_eq`).

That import is the first one the next time, too, unless the braces of an import are open above it
(`ensure_ensure_iff`).
-/

namespace Recast.ReactImport

open Text Pattern Pattern.Generated

/-! ### Lines of a text -/

/-- Whole lines of the text, behind `before` and in front of `after`. -/
structure LineAt (content before line after : List Char) : Prop where
  split : content = before ++ (line ++ after)
  starts : EndsLines before
  ends : LineEnds after

/-- What goes before the braces of an import: nothing, or the default name. -/
def IsDefault (default : List Char) : Prop := default = [] ∨ default = "React, ".toList

/-- An import of the framework up to the names that it lists. -/
def opening (default : List Char) : List Char := "import ".toList ++ (default ++ "\x7b ".toList)

def closing : List Char := " \x7d from 'react';".toList

def namedLine (default clause : List Char) : List Char := opening default ++ (clause ++ closing)

def plainLine : List Char := "import React from 'react';".toList

/-- An import that lists names. -/
structure NamedAt (content before default clause after : List Char) : Prop extends
    LineAt content before (namedLine default clause) after where
  isDefault : IsDefault default
  brace : '\x7d' ∉ clause

/-- The first import that lists names. -/
structure FirstNamed (content before default clause after : List Char) : Prop extends
    NamedAt content before default clause after where
  first : ∀ b d c a, NamedAt content b d c a → before.length ≤ b.length

/-- The first plain import. -/
structure FirstPlain (content before after : List Char) : Prop extends
    LineAt content before plainLine after where
  first : ∀ b a, LineAt content b plainLine a → before.length ≤ b.length

/-- No import lists names. -/
def Unlisted (content : List Char) : Prop := ∀ b d c a, ¬ NamedAt content b d c a

/-- The names between the braces. -/
def entries (clause : List Char) : List (List Char) :=
  ((splitOn ',' clause).map trim).filter (!·.isEmpty)

/-- What separates a new import at the top from the text: a blank line, unless imports follow. -/
def gap (content : List Char) : List Char :=
  if startsWith content "import ".toList then ['\n'] else ['\n', '\n']

/-- The import that a name is added to, with the text around it, its default name and its names. -/
inductive Taken (content : List Char) :
    (before line after default : List Char) → (names : List (List Char)) → Prop
  | named {before default clause after} (h : FirstNamed content before default clause after) :
      Taken content before (namedLine default clause) after default (entries clause)
  | plain {before after} (hnone : Unlisted content) (h : FirstPlain content before after) :
      Taken content before plainLine after "React, ".toList []
  | fresh (hnone : Unlisted content) (hplain : ∀ b a, ¬ LineAt content b plainLine a) :
      Taken content [] [] (gap content ++ content) [] []

/-! ### What the patterns find -/

theorem isDefault_react : IsDefault "React, ".toList := .inr rfl

theorem opening_ne_nil (d : List Char) : opening d ≠ [] :=
  List.append_ne_nil_of_left_ne_nil (by decide) _

theorem IsDefault.feed_notMem {d : List Char} (h : IsDefault d) : '\n' ∉ opening d := by
  rcases h with rfl | rfl <;> decide

theorem all_noneIn_brace {c : List Char} : (c.all fun x => !"\x7d".toList.contains x) = true ↔ '\x7d' ∉ c := by
  rw [List.all_eq_true]
  constructor
  · exact fun h hmem => absurd (h _ hmem) (by decide)
  · intro h x hx
    simpa using ne_of_mem_of_not_mem hx h

theorem readsAt_reactNamedImport {x u y : List Char} : ReadsAt reactNamedImport x u y ↔
    EndsLines x ∧ LineEnds y ∧ ∃ d c, IsDefault d ∧ '\x7d' ∉ c ∧ u = namedLine d c := by
  simp only [reactNamedImport, readsAt_append, readsAt_lineStart, readsAt_lineEnd, readsAt_lit,
    readsAt_opt, readsAt_group, noneIn, readsAt_star_char, all_noneIn_brace]
  unfold namedLine opening closing IsDefault
  -- The texts of the pattern are not looked into.
  generalize "import ".toList = i, "React, ".toList = r, "\x7b ".toList = o, " \x7d from 'react';".toList = e
  constructor
  · rintro ⟨_, _, rfl, ⟨_, _, rfl, ⟨_, c, rfl, ⟨_, _, rfl, ⟨_, d, rfl, ⟨_, _, rfl, ⟨rfl, hx⟩, rfl⟩, hd⟩, rfl⟩, hc⟩,
      rfl⟩, ⟨rfl, hy⟩⟩
    exact ⟨hx, hy, d, c, hd.symm, hc, by simp only [List.append_assoc, List.append_nil, List.nil_append]⟩
  · rintro ⟨hx, hy, d, c, hd, hc, rfl⟩
    refine ⟨_, [], ?_, ⟨_, _, rfl, ⟨_, c, rfl, ⟨_, _, rfl, ⟨_, d, rfl, ⟨[], _, rfl, ⟨rfl, hx⟩, rfl⟩, hd.symm⟩, rfl⟩, hc⟩,
      rfl⟩, ⟨rfl, hy⟩⟩
    simp only [List.append_assoc, List.append_nil, List.nil_append]

theorem readsAt_reactDefaultImport {x u y : List Char} : ReadsAt reactDefaultImport x u y ↔
    EndsLines x ∧ LineEnds y ∧ u = plainLine := by
  simp only [reactDefaultImport, readsAt_append, readsAt_lineStart, readsAt_lineEnd, readsAt_lit]
  unfold plainLine
  generalize "import React from 'react';".toList = line
  constructor
  · rintro ⟨_, _, rfl, ⟨_, _, rfl, ⟨rfl, hx⟩, rfl⟩, ⟨rfl, hy⟩⟩
    exact ⟨hx, hy, List.append_nil _⟩
  · rintro ⟨hx, hy, rfl⟩
    exact ⟨_, [], (List.append_nil _).symm, ⟨[], _, rfl, ⟨rfl, hx⟩, rfl⟩, ⟨rfl, hy⟩⟩

variable {content before after default clause name : List Char} {m : Match}

theorem NamedAt.readsAt (h : NamedAt content before default clause after) :
    ReadsAt reactNamedImport before (namedLine default clause) after :=
  readsAt_reactNamedImport.2 ⟨h.starts, h.ends, default, clause, h.isDefault, h.brace, rfl⟩

theorem LineAt.readsAt (h : LineAt content before plainLine after) :
    ReadsAt reactDefaultImport before plainLine after :=
  readsAt_reactDefaultImport.2 ⟨h.starts, h.ends, rfl⟩

theorem firstNamed_of_find? (h : reactNamedImport.find? content = some m) :
    ∃ before after, FirstNamed content before (m.groupText content 1) (m.groupText content 2) after ∧
      m.span = ⟨before.length,
        before.length + (namedLine (m.groupText content 1) (m.groupText content 2)).length⟩ := by
  obtain ⟨hdefault, hbrace, htext⟩ := reads_of_reactNamedImport h
  obtain ⟨a, u, y, hsplit, hreads, hspan, hfirst⟩ := exists_first_of_find? (by decide) h
  obtain ⟨hstarts, hends, -⟩ := readsAt_reactNamedImport.1 hreads
  obtain rfl : u = namedLine (m.groupText content 1) (m.groupText content 2) := by
    have hu : m.span.text content = u := by
      rw [hspan, hsplit]
      simp [Span.text, Span.length]
    rw [← hu, htext]
    unfold namedLine opening closing
    simp only [List.append_assoc]
  exact ⟨a, y, ⟨⟨⟨hsplit, hstarts, hends⟩, hdefault, hbrace⟩, fun b d c z h => hfirst b _ z h.split h.readsAt⟩,
    hspan⟩

theorem unlisted_of_find? (h : reactNamedImport.find? content = none) : Unlisted content :=
  fun _ _ _ _ hat => not_readsAt_of_find? (by decide) h hat.split hat.readsAt

theorem firstPlain_of_find? (h : reactDefaultImport.find? content = some m) :
    ∃ before after, FirstPlain content before after ∧
      m.span = ⟨before.length, before.length + plainLine.length⟩ := by
  obtain ⟨a, u, y, hsplit, hreads, hspan, hfirst⟩ := exists_first_of_find? (by decide) h
  obtain ⟨hstarts, hends, rfl⟩ := readsAt_reactDefaultImport.1 hreads
  exact ⟨a, y, ⟨⟨hsplit, hstarts, hends⟩, fun b z h => hfirst b _ z h.split h.readsAt⟩, hspan⟩

/-! ### One reading of an import -/

/-- The names end at the first brace. -/
theorem closing_inj {c c' a a' : List Char} (hc : '\x7d' ∉ c) (hc' : '\x7d' ∉ c')
    (h : c ++ (closing ++ a) = c' ++ (closing ++ a')) : c = c' ∧ a = a' := by
  have hspaced {c : List Char} (hc : '\x7d' ∉ c) (a : List Char) :
      (c ++ (closing ++ a)).takeWhile (· != '\x7d') = c ++ [' '] := by
    have hall : ∀ x ∈ c, (x != '\x7d') = true := fun x hx => bne_iff_ne.2 (ne_of_mem_of_not_mem hx hc)
    rw [List.takeWhile_append_of_pos hall]
    rfl
  have heq : c ++ [' '] = c' ++ [' '] := by
    rw [← hspaced hc a, h, hspaced hc' a']
  obtain rfl := List.append_cancel_right heq
  exact ⟨rfl, List.append_cancel_left (List.append_cancel_left h)⟩

theorem opening_inj {d d' s s' : List Char} (hd : IsDefault d) (hd' : IsDefault d')
    (h : opening d ++ s = opening d' ++ s') : d = d' ∧ s = s' := by
  have hbrace (d s : List Char) : opening d ++ s = "import ".toList ++ (d ++ ("\x7b ".toList ++ s)) := by
    unfold opening
    rw [List.append_assoc, List.append_assoc]
  rw [hbrace, hbrace] at h
  have htail := List.append_cancel_left h
  rcases hd with rfl | rfl <;> rcases hd' with rfl | rfl
  · exact ⟨rfl, List.append_cancel_left htail⟩
  · cases (List.cons.inj htail).1
  · cases (List.cons.inj htail).1
  · exact ⟨rfl, List.append_cancel_left (List.append_cancel_left htail)⟩

theorem NamedAt.unique {d c a : List Char} (h : NamedAt content before default clause after)
    (h' : NamedAt content before d c a) : default = d ∧ clause = c ∧ after = a := by
  have hlines := List.append_cancel_left (h.split.symm.trans h'.split)
  simp only [namedLine, List.append_assoc] at hlines
  obtain ⟨hd, hrest⟩ := opening_inj h.isDefault h'.isDefault hlines
  obtain ⟨hc, ha⟩ := closing_inj h.brace h'.brace hrest
  exact ⟨hd, hc, ha⟩

theorem FirstNamed.unique {b d c a : List Char} (h : FirstNamed content before default clause after)
    (h' : FirstNamed content b d c a) : before = b ∧ default = d ∧ clause = c ∧ after = a := by
  have hlength := Nat.le_antisymm (h.first _ _ _ _ h'.toNamedAt) (h'.first _ _ _ _ h.toNamedAt)
  obtain ⟨rfl, -⟩ := List.append_inj (h.split.symm.trans h'.split) hlength
  exact ⟨rfl, h.toNamedAt.unique h'.toNamedAt⟩

theorem FirstPlain.unique {b a : List Char} (h : FirstPlain content before after)
    (h' : FirstPlain content b a) : before = b ∧ after = a := by
  have hlength := Nat.le_antisymm (h.first _ _ h'.toLineAt) (h'.first _ _ h.toLineAt)
  obtain ⟨rfl, hrest⟩ := List.append_inj (h.split.symm.trans h'.split) hlength
  exact ⟨rfl, List.append_cancel_left hrest⟩

/-! ### The text with the name -/

theorem exists_taken (content : List Char) :
    ∃ before line after default names, Taken content before line after default names := by
  cases hnamed : reactNamedImport.find? content with
  | some m =>
    obtain ⟨before, after, h, -⟩ := firstNamed_of_find? hnamed
    exact ⟨_, _, _, _, _, .named h⟩
  | none =>
    cases hplain : reactDefaultImport.find? content with
    | some m =>
      obtain ⟨before, after, h, -⟩ := firstPlain_of_find? hplain
      exact ⟨_, _, _, _, _, .plain (unlisted_of_find? hnamed) h⟩
    | none =>
      exact ⟨_, _, _, _, _, .fresh (unlisted_of_find? hnamed) fun _ _ hat =>
        not_readsAt_of_find? (by decide) hplain hat.split hat.readsAt⟩

theorem LineAt.replaceMatch_eq {line : List Char} (h : LineAt content before line after)
    (hspan : m.span = ⟨before.length, before.length + line.length⟩) (new : List Char) :
    replaceMatch m new content = before ++ (new ++ after) := by
  rw [h.split]
  exact replaceMatch_append hspan new

theorem mem_sortNames {n : List Char} {names : List (List Char)} : n ∈ sortNames names ↔ n ∈ names :=
  (List.mergeSort_perm ..).mem_iff

theorem pairwise_sortNames (names : List (List Char)) : (sortNames names).Pairwise fun a b => ¬ b < a := by
  have hnot (a b : List Char) : (!(decide (b < a))) = true ↔ ¬ b < a := by
    rw [Bool.not_eq_true', decide_eq_false_iff_not]
  have hsorted : (sortNames names).Pairwise fun a b => !(decide (b < a)) := List.pairwise_mergeSort
    (fun a b c hab hbc => (hnot a c).2
      (List.not_lt.2 (List.le_trans (List.not_lt.1 ((hnot a b).1 hab)) (List.not_lt.1 ((hnot b c).1 hbc)))))
    (fun a b => by
      rw [Bool.or_eq_true, hnot, hnot]
      exact (List.le_total a b).imp List.not_lt.2 List.not_lt.2) names
  exact hsorted.imp fun h => (hnot _ _).1 h

/-- The names with one more, as they stand between the braces. -/
def completed (name : List Char) (names : List (List Char)) : List Char :=
  joinWith ", ".toList (sortNames (names ++ [name]))

theorem completed_nil (name : List Char) : completed name [] = name := by
  rw [completed, List.nil_append, sortNames, List.mergeSort_singleton]
  rfl

theorem append_nameClause (default : List Char) (names : List (List Char)) :
    "import ".toList ++ default ++ nameClause names = namedLine default (joinWith ", ".toList names) := by
  unfold namedLine opening closing nameClause
  simp only [List.append_assoc]

theorem append_nameClause_singleton (name : List Char) :
    "import React, ".toList ++ nameClause [name] = namedLine "React, ".toList name :=
  append_nameClause "React, ".toList [name]

/-- The line that stands in the place of the one that is taken. -/
def lineOf (name line default : List Char) (names : List (List Char)) : List Char :=
  if name ∈ names then line else namedLine default (completed name names)

theorem ensure_eq {line : List Char} {names : List (List Char)} (h : Taken content before line after default names)
    (name : List Char) : ensure name content = before ++ (lineOf name line default names ++ after) := by
  unfold ensure lineOf
  cases hnamed : reactNamedImport.find? content with
  | some m =>
    obtain ⟨b, a, hfirst, hspan⟩ := firstNamed_of_find? hnamed
    cases h with
    | plain hnone _ | fresh hnone _ => exact absurd hfirst.toNamedAt (hnone _ _ _ _)
    | named h =>
      obtain ⟨rfl, rfl, rfl, rfl⟩ := h.unique hfirst
      have hlisted : (listedNames m content).contains name = true ↔ name ∈ entries (m.groupText content 2) :=
        List.contains_iff_mem
      dsimp only
      by_cases hname : name ∈ entries (m.groupText content 2)
      · rw [if_pos (hlisted.2 hname), if_pos hname]
        exact h.split
      · rw [if_neg (mt hlisted.1 hname), if_neg hname, append_nameClause]
        exact h.replaceMatch_eq hspan _
  | none =>
    have hunlisted := unlisted_of_find? hnamed
    cases h with
    | named h => exact absurd h.toNamedAt (hunlisted _ _ _ _)
    | plain _ h =>
      cases hplain : reactDefaultImport.find? content with
      | none => exact absurd h.readsAt (not_readsAt_of_find? (by decide) hplain h.split)
      | some m =>
        obtain ⟨b, a, hfirst, hspan⟩ := firstPlain_of_find? hplain
        obtain ⟨rfl, rfl⟩ := h.unique hfirst
        rw [if_neg List.not_mem_nil, completed_nil, ← append_nameClause_singleton]
        exact h.replaceMatch_eq hspan _
    | fresh _ hplain =>
      cases hfound : reactDefaultImport.find? content with
      | some m =>
        obtain ⟨b, a, hfirst, -⟩ := firstPlain_of_find? hfound
        exact absurd hfirst.toLineAt (hplain _ _)
      | none =>
        have hline : "import ".toList ++ nameClause [name] = namedLine [] name := append_nameClause [] [name]
        dsimp only
        rw [if_neg List.not_mem_nil, completed_nil, hline, gap, List.nil_append]
        split <;> simp only [List.append_assoc, List.cons_append, List.nil_append]

theorem lineEnds_gap (content : List Char) : LineEnds (gap content ++ content) := by
  unfold gap
  split <;> rfl

theorem Taken.lineAt {line : List Char} {names : List (List Char)} (h : Taken content before line after default names)
    (name : List Char) : LineAt (ensure name content) before (lineOf name line default names) after := by
  refine ⟨ensure_eq h name, ?_, ?_⟩
  · cases h with
    | named h => exact h.starts
    | plain _ h => exact h.starts
    | fresh => rfl
  · cases h with
    | named h => exact h.ends
    | plain _ h => exact h.ends
    | fresh => exact lineEnds_gap content

theorem Taken.isDefault {line : List Char} {names : List (List Char)}
    (h : Taken content before line after default names) :
    IsDefault default := by
  cases h with
  | named h => exact h.isDefault
  | plain => exact isDefault_react
  | fresh => exact .inl rfl

theorem Taken.line_ne_nil {line : List Char} {names : List (List Char)}
    (h : Taken content before line after default names) (hname : name ∈ names) : line ≠ [] := by
  cases h with
  | named => exact List.append_ne_nil_of_left_ne_nil (opening_ne_nil _) _
  | plain | fresh => cases hname

/-! ### Names between braces -/

/-- A name as it is read between commas. -/
structure IsEntry (n : List Char) : Prop where
  ne_nil : n ≠ []
  trimmed : trim n = n
  comma : ',' ∉ n

theorem isEntry_of_isIdentifier (h : isIdentifier name = true) : IsEntry name where
  ne_nil := ne_nil_of_isIdentifier h
  trimmed := (isTight_of_isIdentifier h).trim_eq
  comma hmem := absurd (isIdentChar_of_mem h hmem) (by decide)

theorem brace_notMem_of_isIdentifier (h : isIdentifier name = true) : '\x7d' ∉ name :=
  fun hmem => absurd (isIdentChar_of_mem h hmem) (by decide)

theorem isEntry_of_mem {n : List Char} (h : n ∈ entries clause) : IsEntry n := by
  obtain ⟨hmem, hne⟩ := List.mem_filter.1 h
  obtain ⟨piece, hpiece, rfl⟩ := List.mem_map.1 hmem
  exact ⟨by simpa using hne, (isTight_trim piece).trim_eq,
    fun hcomma => not_mem_of_mem_splitOn hpiece (mem_of_mem_trim hcomma)⟩

theorem mem_of_mem_entries {n : List Char} (h : n ∈ entries clause) {x : Char} (hx : x ∈ n) : x ∈ clause := by
  obtain ⟨piece, hpiece, rfl⟩ := List.mem_map.1 (List.mem_filter.1 h).1
  have hflat : x ∈ (splitOn ',' clause).flatten := List.mem_flatten_of_mem hpiece (mem_of_mem_trim hx)
  rw [splitOn, flatten_splitWhen] at hflat
  exact (List.mem_filter.1 hflat).1

theorem entries_append (u v : List Char) : entries (u ++ ',' :: v) = entries u ++ entries v := by
  rw [entries, splitOn_append, List.map_append, List.filter_append]
  rfl

theorem entries_space (v : List Char) : entries (' ' :: v) = entries v := by
  obtain ⟨piece, rest, hv⟩ := List.exists_cons_of_ne_nil (splitOn_ne_nil ',' v)
  have hspace : splitOn ',' (' ' :: v) = (' ' :: piece) :: rest := by
    rw [splitOn] at hv
    rw [splitOn, splitWhen, if_neg (by decide), hv]
  rw [entries, entries, hspace, hv]
  rfl

theorem IsEntry.entries_eq {n : List Char} (h : IsEntry n) : entries n = [n] := by
  rw [entries, splitOn_of_not_mem h.comma, List.map_singleton, h.trimmed]
  exact List.filter_cons_of_pos (by simpa using h.ne_nil)

/-- Names with commas between them are read back. -/
theorem entries_joinWith {names : List (List Char)} (h : ∀ n ∈ names, IsEntry n) :
    entries (joinWith ", ".toList names) = names := by
  induction names with
  | nil => rfl
  | cons n ns ih =>
    obtain ⟨hn, hns⟩ := List.forall_mem_cons.1 h
    cases ns with
    | nil => exact hn.entries_eq
    | cons k ks =>
      have hcomma (rest : List Char) : n ++ ", ".toList ++ rest = n ++ ',' :: ' ' :: rest := by
        rw [List.append_assoc]
        rfl
      rw [joinWith_cons_cons, hcomma, entries_append, entries_space, ih hns, hn.entries_eq, List.singleton_append]

section

variable (hname : isIdentifier name = true)

include hname

theorem isEntry_of_mem_sortNames {n : List Char} (h : n ∈ sortNames (entries clause ++ [name])) : IsEntry n := by
  rcases List.mem_append.1 (mem_sortNames.1 h) with h | h
  · exact isEntry_of_mem h
  · exact List.mem_singleton.1 h ▸ isEntry_of_isIdentifier hname

theorem mem_entries_completed (clause : List Char) : name ∈ entries (completed name (entries clause)) := by
  rw [completed, entries_joinWith fun n hn => isEntry_of_mem_sortNames hname hn]
  exact mem_sortNames.2 (by simp)

theorem brace_notMem_completed (hbrace : '\x7d' ∉ clause) : '\x7d' ∉ completed name (entries clause) := by
  intro hmem
  rcases mem_joinWith hmem with hsep | ⟨n, hn, hx⟩
  · exact absurd hsep (by decide)
  rcases List.mem_append.1 (mem_sortNames.1 hn) with hn | hn
  · exact hbrace (mem_of_mem_entries hn hx)
  · exact brace_notMem_of_isIdentifier hname (List.mem_singleton.1 hn ▸ hx)

/-- The text stays as it is exactly if its first import that lists names lists this one. -/
theorem ensure_eq_self_iff (h : FirstNamed content before default clause after) :
    ensure name content = content ↔ name ∈ entries clause := by
  rw [ensure_eq (.named h) name, lineOf]
  constructor
  · intro heq
    by_contra hnot
    rw [if_neg hnot] at heq
    have hline := List.append_cancel_right (List.append_cancel_left (heq.trans h.split))
    have hclause := List.append_cancel_right (List.append_cancel_left hline)
    exact hnot (hclause ▸ mem_entries_completed hname clause)
  · intro hmem
    rw [if_pos hmem]
    exact h.split.symm

end

/-! ### The second time -/

/-- The braces of an import are opened above, and no brace closes them. -/
structure OpenAt (before b default tail : List Char) : Prop where
  split : before = b ++ (opening default ++ tail)
  starts : EndsLines b
  isDefault : IsDefault default
  brace : '\x7d' ∉ tail

/-- The first braces that are opened above and not closed. -/
structure FirstOpen (before b default tail : List Char) : Prop extends OpenAt before b default tail where
  first : ∀ b' d' tail', OpenAt before b' d' tail' → b.length ≤ b'.length

theorem OpenAt.namedAt {b d tail w a : List Char} (h : OpenAt before b d tail) (hw : '\x7d' ∉ w) (ha : LineEnds a) :
    NamedAt (before ++ (w ++ (closing ++ a))) b d (tail ++ w) a where
  split := by simp only [h.split, namedLine, List.append_assoc]
  starts := h.starts
  ends := ha
  isDefault := h.isDefault
  brace hmem := (List.mem_append.1 hmem).elim h.brace hw

/-- An import that begins above the start of a line ends above it, or its braces are open there. -/
theorem NamedAt.above {rest b d c a : List Char} (h : NamedAt (before ++ rest) b d c a) (hstarts : EndsLines before)
    (hlt : b.length < before.length) :
    (∃ r, before = b ++ (namedLine d c ++ r) ∧ ∀ s, LineEnds (r ++ s)) ∨
      ∃ tail w, OpenAt before b d tail ∧ c = tail ++ w ∧ rest = w ++ (closing ++ a) := by
  have hclosing : '\n' ∉ closing := by decide
  obtain ⟨v, rfl⟩ : ∃ v, before = b ++ v := by
    obtain ⟨v, hv⟩ := List.prefix_of_prefix_length_le ⟨_, h.split.symm⟩ ⟨rest, rfl⟩ hlt.le
    exact ⟨v, hv.symm⟩
  have hline := h.split
  simp only [namedLine, List.append_assoc, List.append_cancel_left_eq] at hline
  have hfeed : '\n' ∈ v := hstarts.mem (by rintro rfl; simp at hlt)
  rcases List.append_eq_append_iff.1 hline with ⟨u, hv, -⟩ | ⟨tail, rfl, hrest⟩
  · exact absurd (hv ▸ List.mem_append_left u hfeed) h.isDefault.feed_notMem
  rcases List.append_eq_append_iff.1 hrest with ⟨w, rfl, hend⟩ | ⟨w, rfl, hend⟩
  · by_cases hw : w = []
    · subst hw
      exact .inr ⟨c, [], ⟨by rw [List.append_nil], h.starts, h.isDefault, h.brace⟩, by simp, by simpa using hend.symm⟩
    -- The line feed that ends `before` stands behind the whole import.
    have hfeed : '\n' ∈ w := by
      refine EndsLines.mem (u := b ++ (opening d ++ c)) ?_ hw
      simpa only [List.append_assoc] using hstarts
    rcases List.append_eq_append_iff.1 hend with ⟨r, rfl, rfl⟩ | ⟨u, hu, -⟩
    · obtain ⟨x, r, rfl⟩ := List.exists_cons_of_ne_nil (show r ≠ [] by
        rintro rfl
        rw [List.append_nil] at hfeed
        exact hclosing hfeed)
      exact .inl ⟨x :: r, by simp only [namedLine, List.append_assoc], fun s => h.ends⟩
    · exact absurd (hu ▸ List.mem_append_left u hfeed) hclosing
  · exact .inr ⟨tail, w, ⟨rfl, h.starts, h.isDefault, fun hmem => h.brace (List.mem_append_left w hmem)⟩, rfl, hend⟩

variable {d c c' : List Char}

theorem brace_notMem_opening (h : IsDefault d) : '\x7d' ∉ opening d := by
  rcases h with rfl | rfl <;> decide

/-- The names of the first import can be written anew: it is the first one still. -/
theorem FirstNamed.rewrite (h : FirstNamed content before default clause after) (hc : '\x7d' ∉ c) :
    FirstNamed (before ++ (namedLine default c ++ after)) before default c after where
  split := rfl
  starts := h.starts
  ends := h.ends
  isDefault := h.isDefault
  brace := hc
  first b d c' a hat := by
    by_contra hlt
    rcases hat.above h.starts (Nat.lt_of_not_le hlt) with ⟨r, hbefore, hends⟩ | ⟨tail, w, hopen, -, -⟩
    · have hearlier : NamedAt content b d c' (r ++ (namedLine default clause ++ after)) :=
        ⟨⟨by rw [h.split]; simp only [hbefore, List.append_assoc], hat.starts, hends _⟩, hat.isDefault, hat.brace⟩
      exact hlt (h.first _ _ _ _ hearlier)
    · have hbrace : '\x7d' ∉ opening default ++ clause :=
        fun hmem => (List.mem_append.1 hmem).elim (brace_notMem_opening h.isDefault) h.brace
      have hearlier := hopen.namedAt hbrace h.ends
      have hsplit : before ++ (opening default ++ clause ++ (closing ++ after)) = content := by
        rw [h.split]
        simp only [namedLine, List.append_assoc]
      exact hlt (h.first _ _ _ _ (hsplit ▸ hearlier))

/-- Behind a plain import that has become one with names, the first import with names is this one, or the
first whose braces are open above it. -/
theorem FirstPlain.firstNamed (hnone : Unlisted content) (h : FirstPlain content before after) (hc : '\x7d' ∉ c)
    {b a : List Char} (hfirst : FirstNamed (before ++ (namedLine "React, ".toList c ++ after)) b d c' a) :
    (c' = c ∧ ∀ b d tail, ¬ OpenAt before b d tail) ∨
      ∃ tail, FirstOpen before b d tail ∧ c' = tail ++ (opening "React, ".toList ++ c) := by
  have hself : NamedAt (before ++ (namedLine "React, ".toList c ++ after)) before "React, ".toList c after :=
    ⟨⟨rfl, h.starts, h.ends⟩, isDefault_react, hc⟩
  have hbrace : '\x7d' ∉ opening "React, ".toList ++ c :=
    fun hmem => (List.mem_append.1 hmem).elim (brace_notMem_opening isDefault_react) hc
  have hopened {b d tail : List Char} (hopen : OpenAt before b d tail) :
      NamedAt (before ++ (namedLine "React, ".toList c ++ after)) b d (tail ++ (opening "React, ".toList ++ c)) after := by
    have hat := hopen.namedAt hbrace h.ends
    simpa only [namedLine, List.append_assoc] using hat
  have hle := hfirst.first _ _ _ _ hself
  rcases hle.lt_or_eq with hlt | heq
  · rcases hfirst.toNamedAt.above h.starts hlt with ⟨r, hbefore, hends⟩ | ⟨tail, w, hopen, rfl, hrest⟩
    · have hearlier : NamedAt content b d c' (r ++ (plainLine ++ after)) :=
        ⟨⟨by rw [h.split]; simp only [hbefore, List.append_assoc], hfirst.starts, hends _⟩, hfirst.isDefault,
          hfirst.brace⟩
      exact absurd hearlier (hnone _ _ _ _)
    · refine .inr ⟨tail, ⟨hopen, fun b' d' tail' h' => hfirst.first _ _ _ _ (hopened h')⟩, ?_⟩
      exact (hfirst.toNamedAt.unique (hopened hopen)).2.1
  · obtain ⟨rfl, -⟩ := List.append_inj (hfirst.split.symm.trans hself.split) heq
    refine .inl ⟨(hfirst.toNamedAt.unique hself).2.1, fun b' d' tail hopen => ?_⟩
    have hle := hfirst.first _ _ _ _ (hopened hopen)
    rw [hopen.split, List.length_append, List.length_append] at hle
    have hpos := List.length_pos_iff.2 (opening_ne_nil d')
    omega

theorem FirstOpen.unique {b b' d d' tail tail' : List Char} (h : FirstOpen before b d tail)
    (h' : FirstOpen before b' d' tail') : b = b' ∧ d = d' ∧ tail = tail' := by
  have hlength := Nat.le_antisymm (h.first _ _ _ h'.toOpenAt) (h'.first _ _ _ h.toOpenAt)
  obtain ⟨rfl, hrest⟩ := List.append_inj (h.split.symm.trans h'.split) hlength
  exact ⟨rfl, opening_inj h.isDefault h'.isDefault hrest⟩

theorem NamedAt.exists_first (h : NamedAt content before default clause after) :
    ∃ b d c a, FirstNamed content b d c a := by
  obtain ⟨_, _, _, _, _, htaken⟩ := exists_taken content
  cases htaken with
  | named hfirst => exact ⟨_, _, _, _, hfirst⟩
  | plain hnone _ | fresh hnone _ => exact absurd h (hnone _ _ _ _)

/-- Above the plain import that gets the name the braces of an import are open. The two are one import
from now on, and the name is none of those that are read between its braces. -/
def Reopened (name content : List Char) : Prop :=
  Unlisted content ∧ ∃ before after b d tail, FirstPlain content before after ∧ FirstOpen before b d tail ∧
    name ∉ entries (tail ++ (opening "React, ".toList ++ name))

/-- Adding a name a second time changes nothing, unless the line that it was added to is taken for the end
of an import that begins above. -/
theorem ensure_ensure_iff (hname : isIdentifier name = true) :
    ensure name (ensure name content) = ensure name content ↔ ¬ Reopened name content := by
  obtain ⟨before, line, after, default, names, htaken⟩ := exists_taken content
  have hbrace := brace_notMem_of_isIdentifier hname
  have hself : name ∈ entries name := by
    rw [(isEntry_of_isIdentifier hname).entries_eq]
    exact List.mem_singleton_self name
  cases htaken with
  | @named _ _ clause _ h =>
    refine (iff_true_right fun hopen => hopen.1 _ _ _ _ h.toNamedAt).2 ?_
    by_cases hmem : name ∈ entries clause
    · have hsame := (ensure_eq_self_iff hname h).2 hmem
      rw [hsame, hsame]
    · rw [ensure_eq (.named h), lineOf, if_neg hmem]
      exact (ensure_eq_self_iff hname (h.rewrite (brace_notMem_completed hname h.brace))).2
        (mem_entries_completed hname _)
  | fresh hnone hplain =>
    refine (iff_true_right ?_).2 ?_
    · rintro ⟨-, _, _, _, _, _, hfirst, -⟩
      exact hplain _ _ hfirst.toLineAt
    · rw [ensure_eq (.fresh hnone hplain), lineOf, if_neg List.not_mem_nil, completed_nil]
      have htop : FirstNamed ([] ++ (namedLine [] name ++ (gap content ++ content))) [] [] name (gap content ++ content) :=
        ⟨⟨⟨rfl, rfl, lineEnds_gap content⟩, .inl rfl, hbrace⟩, fun _ _ _ _ _ => Nat.zero_le _⟩
      exact (ensure_eq_self_iff hname htop).2 hself
  | plain hnone h =>
    rw [ensure_eq (.plain hnone h), lineOf, if_neg List.not_mem_nil, completed_nil]
    have hat : NamedAt (before ++ (namedLine "React, ".toList name ++ after)) before "React, ".toList name after :=
      ⟨⟨rfl, h.starts, h.ends⟩, isDefault_react, hbrace⟩
    obtain ⟨b, d, c, a, hfirst⟩ := hat.exists_first
    rw [ensure_eq_self_iff hname hfirst]
    rcases h.firstNamed hnone hbrace hfirst with ⟨rfl, hclosed⟩ | ⟨tail, hopen, rfl⟩
    · refine iff_of_true hself ?_
      rintro ⟨-, before', after', b', d', tail, hplain, hopen, -⟩
      obtain ⟨rfl, -⟩ := h.unique hplain
      exact hclosed _ _ _ hopen.toOpenAt
    · constructor
      · rintro hmem ⟨-, before', after', b', d', tail', hplain, hopen', hnot⟩
        obtain ⟨rfl, -⟩ := h.unique hplain
        obtain ⟨rfl, rfl, rfl⟩ := hopen.unique hopen'
        exact hnot hmem
      · intro hnot
        by_contra hmem
        exact hnot ⟨hnone, before, after, b, d, tail, h, hopen, hmem⟩

end Recast.ReactImport
