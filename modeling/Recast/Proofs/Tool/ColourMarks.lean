import Recast.Proofs.Artifact.IdiomPatterns
import Recast.Proofs.Names.Listing
import Recast.Tool.Report

/-!
# Colour marks

A mark that colours a text on a terminal holds no line feed, and where one begins it is known how far it goes.
So which marks are dropped from a line does not hang on the lines around it (`stripColours_append`).
-/

namespace Recast

open Pattern

section

variable {Kept : Option Char → List Char → Prop} {Hit : Option Char → List Char → List Char → List Char → Prop}

/-- What becomes of a text is settled if a piece that may be edited is known by what it begins, is never kept,
and becomes one text only. -/
theorem Pattern.Edited.unique
    (hhit : ∀ {prev prev' u u' rest rest' new new'}, Hit prev u rest new → Hit prev' u' rest' new' →
      u ++ rest = u' ++ rest' → u = u' ∧ new = new')
    (hkept : ∀ {prev prev' u rest new}, Kept prev (u ++ rest) → ¬ Hit prev' u rest new)
    {prev prev' : Option Char} {text out out' : List Char} (h : Edited Kept Hit prev text out)
    (h' : Edited Kept Hit prev' text out') : out = out' := by
  induction h generalizing prev' out' with
  | nil prev =>
    generalize htext : [] = text at h'
    cases h' with
    | nil => rfl
    | keep => cases htext
    | hit hu => exact absurd (List.append_eq_nil_iff.1 htext.symm).1 hu
  | @keep prev c r out hc _ ih =>
    generalize htext : c :: r = text at h'
    cases h' with
    | nil => cases htext
    | keep _ h' =>
      obtain ⟨rfl, rfl⟩ := List.cons.inj htext
      exact congrArg (c :: ·) (ih h')
    | hit _ hnew => exact absurd hnew (hkept (htext ▸ hc))
  | @hit prev u rest new out hu hnew _ ih =>
    generalize htext : u ++ rest = text at h'
    cases h' with
    | nil => exact absurd (List.append_eq_nil_iff.1 htext).1 hu
    | keep hc => exact absurd hnew (hkept (htext ▸ hc))
    | @hit _ u' rest' new' out' _ hnew' h' =>
      obtain ⟨rfl, rfl⟩ := hhit hnew hnew' htext
      obtain rfl := List.append_cancel_left htext
      exact congrArg (new ++ ·) (ih h')

end

namespace ToolReport

open Pattern.Report

/-- A parameter of a colour mark. -/
def isParameter (c : Char) : Bool := c.isDigit || c == ';' || c == '?'

/-- An escape character and a bracket, then parameters up to a letter. -/
def IsColourMark (u : List Char) : Prop :=
  ∃ ps c, u = "\x1b[".toList ++ (ps ++ [c]) ∧ ps.all isParameter = true ∧ c.isAlpha = true

theorem not_isParameter_of_isAlpha {c : Char} (h : c.isAlpha = true) : isParameter c = false := by
  have hdigit : c.isDigit = false := FreeNames.isDigit_of_isAlpha h
  have hmarks : c ≠ ';' ∧ c ≠ '?' := by
    constructor <;> rintro rfl <;> cases h
  simp [isParameter, hdigit, hmarks]

/-- A mark goes up to the first letter. -/
theorem IsColourMark.unique {u u' rest rest' : List Char} (h : IsColourMark u) (h' : IsColourMark u')
    (heq : u ++ rest = u' ++ rest') : u = u' := by
  obtain ⟨ps, c, rfl, hps, hc⟩ := h
  obtain ⟨ps', c', rfl, hps', hc'⟩ := h'
  simp only [List.append_assoc, List.singleton_append, List.append_cancel_left_eq] at heq
  have htake {ps : List Char} {c : Char} (rest : List Char) (hps : ps.all isParameter = true)
      (hc : c.isAlpha = true) : (ps ++ c :: rest).takeWhile isParameter = ps := by
    rw [List.takeWhile_append_of_pos (List.all_eq_true.1 hps),
      List.takeWhile_cons_of_neg (by simp [not_isParameter_of_isAlpha hc]), List.append_nil]
  obtain rfl : ps = ps' := by rw [← htake rest hps hc, heq, htake rest' hps' hc']
  obtain ⟨rfl, -⟩ := List.cons.inj (List.append_cancel_left heq)
  rfl

theorem IsColourMark.feed_not_mem {u : List Char} (h : IsColourMark u) : '\n' ∉ u := by
  obtain ⟨ps, c, rfl, hps, hc⟩ := h
  simp only [List.mem_append, List.mem_singleton, not_or]
  refine ⟨by decide, fun hmem => ?_, ?_⟩
  · exact absurd (List.all_eq_true.1 hps _ hmem) (by decide)
  · rintro rfl
    cases hc

/-- The pattern reads colour marks. -/
theorem isColourMark_of_reads {c c' : Cursor} {g g' : Groups} (h : Reads ansiEscape c g c' g') {u : List Char}
    (hu : c.rest = u ++ c'.rest) : IsColourMark u := by
  obtain ⟨c₂, g₂, hfront, hletter⟩ := reads_append.1 h
  obtain ⟨c₁, g₁, hlit, hstar⟩ := reads_append.1 hfront
  obtain ⟨-, hopen, -⟩ := reads_lit hlit
  obtain ⟨-, ps, hps, hparameters, -⟩ := reads_star_char hstar
  cases hletter with
  | @char _ n prev x r _ hx =>
    refine ⟨ps, x, List.append_cancel_right (hu.symm.trans ?_), hps, hx⟩
    rw [hopen, hparameters]
    simp

theorem exists_reads_of_isColourMark {u : List Char} (h : IsColourMark u) (pos : Nat) (prev : Option Char)
    (rest : List Char) : ∃ c' g, Reads ansiEscape ⟨pos, prev, u ++ rest⟩ [] c' g := by
  obtain ⟨ps, c, rfl, hps, hc⟩ := h
  simp only [List.append_assoc, List.singleton_append]
  obtain ⟨n, q, hlit⟩ := Modernize.exists_reads_lit "\x1b[" pos prev [] (ps ++ c :: rest)
  obtain ⟨n', q', hstar⟩ := Modernize.exists_reads_star hps n q [] (c :: rest)
  exact ⟨_, _, .seq (.seq hlit hstar) (.char hc)⟩

/-- No mark begins here. -/
def Unmarked (_ : Option Char) (text : List Char) : Prop := ∀ u rest, text = u ++ rest → ¬ IsColourMark u

/-- A mark is dropped. -/
def Dropped (_ : Option Char) (u _ new : List Char) : Prop := IsColourMark u ∧ new = []

/-- Marks are dropped, and all else is kept. -/
theorem edited_stripColours (text : List Char) : Edited Unmarked Dropped none text (stripColours text) := by
  refine (edited_replaceAll (by decide) (by decide) (fun _ => []) text).mono ?_ ?_
  · rintro prev text ⟨pos, hunread⟩ u rest rfl hmark
    obtain ⟨c', g, hreads⟩ := exists_reads_of_isColourMark hmark pos prev rest
    exact hunread c' g hreads
  · rintro prev u rest new ⟨pos, g, -, hreads, rfl⟩
    exact ⟨isColourMark_of_reads hreads rfl, rfl⟩

theorem eq_stripColours {prev : Option Char} {text out : List Char} (h : Edited Unmarked Dropped prev text out) :
    out = stripColours text :=
  h.unique (fun hu hu' heq => ⟨hu.1.unique hu'.1 heq, hu.2.trans hu'.2.symm⟩)
    (fun hkept hdropped => hkept _ _ rfl hdropped.1) (edited_stripColours text)

/-- A line loses its marks as if it stood alone. -/
theorem stripColours_append (a b : List Char) :
    stripColours (a ++ '\n' :: b) = stripColours a ++ '\n' :: stripColours b := by
  obtain ⟨a', b', hout, hb, ha⟩ := (edited_stripColours (a ++ '\n' :: b)).part
    fun _ _ _ _ hdropped => hdropped.1.feed_not_mem
  rw [hout, eq_stripColours hb]
  refine congrArg (· ++ _) (eq_stripColours (ha.mono (fun _ r hkept u rest hr => ?_) fun _ _ _ _ h => h))
  exact hkept u (rest ++ '\n' :: b) (by rw [hr, List.append_assoc])

end ToolReport

end Recast
