import Recast.Proofs.Names.Interpolations
import Recast.Proofs.Text.Once
import Recast.Proofs.Text.WordPlaces

/-!
# Dependency lists

The list for a hook holds names, each once and each found in the expression as a whole word. What is listed
is used in code, as long as no tick stands inside an interpolation before it (`ofExpr_wellFormed`).
-/

namespace Recast.FreeNames

open Text

/-! ### Names -/

theorem isIdentifier_of_isRun {w : List Char} (h : isRun w = true) : isIdentifier w = true := by
  cases w with
  | nil => cases h
  | cons c r =>
    simp only [isRun, List.all_cons, Bool.and_eq_true, Bool.not_eq_true'] at h
    obtain ⟨hdigit, hc, hr⟩ := h
    simp only [isIdentChar, Char.isAlphanum, hdigit, Bool.or_false] at hc
    exact Bool.and_eq_true_iff.2 ⟨hc, hr⟩

theorem all_isIdentChar_of_isRun {w : List Char} (h : isRun w = true) : w.all isIdentChar = true := by
  cases w with
  | nil => rfl
  | cons c r => exact (Bool.and_eq_true_iff.1 h).2

theorem ne_nil_of_isRun {w : List Char} (h : isRun w = true) : w ≠ [] := by
  rintro rfl
  cases h

theorem nodup_ofExpr (expr : List Char) : (ofExpr expr).Nodup := by
  have hgathered : ofExpr expr =
      (((tokens expr).filter (isFree expr (bound expr (tokens expr)))).map (·.word)).eraseDups := foldl_addOnce _
  rw [hgathered]
  exact nodup_eraseDups _

/-! ### Whole words -/

/-- An interpolation stands between its braces. -/
theorem Interpolation.braced {pos n start : ℕ} {text inner : List Char} (h : Interpolation pos n text start inner) :
    ∃ a b, text = a ++ inner ++ b ∧ start = pos + a.length ∧ a.getLast? = some '{' ∧ b.head? = some '}' := by
  induction h with
  | @first pos n k r hk =>
    obtain ⟨w, rest, rfl, rfl, -⟩ := Place.exists_inside hk
    rw [List.take_left]
    exact ⟨['$', '{'], '}' :: rest, rfl, rfl, rfl, rfl⟩
  | @later pos n k r start inner hk h ih =>
    obtain ⟨w, rest, rfl, rfl, -⟩ := Place.exists_inside hk
    obtain ⟨a, b, hrest, hstart, hlast, hhead⟩ := ih
    rw [drop_closer] at hrest
    refine ⟨'$' :: '{' :: (w ++ '}' :: a), b, ?_, by simp; omega, ?_, hhead⟩
    · rw [hrest]
      simp
    · simp [List.getLast?_cons, List.getLast?_append, hlast]
  | @escaped pos n c r start inner h ih =>
    obtain ⟨a, b, rfl, rfl, hlast, hhead⟩ := ih
    exact ⟨'\\' :: c :: a, b, rfl, by simp; omega, by simp [List.getLast?_cons, hlast], hhead⟩
  | @char pos n c r start inner hc hk h ih =>
    obtain ⟨a, b, rfl, rfl, hlast, hhead⟩ := ih
    exact ⟨c :: a, b, rfl, by simp; omega, by simp [List.getLast?_cons, hlast], hhead⟩

/-- Where reading comes to, no name runs on from what it has not read. -/
theorem Reads.between {prev prev' : Option Char} {pos p : ℕ} {text text' : List Char}
    (h : Reads prev pos text prev' p text') :
    ∃ a b, text = a ++ text' ++ b ∧ p = pos + a.length ∧
      (a.getLast?.or prev).any isIdentChar = prev'.any isIdentChar ∧ b.head?.any isIdentChar = false := by
  induction h with
  | here => exact ⟨[], [], by simp⟩
  | @char prev pos c r prev' p text' hnone h ih =>
    obtain ⟨a, b, rfl, rfl, hlast, hhead⟩ := ih
    refine ⟨c :: a, b, rfl, by simp; omega, ?_, hhead⟩
    rw [Pattern.getLast?_cons_or, hlast]
  | @literal prev pos text l n prev' p text' hliteral h ih =>
    obtain ⟨u, rest, rfl, hu, rfl, -⟩ := literal?_split hliteral
    rw [List.drop_left] at ih
    obtain ⟨a, b, rfl, rfl, hlast, hhead⟩ := ih
    refine ⟨u ++ a, b, by simp, by simp; omega, ?_, hhead⟩
    obtain ⟨w, d, rfl⟩ := List.eq_nil_or_concat u |>.resolve_left hu
    rw [Pattern.getLast?_append_or, ← hlast]
    simp
  | @interpolation prev pos r start inner prev' p text' hi h ih =>
    obtain ⟨a, b, rfl, rfl, hopen, hclose⟩ := hi.braced
    obtain ⟨a', b', rfl, rfl, hlast, hhead⟩ := ih
    refine ⟨'`' :: (a ++ a'), b' ++ b, by simp, by simp; omega, ?_, ?_⟩
    · rw [← hlast, Pattern.getLast?_cons_or, Pattern.getLast?_append_or, hopen]
      cases a'.getLast? <;> rfl
    · rw [List.head?_append, hclose]
      cases hb : b'.head? with
      | none => rfl
      | some d => simpa [hb] using hhead

theorem Occurs.standsAlone {expr w : List Char} {p : ℕ} (h : Occurs expr w p) :
    ∃ a rest, expr = a ++ (w ++ rest) ∧ p = a.length ∧ standsAlone w a (w ++ rest) = true := by
  obtain ⟨prev, text, rest, hreads, heq, hbefore, hafter⟩ := h
  obtain ⟨a, b, hexpr, hp, hlast, hhead⟩ := hreads.between
  refine ⟨a, rest ++ b, by simp [hexpr, heq], by omega, standsAlone_iff.2 ⟨rest ++ b, rfl, ?_, ?_⟩⟩
  · rw [Option.or_none] at hlast
    rw [hlast]
    simpa using hbefore
  · rw [List.head?_append]
    cases hrest : rest.head? with
    | none => exact hhead
    | some d => simpa [hrest] using hafter

/-- A name that the scan finds is counted as a whole word. -/
theorem Occurs.countWord_pos {expr w : List Char} {p : ℕ} (h : Occurs expr w p) (hw : isRun w = true) :
    0 < countWord expr w := by
  obtain ⟨a, rest, hexpr, -, hstands⟩ := h.standsAlone
  have hne := ne_nil_of_isRun hw
  rw [countWord_eq hne (all_isIdentChar_of_isRun hw)]
  exact countPlaces_pos hexpr (by simp [hne]) hstands

/-! ### Code -/

/-- Up to a place outside all templates the scan finds names in code, if no tick before that place stands
inside an interpolation. -/
theorem Occurs.inCode {expr w : List Char} {p q : ℕ} (h : Occurs expr w p) (hw : isRun w = true) (hpq : p ≤ q)
    (houtside : (placeAt expr q).frames = []) (hticks : ¬ TickInside expr q) : (placeAt expr p).inCode = true := by
  obtain ⟨prev, text, rest, hreads, halone⟩ := h
  have hne : text ≠ [] := by
    rw [halone.eq]
    simp [ne_nil_of_isRun hw]
  have hp : p = (expr.take p).length := by
    obtain ⟨a, b, rfl, rfl⟩ := hreads.split
    simp
  have htake : expr.take q = expr.take p ++ (expr.drop p).take (q - p) := by
    rw [← List.take_add, Nat.add_sub_cancel' hpq]
  have hdrop : expr.drop p = (expr.drop p).take (q - p) ++ expr.drop q := by
    conv_lhs => rw [← List.take_append_drop (q - p) (expr.drop p), List.drop_drop, Nat.add_sub_cancel' hpq]
  have hclear : (⟨[], 0⟩ : Place).Clear none (expr.take q) (expr.drop q) :=
    ⟨tickFree_of_not_tickInside hticks, houtside⟩
  rw [htake] at hclear
  have hend := hreads.inCode hne (.outside rfl rfl) rfl (List.take_append_drop p expr).symm
    (hp.trans (Nat.zero_add _).symm) ((List.append_nil _).trans hdrop) hclear
  rwa [List.append_nil] at hend

theorem mem_ofExpr_iff_identifier {expr w : List Char} :
    w ∈ ofExpr expr ↔ isIdentifier w = true ∧ w.head?.any Char.isUpper = false ∧ w ∉ ambient ∧ ¬ Seen expr w ∧
      ∃ p, UsedAt expr w p := by
  rw [mem_ofExpr_iff, Bool.not_eq_true]
  constructor
  · rintro ⟨hrun, hambient, hcapital, hseen, hused⟩
    exact ⟨isIdentifier_of_isRun hrun, hcapital, hambient, hseen, hused⟩
  · rintro ⟨hname, hcapital, hambient, hseen, hused⟩
    exact ⟨isRun_of_isIdentifier hname, hambient, hcapital, hseen, hused⟩

/-- The names in a dependency list are distinct. They are the identifiers without a capital that are used, not
always there, and not seen to be bound; each is counted in the expression. A place of use is in code, unless a
tick stands inside an interpolation up to where the reading is outside all templates. -/
theorem ofExpr_wellFormed (expr : List Char) :
    (ofExpr expr).Nodup ∧
      (∀ w, w ∈ ofExpr expr ↔ isIdentifier w = true ∧ w.head?.any Char.isUpper = false ∧ w ∉ ambient ∧
        ¬ Seen expr w ∧ ∃ p, UsedAt expr w p) ∧
      ∀ w ∈ ofExpr expr, 1 ≤ countWord expr w ∧
        ∀ p q, UsedAt expr w p → p ≤ q → (placeAt expr q).frames = [] →
          (placeAt expr p).inCode = true ∨ TickInside expr q := by
  refine ⟨nodup_ofExpr expr, fun w => mem_ofExpr_iff_identifier, fun w hw => ?_⟩
  obtain ⟨hname, -, -, -, p, hused⟩ := mem_ofExpr_iff_identifier.1 hw
  have hrun := isRun_of_isIdentifier hname
  refine ⟨hused.occurs.countWord_pos hrun, fun p q hp hpq houtside => ?_⟩
  by_cases hticks : TickInside expr q
  · exact .inr hticks
  · exact .inl (hp.occurs.inCode hrun hpq houtside hticks)

def greeting : List Char := "() => say(`hi $\x7bon ? `dear $\x7bname\x7d` : ''\x7d`)".toList

theorem tokens_greeting : tokens greeting =
    [⟨"say".toList, 6, 9⟩, ⟨"on".toList, 16, 18⟩, ⟨"name".toList, 29, 33⟩, ⟨"dear".toList, 22, 26⟩,
      ⟨"$".toList, 27, 28⟩, ⟨"name".toList, 29, 33⟩] := by cbv

/-- The text of a template in an interpolation is listed: the scan ends the outer template at the tick that
begins the inner one. -/
theorem dear_mem_ofExpr_greeting :
    "dear".toList ∈ ofExpr greeting ∧ UsedAt greeting "dear".toList 22 ∧
      (placeAt greeting 22).inCode = false ∧ TickInside greeting greeting.length := by
  have hcode : (placeAt greeting 22).inCode = false := by decide
  have houtside : (placeAt greeting greeting.length).frames = [] := by decide
  have hused : UsedAt greeting "dear".toList 22 :=
    ⟨occurs_of_mem_tokens (by rw [tokens_greeting]; decide), by decide, by decide⟩
  have hseen : ¬ Seen greeting "dear".toList := by
    rw [← mem_bound_iff rfl, tokens_greeting]
    decide +kernel
  obtain ⟨-, hlisted, hplaces⟩ := ofExpr_wellFormed greeting
  have hmem := (hlisted "dear".toList).2 ⟨rfl, rfl, by decide, hseen, 22, hused⟩
  have htick := ((hplaces _ hmem).2 22 greeting.length hused (by decide) houtside).resolve_left (by simp [hcode])
  exact ⟨hmem, hused, hcode, htick⟩

end Recast.FreeNames
