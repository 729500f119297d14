import Recast.Proofs.Text.Splitting

/-!
# Nested brackets

The scan of a text passes over literals and comments and meets the brackets between them
(`scans_iff`). A text is balanced exactly if these form a word of the language of nested brackets.
The step from the stack to the grammar is that a stack empties over a word if and only if its
closers cut the word into nested words (`nests_iff_unwinds`).
-/

namespace Recast.Text

/-! ### The brackets that a scan meets -/

def isBracket (c : Char) : Bool := isOpener c || isCloser c

theorem isBracket_opener (b : Bracket) : isBracket b.opener = true := by cases b <;> rfl

theorem isBracket_closer (b : Bracket) : isBracket b.closer = true := by cases b <;> rfl

/-- The brackets outside literals and comments, each with its byte offset, in a marked text that
begins at the offset `p`. -/
def Marked.brackets (p : Nat) : Marked → List (Nat × Char)
  | [] => []
  | (c, l) :: r =>
    if l = .code ∧ isBracket c = true then (p, c) :: Marked.brackets (p + c.utf8Size) r
    else Marked.brackets (p + c.utf8Size) r

/-- The brackets of the text outside literals and comments, each with its byte offset. -/
def brackets (text : List Char) : List (Nat × Char) := (mark text).brackets 0

/-- The scan of the text after the character `prev`, from left to right, passes over literals and
comments and meets the brackets `found`. The text begins at the byte offset `p`. -/
inductive Scans : (prev : Option Char) → (p : Nat) → List Char → (found : List (Nat × Char)) → Prop
  | done {prev p} : Scans prev p [] []
  | pass {prev p u rest l found} (hl : literal? prev (u ++ rest) = some (l, u.length))
      (h : Scans u.getLast? (p + byteLength u) rest found) : Scans prev p (u ++ rest) found
  | bracket {prev p c r found} (hl : literal? prev (c :: r) = none) (hc : isBracket c = true)
      (h : Scans (some c) (p + c.utf8Size) r found) : Scans prev p (c :: r) ((p, c) :: found)
  | other {prev p c r found} (hl : literal? prev (c :: r) = none) (hc : isBracket c = false)
      (h : Scans (some c) (p + c.utf8Size) r found) : Scans prev p (c :: r) found

theorem brackets_append (p : Nat) (m m' : Marked) :
    Marked.brackets p (m ++ m') =
      Marked.brackets p m ++ Marked.brackets (p + byteLength (m.map Prod.fst)) m' := by
  induction m generalizing p with
  | nil => rfl
  | cons x m ih =>
    obtain ⟨c, l⟩ := x
    rw [List.cons_append, Marked.brackets, Marked.brackets, ih, List.map_cons, byteLength, Nat.add_assoc]
    split
    · rfl
    · rfl

theorem map_fst_labelled (u : List Char) (l : Label) : (u.map (·, l)).map Prod.fst = u := by
  simp [Function.comp_def]

theorem brackets_of_ne_code {l : Label} (hl : l ≠ .code) (p : Nat) (u : List Char) :
    Marked.brackets p (u.map (·, l)) = [] := by
  induction u generalizing p with
  | nil => rfl
  | cons c u ih =>
    rw [List.map_cons, Marked.brackets, if_neg (fun h => hl h.1)]
    exact ih _

theorem ne_code_of_literal? {prev : Option Char} {text : List Char} {l : Label} {n : Nat}
    (h : literal? prev text = some (l, n)) : l ≠ .code := by
  rcases label_of_literal? h with rfl | rfl
  · decide
  · decide

theorem brackets_literal {prev : Option Char} {u rest : List Char} {l : Label}
    (h : literal? prev (u ++ rest) = some (l, u.length)) (p : Nat) :
    (markAfter prev (u ++ rest)).brackets p = (markAfter u.getLast? rest).brackets (p + byteLength u) := by
  have hu : u ≠ [] := List.length_pos_iff.1 (FreeNames.literal?_pos h)
  unfold markAfter
  rw [mark_literal hu h, brackets_append, brackets_of_ne_code (ne_code_of_literal? h), map_fst_labelled]
  rfl

theorem brackets_code {prev : Option Char} {c : Char} {r : List Char} (h : literal? prev (c :: r) = none)
    (p : Nat) : (markAfter prev (c :: r)).brackets p =
      if isBracket c = true then (p, c) :: (markAfter (some c) r).brackets (p + c.utf8Size)
      else (markAfter (some c) r).brackets (p + c.utf8Size) := by
  unfold markAfter
  rw [mark_code h, Marked.brackets]
  simp only [true_and]

/-- What the scan meets is what lies outside literals and comments. -/
theorem scans_iff {prev : Option Char} {p : Nat} {text : List Char} {found : List (Nat × Char)} :
    Scans prev p text found ↔ found = (markAfter prev text).brackets p := by
  constructor
  · intro h
    induction h with
    | done => rfl
    | pass hl _ ih => rw [brackets_literal hl, ih]
    | bracket hl hc _ ih => rw [brackets_code hl, if_pos hc, ih]
    | other hl hc _ ih => rw [brackets_code hl, if_neg (by rw [hc]; decide), ih]
  · rintro rfl
    have hliteral {prev : Option Char} {u rest : List Char} {l : Label}
        (hl : literal? prev (u ++ rest) = some (l, u.length))
        (ih : ∀ p, Scans u.getLast? p rest ((markAfter u.getLast? rest).brackets p)) (p : Nat) :
        Scans prev p (u ++ rest) ((markAfter prev (u ++ rest)).brackets p) := by
      rw [brackets_literal hl]
      exact .pass hl (ih _)
    induction prev, text using scan_induction generalizing p with
    | nil prev => exact .done
    | comment prev u rest _ hl ih => exact hliteral hl (fun _ => ih) p
    | quoted prev u rest _ hl ih => exact hliteral hl (fun _ => ih) p
    | code prev c r hl ih =>
      rw [brackets_code hl]
      split
      · rename_i hc
        exact .bracket hl hc ih
      · rename_i hc
        exact .other hl (Bool.eq_false_iff.2 hc) ih

theorem isBracket_of_mem_brackets {p : Nat} {m : Marked} {x : Nat × Char} (h : x ∈ m.brackets p) :
    isBracket x.2 = true := by
  induction m generalizing p with
  | nil => cases h
  | cons y m ih =>
    rw [Marked.brackets] at h
    split at h
    · rename_i hc
      rcases List.mem_cons.1 h with rfl | h
      · exact hc.2
      · exact ih h
    · exact ih h

/-- A stack of open brackets takes no notice of other characters. -/
theorem nests_brackets (st : List Bracket) (p : Nat) (m : Marked) :
    nests st ((m.brackets p).map Prod.snd) = nests st m.code := by
  induction m generalizing st p with
  | nil => rfl
  | cons x m ih =>
    obtain ⟨c, l⟩ := x
    rw [code_cons, Marked.brackets]
    by_cases hl : l = .code
    · rw [if_pos hl]
      by_cases hc : isBracket c = true
      · rw [if_pos ⟨hl, hc⟩, List.map_cons]
        simp only [nests, ih]
      · rw [if_neg fun h => hc h.2, ih]
        simp only [isBracket, isOpener, isCloser, Bool.or_eq_true, not_or, Option.not_isSome_iff_eq_none] at hc
        rw [nests, hc.1, hc.2]
    · rw [if_neg hl, if_neg fun h => hl h.1, ih]

theorem isBalanced_eq_nests (text : List Char) :
    isBalanced text = nests [] ((brackets text).map Prod.snd) := (nests_brackets [] 0 (mark text)).symm

/-! ### The language of nested brackets -/

/-- The words in which each bracket is closed by one of its kind, with a nested word between. -/
inductive Nested : List Char → Prop
  | nil : Nested []
  | enclose (b : Bracket) {u v : List Char} (hu : Nested u) (hv : Nested v) :
      Nested (b.opener :: (u ++ b.closer :: v))

/-- The word closes the brackets in the stack, the innermost first, and is nested in between. -/
def Unwinds : List Bracket → List Char → Prop
  | [], w => Nested w
  | b :: st, w => ∃ u v, w = u ++ b.closer :: v ∧ Nested u ∧ Unwinds st v

theorem Nested.closed {w : List Char} (h : Nested w) : Closed w := by
  induction h with
  | nil => rfl
  | enclose b _ _ hu hv =>
    have henclosed := (hu.enclose b).append hv
    simpa using henclosed

theorem Unwinds.enclose {st : List Bracket} {u v : List Char} (b : Bracket) (hu : Nested u)
    (hv : Unwinds st v) : Unwinds st (b.opener :: (u ++ b.closer :: v)) := by
  cases st with
  | nil => exact Nested.enclose b hu hv
  | cons b' st =>
    obtain ⟨a, r, rfl, ha, hr⟩ := hv
    exact ⟨b.opener :: (u ++ b.closer :: a), r, by simp, Nested.enclose b hu ha, hr⟩

theorem eq_opener_of_ofOpener? {c : Char} {b : Bracket} (h : Bracket.ofOpener? c = some b) : c = b.opener := by
  unfold Bracket.ofOpener? at h
  split at h <;> cases h <;> rfl

theorem eq_closer_of_ofCloser? {c : Char} {b : Bracket} (h : Bracket.ofCloser? c = some b) : c = b.closer := by
  unfold Bracket.ofCloser? at h
  split at h <;> cases h <;> rfl

theorem ofOpener?_closer (b : Bracket) : Bracket.ofOpener? b.closer = none := by cases b <;> rfl

theorem nests_opener (st : List Bracket) (b : Bracket) (r : List Char) :
    nests st (b.opener :: r) = nests (b :: st) r := by
  rw [nests, Bracket.ofOpener?_opener]

theorem nests_closer (st : List Bracket) (b b' : Bracket) (r : List Char) :
    nests (b' :: st) (b.closer :: r) = (b == b' && nests st r) := by
  rw [nests, ofOpener?_closer, Bracket.ofCloser?_closer]

theorem nests_nil_closer (b : Bracket) (r : List Char) : nests [] (b.closer :: r) = false := by
  rw [nests, ofOpener?_closer, Bracket.ofCloser?_closer]

/-- A bracket opens or closes one kind. -/
theorem exists_of_isBracket {c : Char} (h : isBracket c = true) :
    (∃ b : Bracket, c = b.opener) ∨ ∃ b : Bracket, c = b.closer := by
  rcases Bool.or_eq_true_iff.1 h with h | h
  · obtain ⟨b, hb⟩ := Option.isSome_iff_exists.1 h
    exact .inl ⟨b, eq_opener_of_ofOpener? hb⟩
  · obtain ⟨b, hb⟩ := Option.isSome_iff_exists.1 h
    exact .inr ⟨b, eq_closer_of_ofCloser? hb⟩

theorem unwinds_of_nests {st : List Bracket} {w : List Char} (hw : ∀ c ∈ w, isBracket c = true)
    (h : nests st w = true) : Unwinds st w := by
  induction w generalizing st with
  | nil =>
    obtain rfl : st = [] := List.isEmpty_iff.1 h
    exact .nil
  | cons c r ih =>
    obtain ⟨hc, hr⟩ := List.forall_mem_cons.1 hw
    rcases exists_of_isBracket hc with ⟨b, rfl⟩ | ⟨b, rfl⟩
    · rw [nests_opener] at h
      obtain ⟨u, v, rfl, hu, hv⟩ := ih hr h
      exact .enclose b hu hv
    · cases st with
      | nil =>
        rw [nests_nil_closer] at h
        cases h
      | cons b' st =>
        rw [nests_closer, Bool.and_eq_true, beq_iff_eq] at h
        obtain ⟨rfl, h⟩ := h
        exact ⟨[], r, rfl, .nil, ih hr h⟩

theorem nests_of_unwinds {st : List Bracket} {w : List Char} (h : Unwinds st w) : nests st w = true := by
  induction st generalizing w with
  | nil => exact Nested.closed h
  | cons b st ih =>
    obtain ⟨u, v, rfl, hu, hv⟩ := h
    have hskip : nests ([] ++ b :: st) (u ++ b.closer :: v) = nests (b :: st) (b.closer :: v) :=
      nests_append hu.closed _
    rw [List.nil_append] at hskip
    rw [hskip, nests_closer, beq_self_eq_true, Bool.true_and]
    exact ih hv

/-- A stack empties over a word of brackets exactly if its closers cut it into nested words. -/
theorem nests_iff_unwinds {st : List Bracket} {w : List Char} (hw : ∀ c ∈ w, isBracket c = true) :
    nests st w = true ↔ Unwinds st w := ⟨unwinds_of_nests hw, nests_of_unwinds⟩

theorem forall_mem_brackets (p : Nat) (m : Marked) :
    ∀ c ∈ (m.brackets p).map Prod.snd, isBracket c = true := by
  intro c hc
  obtain ⟨x, hx, rfl⟩ := List.mem_map.1 hc
  exact isBracket_of_mem_brackets hx

/-- The scan meets one sequence of brackets, and the text is balanced exactly if that is nested. -/
theorem isBalanced_iff_nested (text : List Char) :
    (∀ found, Scans none 0 text found ↔ found = brackets text) ∧
      (isBalanced text = true ↔ Nested ((brackets text).map Prod.snd)) := by
  refine ⟨fun found => scans_iff, ?_⟩
  rw [isBalanced_eq_nests]
  exact nests_iff_unwinds (forall_mem_brackets 0 (mark text))

end Recast.Text
