import Recast.Text.Statement
import Recast.Proofs.Text.Dedent
import Recast.Proofs.Text.TopLevel

/-!
# Extents of statements

A block of code is read from one extent to the next, by byte offsets. An extent ends behind a semicolon,
before a line feed or before a closing bracket, all of them outside literals, or with the code. So behind
it the code is scanned as a text of its own (`exists_firstExtent`). A bracket that closes nothing ends a
statement before it has begun. Then one byte is taken, which is all of the bracket.

What is passed over is blank or a semicolon, and dedenting deletes blanks only, so no other character
is lost (`read_loses_nothing`).
-/

namespace Recast.Text

/-! ### Ends of statements -/

/-- Cut behind a character of code, a text is scanned up to there as before. -/
theorem mark_through {prev : Option Char} {text : List Char} {m m' : Marked} {c : Char}
    (h : markAfter prev text = m ++ (c, .code) :: m') :
    markAfter prev (m.map Prod.fst ++ [c]) = m ++ [(c, .code)] := by
  have hcode := literal?_eq_none_of_append (r := []) (mark_code_split h).1
  rw [mark_cut h ⟨m'.map Prod.fst, rfl⟩, markAfter, mark_code hcode]
  rfl

theorem markAfter_alike {prev prev' : Option Char} {text : List Char} (h : Alike prev prev' text) :
    markAfter prev' text = markAfter prev text := by
  cases text with
  | nil => rfl
  | cons c r =>
    unfold markAfter
    rw [markFrom, markFrom, literal?_alike h]

/-- Of a text that begins inside `depth` brackets, the first `n` characters are all, or they end where
these and all others are closed: before a closing bracket or a line feed, or behind a semicolon. -/
def EndsAt (depth : Nat) (m : Marked) (n : Nat) : Prop :=
  n = m.length ∨ ∃ (m₁ : Marked) (c : Char) (m₂ : Marked), m = m₁ ++ (c, .code) :: m₂ ∧
    (depth : Int) + m₁.depth = 0 ∧
      (n = m₁.length ∧ (isCloser c = true ∨ c = '\n') ∨ n = m₁.length + 1 ∧ c = ';')

theorem EndsAt.cons {depth d n : Nat} {x : Char × Label} {m : Marked} (h : EndsAt d m n)
    (hd : (d : Int) = depth + Marked.depth [x]) : EndsAt depth (x :: m) (n + 1) := by
  rcases h with rfl | ⟨m₁, c, m₂, rfl, hdepth, hn⟩
  · exact .inl rfl
  · refine .inr ⟨x :: m₁, c, m₂, rfl, ?_, ?_⟩
    · rwa [depth_cons, ← Int.add_assoc, ← hd]
    · rwa [List.length_cons, Nat.add_right_cancel_iff, Nat.add_right_cancel_iff]

theorem endsAt_statementLengthFrom (depth : Nat) (last : Option Char) (m : Marked) :
    EndsAt depth m (statementLengthFrom depth last m) := by
  induction m generalizing depth last with
  | nil => exact .inl rfl
  | cons x m ih =>
    obtain ⟨c, l⟩ := x
    by_cases hl : l = .code
    · subst hl
      have hdepth := depth_code c
      rw [statementLengthFrom, if_neg (by decide)]
      split
      · rename_i ho
        refine (ih (depth + 1) (some c)).cons ?_
        simp [hdepth, ho, isCloser_of_isOpener ho]
      rename_i ho
      split
      · rename_i hc
        split
        · rename_i hd
          exact .inr ⟨[], c, m, rfl, by simpa using hd, .inl ⟨rfl, .inl hc⟩⟩
        · rename_i hd
          have hd : depth ≠ 0 := by simpa using hd
          refine (ih (depth - 1) (some c)).cons ?_
          simp only [hdepth, ho, hc, if_true, Bool.false_eq_true, if_false]
          omega
      rename_i hc
      have hsame : (depth : Int) = depth + Marked.depth [(c, .code)] := by simp [hdepth, ho, hc]
      split
      · rename_i h
        simp only [Bool.and_eq_true, beq_iff_eq] at h
        obtain ⟨rfl, rfl⟩ := h
        exact .inr ⟨[], ';', m, rfl, rfl, .inr ⟨rfl, rfl⟩⟩
      split
      · rename_i h
        simp only [Bool.and_eq_true, beq_iff_eq] at h
        obtain ⟨⟨⟨rfl, rfl⟩, -⟩, -⟩ := h
        exact .inr ⟨[], '\n', m, rfl, rfl, .inl ⟨rfl, .inr rfl⟩⟩
      · exact (ih depth _).cons hsame
    · rw [statementLengthFrom, if_pos (by simpa using hl)]
      exact (ih depth (some c)).cons (by rw [depth_of_ne_code hl, Int.add_zero])

/-! ### Bytes -/

theorem length_utf8 (text : List Char) : (utf8 text).length = byteLength text := by
  induction text with
  | nil => rfl
  | cons c r ih => rw [utf8_cons, List.length_append, String.length_utf8EncodeChar, ih, byteLength]

theorem getElem?_utf8_append (before : List Char) (c : Char) (r : List Char) :
    (utf8 (before ++ c :: r))[byteLength before]? = (String.utf8EncodeChar c)[0]? := by
  have hpos : 0 < (String.utf8EncodeChar c).length := by
    rw [String.length_utf8EncodeChar]
    exact c.utf8Size_pos
  have hsplit : utf8 (before ++ c :: r) = utf8 before ++ utf8 (c :: r) := List.flatMap_append
  rw [hsplit, List.getElem?_append_right (Nat.le_of_eq (length_utf8 before)), length_utf8, Nat.sub_self,
    utf8_cons, List.getElem?_append_left hpos]

theorem statementEndAt_append (before : List Char) (c : Char) (r : List Char) :
    statementEndAt (before ++ c :: r) (byteLength before) =
      byteLength before + byteLength ((c :: r).take (statementLength before.getLast? (c :: r))) := by
  unfold statementEndAt
  simp only [positionAt_append, getElem?_charBefore, List.drop_left, byteOffset_append]

end Recast.Text

namespace Recast.Statements

open Text

/-- The byte is an ASCII blank or a semicolon. -/
def passes (b : UInt8) : Bool := [9, 10, 12, 13, 32, 59].contains b.toNat

/-- The loop over the bytes of the code takes the extents, from the offset `i` on. It ends past the last
byte, it goes over blanks and semicolons byte by byte, and from any other byte it takes a statement, but
no less than that byte. -/
inductive Takes (code : List Char) : (i : Nat) → (extents : List (Nat × Nat)) → Prop
  | done {i} (hend : (utf8 code).length ≤ i) : Takes code i []
  | pass {i b extents} (hb : (utf8 code)[i]? = some b) (hpass : passes b = true)
      (h : Takes code (i + 1) extents) : Takes code i extents
  | take {i b extents} (hb : (utf8 code)[i]? = some b) (hpass : passes b = false)
      (h : Takes code (max (statementEndAt code i) (i + 1)) extents) :
      Takes code i ((i, max (statementEndAt code i) (i + 1)) :: extents)

theorem Takes.unique {code : List Char} {i : Nat} {extents extents' : List (Nat × Nat)}
    (h : Takes code i extents) (h' : Takes code i extents') : extents' = extents := by
  have hnone {i : Nat} {b : UInt8} (hend : (utf8 code).length ≤ i) (hb : (utf8 code)[i]? = some b) : False := by
    rw [List.getElem?_eq_none hend] at hb
    cases hb
  have hboth {i : Nat} {b b' : UInt8} (hb : (utf8 code)[i]? = some b) (hb' : (utf8 code)[i]? = some b')
      (hpass : passes b = true) (hpass' : passes b' = false) : False := by
    rw [hb, Option.some.injEq] at hb'
    rw [← hb', hpass] at hpass'
    cases hpass'
  induction h generalizing extents' with
  | done hend =>
    cases h' with
    | done => rfl
    | pass hb => exact (hnone hend hb).elim
    | take hb => exact (hnone hend hb).elim
  | pass hb hpass _ ih =>
    cases h' with
    | done hend => exact (hnone hend hb).elim
    | pass _ _ h' => exact ih h'
    | take hb' hpass' => exact (hboth hb hb' hpass hpass').elim
  | take hb hpass _ ih =>
    cases h' with
    | done hend => exact (hnone hend hb).elim
    | pass hb' hpass' => exact (hboth hb' hb hpass' hpass).elim
    | take _ _ h' => rw [ih h']

/-- The bytes of the extent are the characters of `piece`. The scan of the code sees these as it sees a
text of their own. They close their brackets, unless they run to the end of the code or are a bracket that
closes nothing. -/
structure IsExtent (code : List Char) (extent : Nat × Nat) (piece : List Char) : Prop where
  covers : ∃ before after : Marked, mark code = before ++ (mark piece ++ after) ∧
    extent.1 = byteLength (before.map Prod.fst) ∧
    extent.2 = byteLength (before.map Prod.fst) + byteLength piece
  level : (mark piece).depth = 0 ∨ extent.2 = byteLength code ∨ ∃ b, piece = [Bracket.closer b]

/-- The characters that are neither blank nor a semicolon. -/
def kept (text : List Char) : List Char := text.filter fun c => !isBlank c && c != ';'

theorem kept_eq (text : List Char) : kept text = (ink text).filter (· != ';') := by
  rw [kept, ink, List.filter_filter]
  refine List.filter_congr fun c _ => ?_
  rw [Bool.and_comm]

theorem kept_append (u v : List Char) : kept (u ++ v) = kept u ++ kept v := List.filter_append ..

theorem kept_dedent (text : List Char) : kept (dedent text) = kept text := by
  rw [kept_eq, kept_eq, ink_dedent]

/-- The first byte of a character tells whether it is one of those that are passed over. -/
theorem passes_head (c : Char) : ∃ b bs, String.utf8EncodeChar c = b :: bs ∧
    passes b = (isAsciiBlank c || c == ';') := by
  have heq (d : Char) : (c == d) = (c.val.toNat == d.val.toNat) := by
    rw [Bool.eq_iff_iff, beq_iff_eq, beq_iff_eq]
    exact ⟨fun h => by rw [h], fun h => Char.ext (UInt32.toNat_inj.1 h)⟩
  have hchar : (isAsciiBlank c || c == ';') = [9, 10, 12, 13, 32, 59].contains c.val.toNat := by
    simp only [isAsciiBlank, heq, List.contains_cons, List.contains_nil, Bool.or_false]
    rw [Bool.eq_iff_iff]
    simp only [Bool.or_eq_true, beq_iff_eq, Char.reduceVal, UInt32.reduceToNat]
    omega
  have hlong {n : Nat} (hn : n < 256) (hlead : 128 ≤ n) (hc : 127 < c.val.toNat) :
      passes (UInt8.ofNat n) = (isAsciiBlank c || c == ';') := by
    rw [hchar, passes, UInt8.toNat_ofNat_of_lt' hn, Bool.eq_iff_iff]
    simp only [List.contains_iff_mem, List.mem_cons, List.not_mem_nil, or_false]
    omega
  unfold String.utf8EncodeChar
  simp only
  split
  · refine ⟨_, [], rfl, ?_⟩
    rw [hchar, passes, UInt8.toNat_ofNat_of_lt' (by omega : c.val.toNat < 256)]
  split
  · exact ⟨_, _, rfl, hlong (by omega) (by omega) (by omega)⟩
  split
  · exact ⟨_, _, rfl, hlong (by omega) (by omega) (by omega)⟩
  · exact ⟨_, _, rfl, hlong (by omega) (by omega) (by omega)⟩

/-! ### One extent -/

/-- From the text behind `prev` the piece is taken, and the rest is read as a text of its own. -/
structure FirstExtent (prev : Option Char) (text piece rest : List Char) : Prop where
  split : text = piece ++ rest
  length : piece.length = firstLength prev text
  bytes : max (byteLength (text.take (statementLength prev text))) 1 = byteLength piece
  scanned : mark text = mark piece ++ mark rest
  behind : Alike none piece.getLast? rest
  level : (mark piece).depth = 0 ∨ rest = [] ∨ ∃ b, piece = [Bracket.closer b]

theorem byteLength_pos {text : List Char} (h : text ≠ []) : 1 ≤ byteLength text := by
  obtain ⟨c, r, rfl⟩ := List.exists_cons_of_ne_nil h
  exact Nat.le_add_right_of_le c.utf8Size_pos

theorem isPlain_closer (b : Bracket) : isPlain b.closer = true := by cases b <;> rfl

theorem isIdentChar_closer (b : Bracket) : isIdentChar b.closer = false := by cases b <;> rfl

theorem utf8Size_closer (b : Bracket) : b.closer.utf8Size = 1 := by cases b <;> rfl

/-- A bracket that closes nothing is taken by itself. -/
theorem firstExtent_closer {prev : Option Char} {b : Bracket} {r : List Char}
    (h : statementLength prev (b.closer :: r) = 0) : FirstExtent prev (b.closer :: r) [b.closer] r where
  split := rfl
  length := by rw [firstLength, h]; rfl
  bytes := by
    rw [h, List.take_zero, byteLength, byteLength, utf8Size_closer]
    rfl
  scanned := by
    have hfresh : markAfter (some b.closer) r = mark r :=
      markAfter_fresh (by simpa using isIdentChar_closer b) r
    have hcode (r : List Char) : mark (b.closer :: r) = (b.closer, .code) :: markAfter (some b.closer) r :=
      mark_code (literal?_of_isPlain (isPlain_closer b) none r)
    rw [hcode, hcode, hfresh]
    rfl
  behind := .inl (by simp [isIdentChar_closer])
  level := .inr (.inr ⟨b, rfl⟩)

theorem exists_firstExtent {prev : Option Char} {c : Char} {r : List Char} (halike : Alike none prev (c :: r))
    (hblank : isAsciiBlank c = false) : ∃ piece rest, FirstExtent prev (c :: r) piece rest := by
  have hends := endsAt_statementLengthFrom 0 none (markAfter prev (c :: r))
  have hlength {n : Nat} (hn : statementLengthFrom 0 none (markAfter prev (c :: r)) = n) :
      statementLength prev (c :: r) = n := hn
  rw [markAfter_alike halike] at hends hlength
  -- A piece that is as long as the statement and not empty has the length and the bytes that are taken.
  have hpiece {piece rest : List Char} (hsplit : c :: r = piece ++ rest)
      (hn : statementLength prev (c :: r) = piece.length) (hne : piece ≠ []) :
      piece.length = firstLength prev (c :: r) ∧
        max (byteLength ((c :: r).take (statementLength prev (c :: r)))) 1 = byteLength piece := by
    have hpos := List.length_pos_iff.2 hne
    have hbytes := byteLength_pos hne
    refine ⟨?_, ?_⟩
    · rw [firstLength, hn]
      omega
    · rw [hn, hsplit, List.take_left]
      omega
  rcases hends with hn | ⟨m₁, d, m₂, hmark, hdepth, hn⟩
  · have hall : (markAfter none (c :: r)).length = (c :: r).length := by
      rw [← List.length_map Prod.fst]
      exact congrArg List.length (map_fst_mark (c :: r))
    rw [hall] at hn
    obtain ⟨hfirst, hbytes⟩ := hpiece (List.append_nil (c :: r)).symm (hlength hn) (List.cons_ne_nil c r)
    exact ⟨c :: r, [], (List.append_nil _).symm, hfirst, hbytes, (List.append_nil _).symm,
      .inr (by simp), .inr (.inl rfl)⟩
  · have htext := eq_append_of_markAfter hmark
    obtain ⟨hbefore, hafter⟩ := mark_split hmark
    have hdepth : m₁.depth = 0 := by simpa using hdepth
    rcases hn with ⟨hn, hd⟩ | ⟨hn, rfl⟩
    · cases m₁ with
      | nil =>
        obtain ⟨rfl, -⟩ := List.cons.inj htext
        obtain ⟨b, hb⟩ : ∃ b : Bracket, c = b.closer := by
          rcases hd with hd | rfl
          · exact (Option.isSome_iff_exists.1 hd).imp fun _ => eq_closer_of_ofCloser?
          · cases hblank
        subst hb
        exact ⟨_, _, firstExtent_closer (hlength hn)⟩
      | cons x m₁ =>
        have hplain : isPlain d = true := by
          rcases hd with hd | rfl
          · obtain ⟨b, hb⟩ := Option.isSome_iff_exists.1 hd
            rw [eq_closer_of_ofCloser? hb, isPlain_closer]
          · rfl
        have hpart : mark ((x :: m₁).map Prod.fst) = x :: m₁ := hbefore
        obtain ⟨hfirst, hbytes⟩ := hpiece htext (by rw [hlength hn, List.length_map]) (by simp)
        refine ⟨_, _, htext, hfirst, hbytes, ?_, .inr ?_, .inl ?_⟩
        · have hrest : mark (d :: m₂.map Prod.fst) = (d, .code) :: m₂ :=
            (mark_code (literal?_of_isPlain hplain none _)).trans (congrArg _ hafter)
          rw [hrest, hpart]
          exact hmark
        · simp only [isPlain, Bool.and_eq_true, bne_iff_ne] at hplain
          simp [hplain]
        · rw [hpart, hdepth]
    · have hsplit : c :: r = (m₁.map Prod.fst ++ [';']) ++ m₂.map Prod.fst := by rw [htext]; simp
      have hpart : mark (m₁.map Prod.fst ++ [';']) = m₁ ++ [(';', .code)] := mark_through hmark
      obtain ⟨hfirst, hbytes⟩ := hpiece hsplit (by rw [hlength hn]; simp) (by simp)
      refine ⟨_, _, hsplit, hfirst, hbytes, ?_, .inl ?_, .inl ?_⟩
      · rw [markAfter_fresh rfl] at hafter
        rw [hpart, hafter, List.append_assoc]
        exact hmark
      · rw [List.getLast?_concat]
        rfl
      · rw [hpart, depth_append, hdepth]
        rfl

/-! ### All extents -/

theorem passed_char {c : Char} (h : (isAsciiBlank c || c == ';') = true) : isPlain c = true ∧
    isIdentChar c = false ∧ c.utf8Size = 1 ∧ kept [c] = [] := by
  simp only [isAsciiBlank, Bool.or_eq_true, beq_iff_eq] at h
  rcases h with ((((rfl | rfl) | rfl) | rfl) | rfl) | rfl <;> decide

theorem readFrom_pass {prev : Option Char} {c : Char} {r : List Char}
    (h : (isAsciiBlank c || c == ';') = true) : readFrom prev (c :: r) = readFrom (some c) r := by
  rw [readFrom, if_pos h]

theorem readFrom_take {prev : Option Char} {c : Char} {r piece rest : List Char}
    (h : FirstExtent prev (c :: r) piece rest) (hc : (isAsciiBlank c || c == ';') = false) :
    readFrom prev (c :: r) = [dedent piece].filter (!·.isEmpty) ++ readFrom piece.getLast? rest := by
  have htake : (c :: r).take (firstLength prev (c :: r)) = piece := by
    rw [← h.length, h.split, List.take_left]
  have hdrop : (c :: r).drop (firstLength prev (c :: r)) = rest := by
    rw [← h.length, h.split, List.drop_left]
  rw [readFrom, if_neg (by rw [hc]; decide)]
  simp only [htake, hdrop]
  cases hempty : (dedent piece).isEmpty with
  | true => simp [hempty]
  | false => simp [hempty]

/-- Between `before` and `rest` the code is at a place behind which the scan sees a text of its own. -/
structure Place (code before rest : List Char) : Prop where
  scanned : ∃ m : Marked, mark code = m ++ mark rest ∧ m.map Prod.fst = before
  behind : Alike none before.getLast? rest

theorem Place.split {code before rest : List Char} (h : Place code before rest) : code = before ++ rest := by
  obtain ⟨m, hmark, hbefore⟩ := h.scanned
  rw [← map_fst_mark code, hmark, List.map_append, hbefore, map_fst_mark]

/-- From the place on the loop takes the extents, and reading gives what is left of them. -/
structure Run (code before rest : List Char) (extents : List (Nat × Nat)) (pieces : List (List Char)) :
    Prop where
  takes : Takes code (byteLength before) extents
  extents : List.Forall₂ (IsExtent code) extents pieces
  read : readFrom before.getLast? rest = (pieces.map dedent).filter (!·.isEmpty)
  kept : kept pieces.flatten = kept rest

section

variable {code before : List Char} {c : Char} {r : List Char}

theorem Place.byte (h : Place code before (c :: r)) :
    ∃ b, (utf8 code)[byteLength before]? = some b ∧ passes b = (isAsciiBlank c || c == ';') := by
  obtain ⟨b, bs, hhead, hpass⟩ := passes_head c
  refine ⟨b, ?_, hpass⟩
  rw [h.split, getElem?_utf8_append, hhead]
  rfl

theorem Place.pass (h : Place code before (c :: r)) (hc : (isAsciiBlank c || c == ';') = true) :
    Place code (before ++ [c]) r := by
  obtain ⟨m, hmark, hbefore⟩ := h.scanned
  obtain ⟨hplain, hname, -⟩ := passed_char hc
  have hrest : mark (c :: r) = (c, .code) :: mark r := by
    have hfresh : markAfter (some c) r = mark r := markAfter_fresh (by simpa using hname) r
    rw [← hfresh]
    exact mark_code (literal?_of_isPlain hplain none r)
  refine ⟨⟨m ++ [(c, .code)], by rw [hmark, hrest, List.append_assoc]; rfl, ?_⟩, .inl ?_⟩
  · rw [List.map_append, hbefore]
    rfl
  · rw [List.getLast?_concat]
    simp [hname]

theorem Run.pass (h : Place code before (c :: r)) (hc : (isAsciiBlank c || c == ';') = true)
    {extents : List (Nat × Nat)} {pieces : List (List Char)} (hrun : Run code (before ++ [c]) r extents pieces) :
    Run code before (c :: r) extents pieces := by
  obtain ⟨-, -, hsize, hkept⟩ := passed_char hc
  obtain ⟨b, hb, hpass⟩ := h.byte
  have hnext : byteLength (before ++ [c]) = byteLength before + 1 := by
    rw [byteLength_append, byteLength, byteLength, hsize]
  refine ⟨.pass hb (hpass.trans hc) (hnext ▸ hrun.takes), hrun.extents, ?_, ?_⟩
  · have hread := hrun.read
    have hstep : readFrom before.getLast? (c :: r) = readFrom (some c) r := readFrom_pass hc
    rwa [List.getLast?_concat, ← hstep] at hread
  · have hcons : Statements.kept (c :: r) = Statements.kept [c] ++ Statements.kept r := kept_append [c] r
    rw [hrun.kept, hcons, hkept, List.nil_append]

variable {piece rest : List Char} (hfirst : FirstExtent before.getLast? (c :: r) piece rest)

include hfirst

theorem FirstExtent.ne_nil : piece ≠ [] := by
  rintro rfl
  have hbytes := hfirst.bytes
  rw [byteLength] at hbytes
  omega

theorem FirstExtent.getLast?_append : (before ++ piece).getLast? = piece.getLast? := by
  rw [List.getLast?_append, List.getLast?_eq_some_getLast hfirst.ne_nil]
  rfl

theorem Place.take (h : Place code before (c :: r)) : Place code (before ++ piece) rest := by
  obtain ⟨m, hmark, hbefore⟩ := h.scanned
  refine ⟨⟨m ++ mark piece, by rw [hmark, hfirst.scanned, List.append_assoc], ?_⟩, ?_⟩
  · rw [List.map_append, hbefore, map_fst_mark]
  · rw [hfirst.getLast?_append]
    exact hfirst.behind

/-- The loop goes on where the extent ends, which is where a character begins. -/
theorem Place.end_eq (h : Place code before (c :: r)) :
    max (statementEndAt code (byteLength before)) (byteLength before + 1) = byteLength (before ++ piece) := by
  rw [h.split, statementEndAt_append, byteLength_append, ← hfirst.bytes]
  omega

theorem Place.isExtent (h : Place code before (c :: r)) :
    IsExtent code (byteLength before, byteLength (before ++ piece)) piece := by
  obtain ⟨m, hmark, hbefore⟩ := h.scanned
  refine ⟨⟨m, mark rest, by rw [hmark, hfirst.scanned], by rw [hbefore], by rw [hbefore, byteLength_append]⟩, ?_⟩
  refine hfirst.level.imp_right (Or.imp_left ?_)
  rintro rfl
  rw [h.split, hfirst.split, List.append_nil]

theorem Run.take (h : Place code before (c :: r)) (hc : (isAsciiBlank c || c == ';') = false)
    {extents : List (Nat × Nat)} {pieces : List (List Char)}
    (hrun : Run code (before ++ piece) rest extents pieces) :
    Run code before (c :: r) ((byteLength before, byteLength (before ++ piece)) :: extents)
      (piece :: pieces) := by
  obtain ⟨b, hb, hpass⟩ := h.byte
  have hend := h.end_eq hfirst
  refine ⟨?_, .cons (h.isExtent hfirst) hrun.extents, ?_, ?_⟩
  · have htakes := hrun.takes
    rw [← hend] at htakes ⊢
    exact .take hb (hpass.trans hc) htakes
  · have hread := hrun.read
    rw [hfirst.getLast?_append] at hread
    rw [readFrom_take hfirst hc, hread, List.map_cons, ← List.filter_append]
    rfl
  · rw [List.flatten_cons, kept_append, hrun.kept, hfirst.split, kept_append]

end

/-- From any place on the loop comes to its end. -/
theorem exists_run {code before rest : List Char} (h : Place code before rest) :
    ∃ extents pieces, Run code before rest extents pieces := by
  -- The loop goes on behind the extent, so the induction is on the length of the rest.
  induction hn : rest.length using Nat.strongRecOn generalizing before rest with
  | _ n ih =>
    cases rest with
    | nil =>
      refine ⟨[], [], .done ?_, .nil, by rw [readFrom]; rfl, rfl⟩
      rw [length_utf8, h.split, List.append_nil]
    | cons c r =>
      cases hc : isAsciiBlank c || c == ';' with
      | true =>
        obtain ⟨extents, pieces, hrun⟩ := ih r.length (by simp [← hn]) (h.pass hc) rfl
        exact ⟨extents, pieces, hrun.pass h hc⟩
      | false =>
        obtain ⟨piece, rest, hfirst⟩ := exists_firstExtent h.behind (Bool.or_eq_false_iff.1 hc).1
        have hlt : rest.length < n := by
          have hpos := List.length_pos_iff.2 hfirst.ne_nil
          rw [← hn, hfirst.split, List.length_append]
          omega
        obtain ⟨extents, pieces, hrun⟩ := ih rest.length hlt (h.take hfirst) rfl
        exact ⟨_, _, hrun.take hfirst h hc⟩

/-- What dedenting leaves of the pieces has their characters, and dropping what is empty drops none. -/
theorem kept_statements (pieces : List (List Char)) :
    kept ((pieces.map dedent).filter (!·.isEmpty)).flatten = kept pieces.flatten := by
  rw [List.flatten_filter_not_isEmpty]
  induction pieces with
  | nil => rfl
  | cons piece pieces ih =>
    rw [List.map_cons, List.flatten_cons, List.flatten_cons, kept_append, kept_append, kept_dedent, ih]

/-- The loop over the bytes of the code comes to an end and takes one sequence of extents. Each of them is
a piece of the text. The statements are the pieces, dedented, without those of which nothing is left, and
they hold the characters of the code but for blanks and semicolons. -/
theorem read_loses_nothing (code : List Char) :
    ∃ extents pieces, Takes code 0 extents ∧ (∀ extents', Takes code 0 extents' → extents' = extents) ∧
      List.Forall₂ (IsExtent code) extents pieces ∧
      read code = (pieces.map dedent).filter (!·.isEmpty) ∧
      kept (read code).flatten = kept code ∧
      ∀ statement ∈ read code, isBlankText statement = false := by
  have hplace : Place code [] code := ⟨⟨[], rfl, rfl⟩, .inl rfl⟩
  obtain ⟨extents, pieces, hrun⟩ := exists_run hplace
  have hread : read code = (pieces.map dedent).filter (!·.isEmpty) := hrun.read
  refine ⟨extents, pieces, hrun.takes, fun _ h => hrun.takes.unique h, hrun.extents, hread, ?_, ?_⟩
  · rw [hread, kept_statements, hrun.kept]
  · intro statement hmem
    rw [hread] at hmem
    obtain ⟨hmem, hne⟩ := List.mem_filter.1 hmem
    obtain ⟨piece, -, rfl⟩ := List.mem_map.1 hmem
    rw [isBlankText_dedent, Bool.eq_false_iff]
    intro hblank
    rw [dedent_eq_nil_iff.2 hblank] at hne
    cases hne

end Recast.Statements
