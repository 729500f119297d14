import Recast.Proofs.Text.Nesting
import Recast.Text.Offset

/-!
# Counting brackets of one kind

The partner of a bracket is found by counting brackets of its kind alone, from the bracket on.
Counting reads the brackets that the scan meets and nothing else (`closerOffset?_brackets`), and it
ends where the number of open brackets first comes back to zero (`closerOffset?_eq_some_iff`).
-/

namespace Recast.Text

/-! ### Counting one kind -/

theorem opener_inj {b b' : Bracket} (h : b.opener = b'.opener) : b = b' := by
  have hb := Bracket.ofOpener?_opener b
  rw [h, Bracket.ofOpener?_opener] at hb
  exact (Option.some.inj hb).symm

theorem closer_inj {b b' : Bracket} (h : b.closer = b'.closer) : b = b' := by
  have hb := Bracket.ofCloser?_closer b
  rw [h, Bracket.ofCloser?_closer] at hb
  exact (Option.some.inj hb).symm

theorem closer_ne_opener (b b' : Bracket) : b.closer ≠ b'.opener := by
  intro h
  have hb := Bracket.ofOpener?_opener b'
  rw [← h, ofOpener?_closer] at hb
  cases hb

/-- Offset of the bracket that brings `depth` open brackets of the kind `b` down to none. -/
def closerOffset? (b : Bracket) : (depth : Nat) → List (Nat × Char) → Option Nat
  | _, [] => none
  | depth, (p, c) :: r =>
    if c = b.opener then closerOffset? b (depth + 1) r
    else if c = b.closer then
      if depth ≤ 1 then some p else closerOffset? b (depth - 1) r
    else closerOffset? b depth r

section

variable (b : Bracket) (depth p : Nat) (r : List (Nat × Char))

theorem closerOffset?_opener :
    closerOffset? b depth ((p, b.opener) :: r) = closerOffset? b (depth + 1) r := by
  rw [closerOffset?, if_pos rfl]

theorem closerOffset?_closer :
    closerOffset? b depth ((p, b.closer) :: r) = if depth ≤ 1 then some p else closerOffset? b (depth - 1) r := by
  rw [closerOffset?, if_neg (closer_ne_opener b b), if_pos rfl]

variable {b} {c : Char}

theorem closerOffset?_other (ho : c ≠ b.opener) (hc : c ≠ b.closer) :
    closerOffset? b depth ((p, c) :: r) = closerOffset? b depth r := by
  rw [closerOffset?, if_neg ho, if_neg hc]

end

/-- Counting reads nothing but the brackets. -/
theorem closerOffset?_brackets (b : Bracket) (depth p : Nat) (m : Marked) :
    closerOffset? b depth (m.brackets p) =
      (closerIndex? b depth m).map fun i => p + byteLength ((m.take i).map Prod.fst) := by
  induction m generalizing depth p with
  | nil => rfl
  | cons x m ih =>
    obtain ⟨c, l⟩ := x
    -- The character is passed over, and the rest is read with the count that it leaves.
    have hlater (d : Nat) : closerOffset? b d (Marked.brackets (p + c.utf8Size) m) =
        ((closerIndex? b d m).map (· + 1)).map fun i => p + byteLength (((c, l) :: m).take i |>.map Prod.fst) := by
      rw [ih, Option.map_map]
      refine congrArg (Option.map · _) (funext fun i => ?_)
      simp only [Function.comp, List.take_succ_cons, List.map_cons, byteLength, Nat.add_assoc]
    by_cases hl : l = .code
    · subst hl
      by_cases ho : c = b.opener
      · subst ho
        rw [Marked.brackets, if_pos ⟨rfl, isBracket_opener b⟩, closerOffset?_opener, hlater]
        simp [closerIndex?]
      · by_cases hc : c = b.closer
        · subst hc
          rw [Marked.brackets, if_pos ⟨rfl, isBracket_closer b⟩, closerOffset?_closer, hlater]
          by_cases hd : depth ≤ 1
          · simp [closerIndex?, ho, hd, byteLength]
          · simp [closerIndex?, ho, hd]
        · have hrest : closerIndex? b depth ((c, .code) :: m) = (closerIndex? b depth m).map (· + 1) := by
            simp [closerIndex?, ho, hc]
          rw [Marked.brackets, hrest, ← hlater]
          split
          · rw [closerOffset?_other _ _ _ ho hc]
          · rfl
    · have hrest : closerIndex? b depth ((c, l) :: m) = (closerIndex? b depth m).map (· + 1) := by
        simp [closerIndex?, hl]
      rw [Marked.brackets, if_neg fun h => hl h.1, hrest, hlater]

/-- By how much the brackets raise the number of open brackets of the kind `b`. -/
def rise (b : Bracket) (found : List (Nat × Char)) : Int :=
  found.countP (·.2 == b.opener) - found.countP (·.2 == b.closer)

/-- With `depth` brackets of the kind `b` open, the first closer of that kind that leaves none open
is the one at the offset `c`. Before it there is always one open. -/
def ReturnsAt (b : Bracket) (depth : Int) (found : List (Nat × Char)) (c : Nat) : Prop :=
  ∃ upto later, found = upto ++ (c, b.closer) :: later ∧ depth + rise b (upto ++ [(c, b.closer)]) = 0 ∧
    ∀ v, v <+: upto → 0 < depth + rise b v

theorem rise_append (b : Bracket) (u v : List (Nat × Char)) : rise b (u ++ v) = rise b u + rise b v := by
  simp only [rise, List.countP_append, Int.natCast_add]
  omega

theorem rise_cons (b : Bracket) (x : Nat × Char) (v : List (Nat × Char)) :
    rise b (x :: v) = rise b [x] + rise b v := rise_append b [x] v

theorem rise_opener (b : Bracket) (p : Nat) : rise b [(p, b.opener)] = 1 := by
  cases b <;> rfl

theorem rise_closer (b : Bracket) (p : Nat) : rise b [(p, b.closer)] = -1 := by
  cases b <;> rfl

theorem rise_other {b : Bracket} {c : Char} (ho : c ≠ b.opener) (hc : c ≠ b.closer) (p : Nat) :
    rise b [(p, c)] = 0 := by
  simp [rise, ho, hc]

theorem not_returnsAt_nil (b : Bracket) (depth : Int) (c : Nat) : ¬ ReturnsAt b depth [] c := by
  rintro ⟨upto, later, h, -⟩
  cases upto <;> cases h

theorem returnsAt_cons {b : Bracket} {depth : Int} {x : Nat × Char} {r : List (Nat × Char)} {c : Nat} :
    ReturnsAt b depth (x :: r) c ↔
      x = (c, b.closer) ∧ depth = 1 ∨ 0 < depth ∧ ReturnsAt b (depth + rise b [x]) r c := by
  have hzero : rise b [] = 0 := rfl
  constructor
  · rintro ⟨upto, later, hfound, hc, hpos⟩
    have hdepth := hpos [] List.nil_prefix
    cases upto with
    | nil =>
      obtain ⟨rfl, -⟩ := List.cons.inj hfound
      rw [List.nil_append, rise_closer] at hc
      exact .inl ⟨rfl, by omega⟩
    | cons y upto =>
      obtain ⟨rfl, hr⟩ := List.cons.inj hfound
      rw [List.cons_append, rise_cons] at hc
      refine .inr ⟨by omega, upto, later, hr, by omega, fun v hv => ?_⟩
      have hx := hpos (x :: v) (List.cons_prefix_cons.2 ⟨rfl, hv⟩)
      rw [rise_cons] at hx
      omega
  · rintro (⟨rfl, rfl⟩ | ⟨hdepth, upto, later, rfl, hc, hpos⟩)
    · refine ⟨[], r, rfl, by rw [List.nil_append, rise_closer]; rfl, fun v hv => ?_⟩
      rw [List.prefix_nil.1 hv, hzero]
      omega
    · refine ⟨x :: upto, later, rfl, ?_, fun v hv => ?_⟩
      · rw [List.cons_append, rise_cons]
        omega
      · cases v with
        | nil =>
          rw [hzero]
          omega
        | cons y v =>
          obtain ⟨rfl, hrest⟩ := List.cons_prefix_cons.1 hv
          have hx := hpos v hrest
          rw [rise_cons]
          omega

theorem not_returnsAt_of_nonpos {b : Bracket} {depth : Int} (h : depth ≤ 0) (found : List (Nat × Char))
    (c : Nat) : ¬ ReturnsAt b depth found c := by
  rintro ⟨upto, later, -, -, hpos⟩
  have hzero : rise b [] = 0 := rfl
  have hdepth := hpos [] List.nil_prefix
  omega

theorem closerOffset?_eq_some_iff {b : Bracket} {depth : Nat} {found : List (Nat × Char)} {c : Nat} :
    closerOffset? b (depth + 1) found = some c ↔ ReturnsAt b (depth + 1) found c := by
  induction found generalizing depth with
  | nil => exact iff_of_false (fun h => by cases h) (not_returnsAt_nil b _ c)
  | cons x r ih =>
    obtain ⟨p, d⟩ := x
    rw [returnsAt_cons]
    by_cases ho : d = b.opener
    · subst ho
      have hnot : ¬ ((p, b.opener) = (c, b.closer) ∧ (depth : Int) + 1 = 1) := by
        intro h
        exact closer_ne_opener b b (congrArg Prod.snd h.1).symm
      have hcast : (depth : Int) + 1 + 1 = ((depth + 1 : Nat) : Int) + 1 := by omega
      rw [closerOffset?_opener, ih, rise_opener, hcast]
      exact ⟨fun h => .inr ⟨by omega, h⟩, fun h => (h.resolve_left hnot).2⟩
    · by_cases hc : d = b.closer
      · subst hc
        rw [closerOffset?_closer, rise_closer]
        cases depth with
        | zero =>
          rw [if_pos (Nat.le_refl 1), Option.some.injEq]
          constructor
          · rintro rfl
            exact .inl ⟨rfl, rfl⟩
          · rintro (⟨h, -⟩ | ⟨-, h⟩)
            · exact congrArg Prod.fst h
            · exact absurd h (not_returnsAt_of_nonpos (by omega) r c)
        | succ depth =>
          have hcast : ((depth + 1 : Nat) : Int) + 1 + -1 = (depth : Int) + 1 := by omega
          rw [if_neg (by omega), Nat.add_sub_cancel, ih, hcast]
          refine ⟨fun h => .inr ⟨by omega, h⟩, ?_⟩
          rintro (⟨-, h⟩ | ⟨-, h⟩)
          · omega
          · exact h
      · have hnot : ¬ ((p, d) = (c, b.closer) ∧ (depth : Int) + 1 = 1) := fun h => hc (congrArg Prod.snd h.1)
        rw [closerOffset?_other _ _ _ ho hc, ih, rise_other ho hc, Int.add_zero]
        exact ⟨fun h => .inr ⟨by omega, h⟩, fun h => (h.resolve_left hnot).2⟩

/-! ### Byte offsets -/

theorem positionAt_append (before : List Char) (c : Char) (after : List Char) :
    positionAt (before ++ c :: after) (byteLength before) = before.length := by
  induction before with
  | nil =>
    have hpos := c.utf8Size_pos
    rw [List.nil_append, positionAt, byteLength, if_pos hpos]
    rfl
  | cons d before ih =>
    have hlater : ¬ byteLength (d :: before) < d.utf8Size := by
      rw [byteLength]
      omega
    have hrest : byteLength (d :: before) - d.utf8Size = byteLength before := by
      rw [byteLength]
      omega
    rw [List.cons_append, positionAt, if_neg hlater, hrest, ih, List.length_cons]

theorem byteOffset_append (before after : List Char) (n : Nat) :
    byteOffset (before ++ after) (before.length + n) = byteLength before + byteLength (after.take n) := by
  rw [byteOffset, List.take_length_add_append, byteLength_append]

theorem getElem?_charBefore (before rest : List Char) :
    charBefore? (before ++ rest) before.length = before.getLast? := by
  rw [List.getLast?_eq_getElem?]
  cases before with
  | nil => rfl
  | cons c before => exact List.getElem?_append_left (by simp)

theorem literalEndAt?_append (before : List Char) (c : Char) (after : List Char) :
    literalEndAt? (before ++ c :: after) (byteLength before) =
      (literal? before.getLast? (c :: after)).map fun l => byteLength before + byteLength ((c :: after).take l.2) := by
  have hstart : byteOffset (before ++ c :: after) before.length = byteLength before :=
    byteOffset_append before (c :: after) 0
  unfold literalEndAt?
  simp only [positionAt_append, hstart, bne_self_eq_false, Bool.false_eq_true, if_false, List.drop_left,
    getElem?_charBefore, byteOffset_append]

theorem partnerAt?_append (before : List Char) (c : Char) (after : List Char) :
    partnerAt? (before ++ c :: after) (byteLength before) =
      (partner? (c :: after)).map fun n => byteLength before + byteLength ((c :: after).take n) := by
  have hstart : byteOffset (before ++ c :: after) before.length = byteLength before :=
    byteOffset_append before (c :: after) 0
  unfold partnerAt?
  simp only [positionAt_append, hstart, bne_self_eq_false, Bool.false_eq_true, if_false, List.drop_left,
    byteOffset_append]

/-- The partner of a bracket is sought among the brackets behind it. -/
theorem partnerAt?_opener (before : List Char) (b : Bracket) (after : List Char) :
    partnerAt? (before ++ b.opener :: after) (byteLength before) =
      closerOffset? b 1 ((markAfter (some b.opener) after).brackets (byteLength before + b.opener.utf8Size)) := by
  have htake (i : Nat) : ((markAfter (some b.opener) after).take i).map Prod.fst = after.take i := by
    rw [List.map_take, markAfter, map_fst_markFrom]
  rw [partnerAt?_append, closerOffset?_brackets, partner?, Bracket.ofOpener?_opener]
  simp only [Option.bind_eq_bind, Option.bind_some, htake]
  cases closerIndex? b 1 (markAfter (some b.opener) after) with
  | none => rfl
  | some i =>
    show some (byteLength before + byteLength (b.opener :: after.take i)) = _
    rw [byteLength, ← Nat.add_assoc]
    rfl

/-- Only a bracket that opens has a partner. -/
theorem exists_of_partnerAt? {text : List Char} {p c : Nat} (h : partnerAt? text p = some c) :
    ∃ before b after, text = before ++ Bracket.opener b :: after ∧ p = byteLength before := by
  unfold partnerAt? at h
  dsimp only at h
  split at h
  · cases h
  · rename_i hp
    have hp : p = byteLength (text.take (positionAt text p)) := by
      rw [bne_iff_ne, ne_eq, not_not] at hp
      exact hp.symm
    obtain ⟨n, hn, -⟩ := Option.map_eq_some_iff.1 h
    cases hdrop : text.drop (positionAt text p) with
    | nil =>
      rw [hdrop] at hn
      cases hn
    | cons d r =>
      rw [hdrop, partner?] at hn
      obtain ⟨b, hb, -⟩ := Option.bind_eq_some_iff.1 hn
      obtain rfl := eq_opener_of_ofOpener? hb
      refine ⟨_, b, r, ?_, hp⟩
      rw [← hdrop, List.take_append_drop]

end Recast.Text
