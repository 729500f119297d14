import Recast.Text.Class

/-!
# Cutting at byte offsets

Where an offset counts bytes, a cut may fall inside a character or past the end of
the text. Such a cut is a fault and gives no text.
-/

namespace Recast

/-- A text is to be cut where no character starts. -/
inductive Fault
  | noBoundary
  deriving DecidableEq, Repr

/-- A computation of two parts succeeds if both do. -/
theorem bind_eq_ok {ε α β : Type} {x : Except ε α} {f : α → Except ε β} {b : β} :
    x >>= f = .ok b ↔ ∃ a, x = .ok a ∧ f a = .ok b := by
  cases x with
  | error e => simp [bind, Except.bind]
  | ok a => simp [bind, Except.bind]

namespace Text

def byteLength : List Char → Nat
  | [] => 0
  | c :: r => c.utf8Size + byteLength r

/-- The first `n` bytes of the text and the rest. -/
def splitBytes : Nat → List Char → Except Fault (List Char × List Char)
  | 0, text => .ok ([], text)
  | _ + 1, [] => .error .noBoundary
  | n + 1, c :: r =>
    if c.utf8Size ≤ n + 1 then
      match splitBytes (n + 1 - c.utf8Size) r with
      | .ok (before, after) => .ok (c :: before, after)
      | .error e => .error e
    else .error .noBoundary

def dropBytes (n : Nat) (text : List Char) : Except Fault (List Char) :=
  return (← splitBytes n text).2

/-- The text with the bytes from `start` up to `stop` replaced. -/
def replaceBytes (start stop : Nat) (new text : List Char) : Except Fault (List Char) := do
  let (before, rest) ← splitBytes start text
  let (_, after) ← splitBytes (stop - start) rest
  return before ++ new ++ after

theorem append_of_splitBytes {n : Nat} {text before after : List Char}
    (h : splitBytes n text = .ok (before, after)) : before ++ after = text := by
  induction text generalizing n before after with
  | nil => cases n <;> simp_all [splitBytes]
  | cons c r ih =>
    cases n with
    | zero => simp_all [splitBytes]
    | succ n =>
      simp only [splitBytes] at h
      split at h
      · split at h
        · rename_i before' after' heq
          simp only [Except.ok.injEq, Prod.mk.injEq] at h
          obtain ⟨rfl, rfl⟩ := h
          simp [ih heq]
        · simp at h
      · simp at h

@[simp] theorem byteLength_append (before after : List Char) :
    byteLength (before ++ after) = byteLength before + byteLength after := by
  induction before with
  | nil => simp [byteLength]
  | cons c r ih => simp [byteLength, ih, Nat.add_assoc]

theorem splitBytes_append (before after : List Char) :
    splitBytes (byteLength before) (before ++ after) = .ok (before, after) := by
  induction before with
  | nil => cases after <;> rfl
  | cons c r ih =>
    obtain ⟨n, hn⟩ : ∃ n, byteLength (c :: r) = n + 1 :=
      Nat.exists_eq_add_one.2 (Nat.add_pos_left c.utf8Size_pos _)
    have hle : c.utf8Size ≤ n + 1 := by
      rw [← hn]
      exact Nat.le_add_right _ _
    have hrest : n + 1 - c.utf8Size = byteLength r := by
      rw [← hn]
      exact Nat.add_sub_cancel_left ..
    rw [hn, List.cons_append, splitBytes, if_pos hle, hrest, ih]

theorem replaceBytes_append (before old after new : List Char) :
    replaceBytes (byteLength before) (byteLength (before ++ old)) new (before ++ (old ++ after)) =
      .ok (before ++ new ++ after) := by
  have hlength : byteLength (before ++ old) - byteLength before = byteLength old := by simp
  rw [replaceBytes, splitBytes_append, hlength]
  show (do
    let (_, after) ← splitBytes (byteLength old) (old ++ after)
    return before ++ new ++ after) = _
  rw [splitBytes_append]
  rfl

end Text

end Recast
