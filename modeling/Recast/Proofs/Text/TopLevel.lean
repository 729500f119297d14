import Recast.Proofs.Text.Partners

/-!
# Exact splitting

A text has one cut at the separators that stand in the code where as many brackets are open as
closed (`CutInto.eq_rawPieces`). The count may fall below zero at stray closers. Each part of the cut is
scanned by itself as it is in the text, so a part is not cut again.
-/

namespace Recast.Text

/-! ### Depth -/

/-- How many more brackets the code opens than it closes. -/
def Marked.depth (m : Marked) : Int := m.code.countP isOpener - m.code.countP isCloser

@[simp] theorem depth_nil : Marked.depth [] = 0 := rfl

theorem depth_append (m m' : Marked) : (m ++ m' : Marked).depth = m.depth + m'.depth := by
  simp only [Marked.depth, code_append, List.countP_append, Int.natCast_add]
  omega

theorem depth_cons (x : Char × Label) (m : Marked) : Marked.depth (x :: m) = Marked.depth [x] + m.depth :=
  depth_append [x] m

theorem depth_of_ne_code {l : Label} (hl : l ≠ .code) (c : Char) : Marked.depth [(c, l)] = 0 := by
  rw [Marked.depth, code_cons, if_neg hl]
  rfl

theorem depth_code (c : Char) :
    Marked.depth [(c, .code)] = (if isOpener c then 1 else 0) - if isCloser c then 1 else 0 := by
  rw [Marked.depth, code_cons, if_pos rfl]
  show ((List.countP isOpener [c] : Nat) : Int) - (List.countP isCloser [c] : Nat) = _
  rw [List.countP_singleton, List.countP_singleton]
  split <;> split <;> rfl

theorem isCloser_of_isOpener {c : Char} (h : isOpener c = true) : isCloser c = false := by
  obtain ⟨b, hb⟩ := Option.isSome_iff_exists.1 h
  obtain rfl := eq_opener_of_ofOpener? hb
  cases b <;> rfl

/-! ### Raw pieces -/

section

variable {sep : Char} (hsep : sep ∈ separators)

include hsep

/-- A separator of the code at depth zero ends a piece, and any other character belongs to the piece
at whose start it stands. -/
theorem rawPieces_cons_eq (d : Int) (c : Char) (l : Label) (r : Marked) :
    rawPieces sep d ((c, l) :: r) =
      if c = sep ∧ l = .code ∧ d = 0 then [] :: rawPieces sep 0 r
      else (rawPieces sep (d + Marked.depth [(c, l)]) r).modifyHead (c :: ·) := by
  obtain ⟨-, hopener, hcloser, -⟩ := neutral_of_separator hsep
  obtain ⟨p, ps, hp⟩ := exists_rawPieces_eq_cons sep (d + Marked.depth [(c, l)]) r
  rw [hp]
  by_cases hl : l = .code
  · subst hl
    rw [depth_code] at hp
    by_cases ho : isOpener c = true
    · have hne : c ≠ sep := fun h => by rw [h, hopener] at ho; cases ho
      have hraw : rawPieces sep (d + 1) r = p :: ps := by simpa [ho, isCloser_of_isOpener ho] using hp
      simp [rawPieces, ho, hne, hraw]
    · by_cases hc : isCloser c = true
      · have hne : c ≠ sep := fun h => by rw [h, hcloser] at hc; cases hc
        have hraw : rawPieces sep (d - 1) r = p :: ps := by simpa [ho, hc, Int.sub_eq_add_neg] using hp
        simp [rawPieces, ho, hc, hne, hraw]
      · have hraw : rawPieces sep d r = p :: ps := by simpa [ho, hc] using hp
        by_cases hs : c = sep ∧ d = 0
        · simp [rawPieces, hs, hopener, hcloser]
        · simp [rawPieces, ho, hc, hs, hraw]
  · rw [depth_of_ne_code hl, Int.add_zero] at hp
    simp [rawPieces, hl, hp]

end

/-! ### Cuts -/

/-- Where the separator stands in the code, the brackets before it do not bring `d` open ones down
to none. -/
def Uncut (sep : Char) (d : Int) (m : Marked) : Prop :=
  ∀ before after : Marked, m = before ++ (sep, .code) :: after → d + before.depth ≠ 0

theorem uncut_cons_iff {sep : Char} {d : Int} {x : Char × Label} {m : Marked} :
    Uncut sep d (x :: m) ↔ ¬ (x = (sep, .code) ∧ d = 0) ∧ Uncut sep (d + Marked.depth [x]) m := by
  constructor
  · intro h
    refine ⟨?_, fun before after hm => ?_⟩
    · rintro ⟨rfl, rfl⟩
      exact h [] m rfl rfl
    · have hlater := h (x :: before) after (by rw [hm]; rfl)
      rwa [depth_cons, ← Int.add_assoc] at hlater
  · rintro ⟨hx, hm⟩ before after hsplit
    cases before with
    | nil =>
      obtain ⟨rfl, -⟩ := List.cons.inj hsplit
      rw [depth_nil, Int.add_zero]
      exact fun hd => hx ⟨rfl, hd⟩
    | cons y before =>
      obtain ⟨rfl, hrest⟩ := List.cons.inj hsplit
      rw [depth_cons, ← Int.add_assoc]
      exact hm before after hrest

/-- The first separator at which a text is cut. -/
theorem uncut_or_exists_cut (sep : Char) (d : Int) (m : Marked) :
    Uncut sep d m ∨ ∃ m₁ m₂ : Marked, m = m₁ ++ (sep, .code) :: m₂ ∧ d + m₁.depth = 0 ∧ Uncut sep d m₁ := by
  have hnil (d : Int) : Uncut sep d [] := fun before after h => absurd h (by simp)
  induction m generalizing d with
  | nil => exact .inl (hnil d)
  | cons x m ih =>
    by_cases hx : x = (sep, .code) ∧ d = 0
    · obtain ⟨rfl, rfl⟩ := hx
      exact .inr ⟨[], m, rfl, rfl, hnil 0⟩
    · rcases ih (d + Marked.depth [x]) with h | ⟨m₁, m₂, rfl, hd, h⟩
      · exact .inl (uncut_cons_iff.2 ⟨hx, h⟩)
      · refine .inr ⟨x :: m₁, m₂, rfl, ?_, uncut_cons_iff.2 ⟨hx, h⟩⟩
        rwa [depth_cons, ← Int.add_assoc]

/-- The pieces are what stands in the text between the separators of the code at depth zero. -/
structure CutInto (sep : Char) (text : List Char) (pieces : List (List Char)) : Prop where
  ne_nil : pieces ≠ []
  joined : joinWith [sep] pieces = text
  /-- In the text each piece is scanned as it is by itself. -/
  scanned : mark text = [(sep, Label.code)].intercalate (pieces.map mark)
  closed : ∀ p ∈ pieces.dropLast, (mark p).depth = 0
  uncut : ∀ p ∈ pieces, Uncut sep 0 (mark p)

section

variable {sep : Char} (hsep : sep ∈ separators)

include hsep

/-- What is not cut goes to the first piece of what follows. -/
theorem Uncut.rawPieces_append {d : Int} {m rest : Marked} (h : Uncut sep d m) {p : List Char}
    {ps : List (List Char)} (hrest : rawPieces sep (d + m.depth) rest = p :: ps) :
    rawPieces sep d (m ++ rest) = (m.map Prod.fst ++ p) :: ps := by
  induction m generalizing d with
  | nil => rwa [depth_nil, Int.add_zero] at hrest
  | cons x m ih =>
    obtain ⟨c, l⟩ := x
    obtain ⟨hx, hm⟩ := uncut_cons_iff.1 h
    rw [depth_cons, ← Int.add_assoc] at hrest
    rw [List.cons_append, rawPieces_cons_eq hsep, ih hm hrest, if_neg]
    · rfl
    · rintro ⟨rfl, rfl, hd⟩
      exact hx ⟨rfl, hd⟩

theorem Uncut.rawPieces_eq {d : Int} {m : Marked} (h : Uncut sep d m) :
    rawPieces sep d m = [m.map Prod.fst] := by
  have hraw : rawPieces sep d (m ++ []) = [m.map Prod.fst ++ []] := h.rawPieces_append hsep rfl
  rwa [List.append_nil, List.append_nil] at hraw

theorem Uncut.rawPieces_cut {d : Int} {m : Marked} (h : Uncut sep d m) (hd : d + m.depth = 0) (rest : Marked) :
    rawPieces sep d (m ++ (sep, .code) :: rest) = m.map Prod.fst :: rawPieces sep 0 rest := by
  have hraw : rawPieces sep d (m ++ (sep, .code) :: rest) = (m.map Prod.fst ++ []) :: rawPieces sep 0 rest :=
    h.rawPieces_append hsep (by rw [hd, rawPieces_separator hsep])
  rwa [List.append_nil] at hraw

/-- A cut determines the pieces. -/
theorem CutInto.eq_rawPieces {text : List Char} {pieces : List (List Char)} (h : CutInto sep text pieces) :
    pieces = rawPieces sep 0 (mark text) := by
  obtain ⟨hne, -, hscan, hclosed, huncut⟩ := h
  rw [hscan]
  clear hscan
  induction pieces with
  | nil => exact absurd rfl hne
  | cons p ps ih =>
    obtain ⟨hp, hps⟩ := List.forall_mem_cons.1 huncut
    cases ps with
    | nil =>
      have hraw := hp.rawPieces_eq hsep
      rw [map_fst_mark] at hraw
      simpa using hraw.symm
    | cons q qs =>
      rw [List.dropLast_cons_cons] at hclosed
      obtain ⟨hdepth, hrest⟩ := List.forall_mem_cons.1 hclosed
      have hraw := hp.rawPieces_cut hsep (by rwa [Int.zero_add])
        ([(sep, Label.code)].intercalate ((q :: qs).map mark))
      rw [map_fst_mark, ← ih (List.cons_ne_nil q qs) hrest hps] at hraw
      simpa using hraw.symm

/-- On either side of a separator of the code the text is scanned as it is by itself. -/
theorem mark_beside {text : List Char} {m₁ m₂ : Marked} (h : mark text = m₁ ++ (sep, .code) :: m₂) :
    mark (m₁.map Prod.fst) = m₁ ∧ mark (m₂.map Prod.fst) = m₂ := by
  obtain ⟨-, -, -, -, hname, -⟩ := neutral_of_separator hsep
  obtain ⟨hbefore, hafter⟩ := mark_split h
  rw [markAfter_fresh (by simpa using hname)] at hafter
  exact ⟨hbefore, hafter⟩

theorem CutInto.cons {text : List Char} {m₁ m₂ : Marked} (hmark : mark text = m₁ ++ (sep, .code) :: m₂)
    (hdepth : m₁.depth = 0) (huncut : Uncut sep 0 m₁) {pieces : List (List Char)}
    (h : CutInto sep (m₂.map Prod.fst) pieces) : CutInto sep text (m₁.map Prod.fst :: pieces) := by
  obtain ⟨hbefore, hafter⟩ := mark_beside hsep hmark
  obtain ⟨q, qs, rfl⟩ := List.exists_cons_of_ne_nil h.ne_nil
  refine ⟨List.cons_ne_nil _ _, ?_, ?_, ?_, ?_⟩
  · rw [joinWith_cons_cons, h.joined, ← map_fst_mark text, hmark]
    simp
  · rw [hmark, ← hafter, h.scanned, List.map_cons (l := q :: qs), hbefore]
    simp
  · rw [List.dropLast_cons_cons]
    exact List.forall_mem_cons.2 ⟨by rwa [hbefore], h.closed⟩
  · exact List.forall_mem_cons.2 ⟨by rwa [hbefore], h.uncut⟩

theorem cutInto_rawPieces (text : List Char) : CutInto sep text (rawPieces sep 0 (mark text)) := by
  -- What stands behind a separator is a text of its own, so the induction is on the length.
  induction hn : text.length using Nat.strongRecOn generalizing text with
  | _ n ih =>
    rcases uncut_or_exists_cut sep 0 (mark text) with huncut | ⟨m₁, m₂, hmark, hdepth, huncut⟩
    · rw [huncut.rawPieces_eq hsep, map_fst_mark]
      exact ⟨List.cons_ne_nil _ _, rfl, by simp, by simp, by simpa using huncut⟩
    · rw [Int.zero_add] at hdepth
      have hlt : (m₂.map Prod.fst).length < n := by
        rw [← hn, ← map_fst_mark text, hmark]
        simp
        omega
      have hrest := ih _ hlt (m₂.map Prod.fst) rfl
      rw [(mark_beside hsep hmark).2] at hrest
      rw [hmark, huncut.rawPieces_cut hsep (by rwa [Int.zero_add])]
      exact hrest.cons hsep hmark hdepth huncut

/-- A piece of a text is its own only piece. -/
theorem splitTopLevel_of_mem {text piece : List Char} (h : piece ∈ splitTopLevel sep text) :
    splitTopLevel sep piece = [piece] := by
  obtain ⟨hmem, hblank⟩ := List.mem_filter.1 h
  have hraw := ((cutInto_rawPieces hsep text).uncut piece hmem).rawPieces_eq hsep
  rw [map_fst_mark] at hraw
  rw [splitTopLevel, hraw]
  exact List.filter_cons_of_pos (p := (!isBlankText ·)) hblank

/-- A text has one cut at the separators of the code at depth zero. Splitting keeps its pieces that
are not blank, in order, and cuts none of them again. -/
theorem splitTopLevel_exact (text : List Char) :
    ∃ pieces, CutInto sep text pieces ∧ (∀ pieces', CutInto sep text pieces' → pieces' = pieces) ∧
      splitTopLevel sep text = pieces.filter (!isBlankText ·) ∧
      ∀ piece ∈ splitTopLevel sep text, splitTopLevel sep piece = [piece] :=
  ⟨rawPieces sep 0 (mark text), cutInto_rawPieces hsep text, fun _ h => h.eq_rawPieces hsep, rfl,
    fun _ => splitTopLevel_of_mem hsep⟩

end

/-- Behind a stray closer the depth is below zero, so the first comma is none of the separators. -/
theorem strayCloser_joins_pieces :
    let text := "x), (y, '(,' /* ] */, ,z".toList
    ',' ∈ separators ∧
      splitTopLevel ',' text = ["x), (y".toList, " '(,' /* ] */".toList, "z".toList] ∧
      splitTopLevel ',' "x), (y".toList = ["x), (y".toList] := by
  intro text
  have hsep : ',' ∈ separators := by decide
  have hsplit : splitTopLevel ',' text = ["x), (y".toList, " '(,' /* ] */".toList, "z".toList] := by decide
  obtain ⟨-, -, -, -, hatomic⟩ := splitTopLevel_exact hsep text
  exact ⟨hsep, hsplit, hatomic _ (by rw [hsplit]; exact List.mem_cons_self)⟩

end Recast.Text
