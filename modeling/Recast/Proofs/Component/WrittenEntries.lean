import Recast.Proofs.Component.EntryCuts
import Recast.Proofs.Text.Splitting

/-!
# Entries as they are written

Pairs of a name and a value are written `key: value` or `key = value` and joined by commas.
Main statement: all are read back exactly if no value is taken for a name with a default.
That is so of a value in which a name stands before the first equals sign, of a comparison
such as `a === b` too, unless an arrow stands in it.
-/

namespace Recast

open Text

/-- The text of a value: trimmed and not blank, with closed brackets and literals and no comma
outside them. -/
structure IsValue (value : List Char) : Prop where
  nonblank : isBlankText value = false
  trimmed : trim value = value
  balanced : isBalanced value = true
  closed : closesLiterals value = true
  whole : ¬ TopLevel ',' value

/-- A pair and how it is written: its sign, and the blanks around its parts. -/
structure WrittenPair where
  key : List Char
  value : List Char
  sign : Char
  lead : List Char
  gap : List Char
  pad : List Char
  trail : List Char
  isIdentifier_key : isIdentifier key = true
  isValue : IsValue value
  sign_mem : sign ∈ [':', '=']
  blank_lead : isBlankText lead = true
  blank_gap : isBlankText gap = true
  blank_pad : isBlankText pad = true
  blank_trail : isBlankText trail = true

/-- A name stands before the first equals sign in the value that is not at its start, there is
more behind that sign, and there is no arrow. -/
def TakenForDefault (value : List Char) : Prop :=
  ∃ start name gap rest, value = start ++ (name ++ (gap ++ '=' :: rest)) ∧
    isVoid '=' start = true ∧ isIdentifier name = true ∧ isBlankText gap = true ∧
    isVoid '=' rest = false ∧ contains value "=>".toList = false

namespace WrittenPair

/-- The name and what stands before the value. -/
def front (p : WrittenPair) : List Char := p.key ++ (p.gap ++ p.sign :: p.pad)

/-- The pair written `key: value`. -/
def withColon (key value : List Char) (hkey : isIdentifier key = true) (hvalue : IsValue value) :
    WrittenPair where
  key := key
  value := value
  sign := ':'
  lead := [' ']
  gap := []
  pad := [' ']
  trail := []
  isIdentifier_key := hkey
  isValue := hvalue
  sign_mem := by decide
  blank_lead := rfl
  blank_gap := rfl
  blank_pad := rfl
  blank_trail := rfl

/-- The pair written `key = value`. -/
def withEquals (key value : List Char) (hkey : isIdentifier key = true) (hvalue : IsValue value) :
    WrittenPair :=
  { withColon key value hkey hvalue with sign := '=', gap := [' '], sign_mem := by decide, blank_gap := rfl }

def text (p : WrittenPair) : List Char := p.lead ++ ((p.front ++ p.value) ++ p.trail)

variable (p : WrittenPair)

theorem value_ne_nil : p.value ≠ [] := by
  intro hnil
  have hvalue := p.isValue.nonblank
  rw [hnil] at hvalue
  cases hvalue

theorem isTight_body : IsTight (p.front ++ p.value) := by
  have hvalue := isTight_of_trim_eq p.isValue.trimmed
  have hkey := isTight_of_isIdentifier p.isIdentifier_key
  have happend := hkey.append hvalue (ne_nil_of_isIdentifier p.isIdentifier_key) p.value_ne_nil
    (p.gap ++ p.sign :: p.pad)
  rwa [← List.append_assoc] at happend

theorem trim_text : trim p.text = p.front ++ p.value :=
  p.isTight_body.trim_append p.blank_lead p.blank_trail

theorem isBlankText_text : isBlankText p.text = false := by
  have hkey : p.key.all isBlank = false := isBlankText_of_isIdentifier p.isIdentifier_key
  simp [isBlankText, text, front, hkey]

theorem not_spread : startsWith (p.front ++ p.value) "...".toList = false := by
  rw [Bool.eq_false_iff]
  intro hspread
  obtain ⟨rest, hrest⟩ := startsWith_iff.1 hspread
  obtain ⟨c, key, hkey⟩ := List.exists_cons_of_ne_nil (ne_nil_of_isIdentifier p.isIdentifier_key)
  have hname := isIdentChar_of_mem p.isIdentifier_key (c := c) (hkey ▸ List.mem_cons_self)
  rw [front, hkey] at hrest
  obtain ⟨rfl, -⟩ := List.cons.inj hrest
  cases hname

theorem sign_mem_separators : p.sign ∈ separators := List.mem_cons_of_mem ',' p.sign_mem

theorem sign_eq : p.sign = ':' ∨ p.sign = '=' := by simpa using p.sign_mem

theorem isNeutral_sign : isNeutral p.sign = true := by
  rcases p.sign_eq with hsign | hsign <;> rw [hsign] <;> decide

theorem all_isNeutral_front : p.front.all isNeutral = true := by
  simp only [front, List.all_append, List.all_cons, all_isNeutral_of_isIdentifier p.isIdentifier_key,
    all_isNeutral_of_blank p.blank_gap, all_isNeutral_of_blank p.blank_pad, p.isNeutral_sign, Bool.and_self]

/-- Of the characters that end a piece only the sign stands before the value. -/
theorem not_mem_front {sep : Char} (hsep : sep ∈ separators) (hne : sep ≠ p.sign) : sep ∉ p.front := by
  obtain ⟨-, -, -, hblank, hname, -⟩ := neutral_of_separator hsep
  simp only [front, List.mem_append, List.mem_cons, not_or]
  refine ⟨?_, ?_, hne, ?_⟩
  · intro hmem
    rw [isIdentChar_of_mem p.isIdentifier_key hmem] at hname
    cases hname
  · intro hmem
    rw [List.all_eq_true.1 p.blank_gap sep hmem] at hblank
    cases hblank
  · intro hmem
    rw [List.all_eq_true.1 p.blank_pad sep hmem] at hblank
    cases hblank

theorem joins_front (v : List Char) : Joins p.front v := by
  refine joins_of_plain (all_isPlain_of_neutral p.all_isNeutral_front) ?_ v
  have hnone : ∀ c ∈ p.sign :: p.pad, isIdentChar c = false :=
    List.forall_mem_cons.2 ⟨(neutral_of_separator p.sign_mem_separators).2.2.2.2.1,
      fun c hc => isIdentChar_of_isBlank (List.all_eq_true.1 p.blank_pad c hc)⟩
  rw [front, List.getLast?_append, List.getLast?_append,
    List.getLast?_eq_some_getLast (List.cons_ne_nil p.sign p.pad)]
  exact hnone _ (List.getLast_mem _)

theorem isPiece_front {sep : Char} (hsep : sep ∈ separators) (hne : sep ≠ p.sign) : IsPiece sep p.front :=
  isPiece_of_neutral p.all_isNeutral_front (p.not_mem_front hsep hne)

theorem isPiece_text : IsPiece ',' p.text := by
  have hcomma : ',' ≠ p.sign := by
    rcases p.sign_eq with hsign | hsign <;> rw [hsign] <;> decide
  have hvalue : IsPiece ',' p.value :=
    ⟨p.isValue.balanced, scansAlone_of_closesLiterals p.isValue.closed, p.isValue.whole⟩
  have hbody := (p.isPiece_front (by decide) hcomma).append hvalue p.value_ne_nil (p.joins_front p.value)
  exact (hbody.append_blank p.blank_trail (by decide)).blank_append p.blank_lead (by simp [p.value_ne_nil])
    (by decide)

/-! ### The cut -/

/-- The text that the sign follows. -/
def keyPiece : List Char := p.key ++ p.gap

theorem body_eq : p.front ++ p.value = p.keyPiece ++ p.sign :: (p.pad ++ p.value) := by
  simp [front, keyPiece]

theorem isPiece_keyPiece : IsPiece p.sign p.keyPiece :=
  (isPiece_of_isIdentifier p.sign_mem_separators p.isIdentifier_key).append_blank p.blank_gap
    (neutral_of_separator p.sign_mem_separators).2.2.2.1

theorem isBlankText_keyPiece : isBlankText p.keyPiece = false :=
  isBlankText_append_left (isBlankText_of_isIdentifier p.isIdentifier_key) p.gap

theorem splitTopLevel_sign : splitTopLevel p.sign (p.front ++ p.value) =
    p.keyPiece :: splitTopLevel p.sign (p.pad ++ p.value) := by
  rw [body_eq, splitTopLevel_append p.sign_mem_separators p.isPiece_keyPiece, isBlankText_keyPiece]
  rfl

/-- Cut at the other sign, the first piece goes past the own one. -/
theorem splitTopLevel_other (sep : Char) (hsep : sep ∈ separators) (hne : sep ≠ p.sign) :
    ∃ q rest, splitTopLevel sep (p.front ++ p.value) = (p.front ++ q) :: rest := by
  obtain ⟨q, qs, hq⟩ := exists_rawPieces_eq_cons sep 0 (mark p.value)
  refine ⟨q, qs.filter (!isBlankText ·), ?_⟩
  have hmark : mark (p.front ++ p.value) = mark p.front ++ mark p.value :=
    (p.joins_front p.value).mark_append
  have hblank : isBlankText (p.front ++ q) = false := by
    rw [front, List.append_assoc]
    exact isBlankText_append_left (isBlankText_of_isIdentifier p.isIdentifier_key) _
  unfold splitTopLevel
  rw [hmark, rawPieces_append (p.isPiece_front hsep hne) hq, List.filter_cons, hblank]
  rfl

/-- A value with more than blanks and its own sign is cut off. -/
theorem isVoid_pad_append : isVoid p.sign (p.pad ++ p.value) = isVoid p.sign p.value := by
  rw [isVoid, List.all_append]
  exact (congrArg (· && _) (isVoid_of_blank p.blank_pad)).trans (Bool.true_and _)

theorem byteLength_keyPiece_lt (q : List Char) : byteLength p.keyPiece < byteLength (p.front ++ q) := by
  have hsign := Char.utf8Size_pos p.sign
  simp only [front, keyPiece, byteLength_append, byteLength]
  omega

theorem isKeyPiece (h : isVoid p.sign p.value = false) : Entry.KeyPiece (p.front ++ p.value) p.keyPiece := by
  have hrest : splitTopLevel p.sign (p.pad ++ p.value) ≠ [] := by
    rw [Ne, splitTopLevel_eq_nil_iff p.sign_mem_separators, isVoid_pad_append, h]
    exact Bool.false_ne_true
  obtain ⟨next, rest, hnext⟩ := List.exists_cons_of_ne_nil hrest
  have hsplit := p.splitTopLevel_sign
  rw [hnext] at hsplit
  rcases p.sign_eq with hsign | hsign
  · rw [hsign] at hsplit
    obtain ⟨q, others, hother⟩ := p.splitTopLevel_other '=' (by decide) (by simp [hsign])
    exact .colon hsplit hother (p.byteLength_keyPiece_lt q)
  · rw [hsign] at hsplit
    obtain ⟨q, others, hother⟩ := p.splitTopLevel_other ':' (by decide) (by simp [hsign])
    refine .equals hsplit ?_
    intro first second others' hc
    rw [hother] at hc
    obtain ⟨rfl, -⟩ := List.cons.inj hc
    exact (p.byteLength_keyPiece_lt q).le

theorem not_keyPiece (h : isVoid p.sign p.value = true) (key : List Char) :
    ¬ Entry.KeyPiece (p.front ++ p.value) key := by
  have hsplit : splitTopLevel p.sign (p.front ++ p.value) = [p.keyPiece] := by
    rw [splitTopLevel_sign, (splitTopLevel_eq_nil_iff p.sign_mem_separators).2]
    rw [isVoid_pad_append, h]
  intro hk
  rcases p.sign_eq with hsign | hsign
  · rw [hsign] at hsplit h
    cases hk with
    | colon hc => cases hsplit.symm.trans hc
    | equals he =>
      have hequals : '=' ∉ p.front ++ p.value := by
        rw [List.mem_append, not_or]
        refine ⟨p.not_mem_front (by decide) (by simp [hsign]), ?_⟩
        intro hmem
        cases List.all_eq_true.1 h '=' hmem
      have hmany := length_splitTopLevel_le_of_not_mem hequals
      rw [he] at hmany
      simp at hmany
  · rw [hsign] at hsplit
    cases hk with
    | colon hc he hlt =>
      obtain ⟨q, others, hother⟩ := p.splitTopLevel_other ':' (by decide) (by simp [hsign])
      obtain ⟨rfl, -⟩ := List.cons.inj (hother.symm.trans hc)
      obtain ⟨rfl, -⟩ := List.cons.inj (hsplit.symm.trans he)
      exact absurd hlt (p.byteLength_keyPiece_lt q).not_gt
    | equals he => cases hsplit.symm.trans he

end WrittenPair

/-! ### The value -/

namespace Entry

theorem unquoted_of_isIdentifier {key : List Char} (h : isIdentifier key = true) :
    dropEndWhile isQuote (key.dropWhile isQuote) = key := by
  have hquote : ∀ c ∈ key, isQuote c = false := by
    intro c hc
    have hname := isIdentChar_of_mem h hc
    rw [Bool.eq_false_iff]
    intro hq
    simp only [isQuote, Bool.or_eq_true, beq_iff_eq] at hq
    rcases hq with rfl | rfl <;> cases hname
  rw [dropWhile_of_forall hquote, dropEndWhile_of_forall hquote]

theorem value?_of_cut {entry key : List Char} (hcut : cut entry = .ok (key, none)) {e : Entry}
    (h : read entry = .ok (some e)) : e.value? = none := by
  unfold read at h
  rw [hcut] at h
  have hread := Except.ok.inj h
  split at hread
  · cases hread
    rfl
  · cases hread

theorem read_of_cut {entry key value : List Char} (hcut : cut entry = .ok (key, some value))
    (hkey : isIdentifier key = true) :
    read entry = do return some ⟨key, some (← defaultIn value)⟩ := by
  unfold read
  rw [hcut]
  let stripped := dropEndWhile isQuote (key.dropWhile isQuote)
  show (do
    let value ← defaultIn value
    return if isIdentifier stripped then some (Entry.mk stripped (some value)) else none) = _
  rw [show stripped = key from unquoted_of_isIdentifier hkey, hkey]
  rfl

theorem defaultIn_eq_self_iff_namePiece {value : List Char} :
    defaultIn value = .ok value ↔ ∀ name, ¬ NamePiece value name := by
  unfold defaultIn
  split
  · rename_i name next rest he
    split
    · rename_i hname
      simp only [Bool.and_eq_true, Bool.not_eq_true'] at hname
      refine iff_of_false ?_ fun hnone => hnone name ⟨next, rest, he, hname⟩
      intro hself
      obtain ⟨after, hafter, htrim⟩ := bind_eq_ok.1 hself
      obtain ⟨before, hvalue, hbytes⟩ := afterPiece_eq_ok_iff.1 hafter
      -- What is behind the name is shorter than the value.
      have hle : value.length ≤ after.length := by
        rw [← Except.ok.inj htrim]
        exact length_trim_le after
      have hbefore : before ≠ [] := by
        rintro rfl
        cases hbytes
      have hpos := List.length_pos_iff.2 hbefore
      rw [hvalue, List.length_append] at hle
      omega
    · rename_i hname
      refine iff_of_true rfl ?_
      rintro name' ⟨next', rest', he', hid, harrow⟩
      rw [he] at he'
      cases he'
      exact hname (by simp only [hid, harrow]; rfl)
  · rename_i hnone
    refine iff_of_true rfl ?_
    rintro name ⟨next, rest, he, -⟩
    exact hnone _ _ _ he

/-- Behind blanks and equals signs a name is the first piece. -/
theorem exists_splitTopLevel_name {start name gap : List Char} (hstart : isVoid '=' start = true)
    (hname : isIdentifier name = true) (hgap : isBlankText gap = true) (rest : List Char) :
    ∃ lead, isBlankText lead = true ∧
      splitTopLevel '=' (start ++ (name ++ (gap ++ '=' :: rest))) =
        (lead ++ (name ++ gap)) :: splitTopLevel '=' rest := by
  have hequals : '=' ∈ separators := by decide
  obtain ⟨lead, hlead, hsplit⟩ := exists_blank_of_isVoid hequals (b := []) rfl hstart
  refine ⟨lead, hlead, ?_⟩
  have hpiece : IsPiece '=' (lead ++ (name ++ gap)) :=
    ((isPiece_of_isIdentifier (by decide) hname).append_blank hgap (by decide)).blank_append hlead
      (by simp [ne_nil_of_isIdentifier hname]) (by decide)
  have hnonblank : isBlankText (lead ++ (name ++ gap)) = false := by
    rw [isBlankText, List.all_append, ← isBlankText, hlead]
    exact isBlankText_append_left (isBlankText_of_isIdentifier hname) gap
  have happend := hsplit (name ++ (gap ++ '=' :: rest))
  rw [List.nil_append] at happend
  have hassoc : lead ++ (name ++ (gap ++ '=' :: rest)) = (lead ++ (name ++ gap)) ++ '=' :: rest := by simp
  rw [happend, hassoc, splitTopLevel_append (by decide) hpiece, hnonblank]
  rfl

theorem exists_namePiece_iff {value : List Char} :
    (∃ name, NamePiece value name) ↔ TakenForDefault value := by
  constructor
  · rintro ⟨piece, next, others, hsplit, hname, harrow⟩
    obtain ⟨start, rest, rfl, hstart⟩ := exists_append_of_splitTopLevel hsplit
    obtain ⟨lead, gap, hpiece, hlead, hgap⟩ := exists_trim_append piece
    have hvoid : isVoid '=' (start ++ lead) = true := by
      rw [isVoid, List.all_append]
      exact Bool.and_eq_true_iff.2 ⟨hstart, isVoid_of_blank hlead⟩
    have htext : start ++ (piece ++ '=' :: rest) =
        (start ++ lead) ++ (trim piece ++ (gap ++ '=' :: rest)) := by
      conv_lhs => rw [hpiece]
      simp
    refine ⟨start ++ lead, trim piece, gap, rest, htext, hvoid, hname, hgap, ?_, harrow⟩
    -- Were there nothing behind the sign, the name would be the only piece.
    rw [Bool.eq_false_iff]
    intro hrest
    obtain ⟨lead', -, hone⟩ := exists_splitTopLevel_name hvoid hname hgap rest
    rw [← htext, hsplit, (splitTopLevel_eq_nil_iff (by decide)).2 hrest] at hone
    exact List.cons_ne_nil next others (List.cons.inj hone).2
  · rintro ⟨start, name, gap, rest, rfl, hstart, hname, hgap, hrest, harrow⟩
    obtain ⟨lead, hlead, hsplit⟩ := exists_splitTopLevel_name hstart hname hgap rest
    have hne : splitTopLevel '=' rest ≠ [] := by
      rw [Ne, splitTopLevel_eq_nil_iff (by decide), hrest]
      exact Bool.false_ne_true
    obtain ⟨next, others, hnext⟩ := List.exists_cons_of_ne_nil hne
    rw [hnext] at hsplit
    have htrim : trim (lead ++ (name ++ gap)) = name :=
      (isTight_of_isIdentifier hname).trim_append hlead hgap
    exact ⟨_, next, others, hsplit, htrim.symm ▸ hname, harrow⟩

theorem defaultIn_eq_self_iff {value : List Char} :
    defaultIn value = .ok value ↔ ¬ TakenForDefault value := by
  rw [defaultIn_eq_self_iff_namePiece, ← exists_namePiece_iff, not_exists]

end Entry

namespace WrittenPair

variable (p : WrittenPair)

theorem cut_eq (h : isVoid p.sign p.value = false) :
    Entry.cut (p.front ++ p.value) = .ok (p.key, some p.value) := by
  have hk := p.isKeyPiece h
  have hsize : p.sign.utf8Size = 1 := by
    rcases p.sign_eq with hsign | hsign <;> rw [hsign] <;> decide
  have hafter : Entry.afterPiece p.keyPiece (p.front ++ p.value) = .ok (p.pad ++ p.value) := by
    refine Entry.afterPiece_eq_ok_iff.2 ⟨p.keyPiece ++ [p.sign], by rw [body_eq]; simp, ?_⟩
    rw [byteLength_append, byteLength, hsize]
    rfl
  have hkey : trim p.keyPiece = p.key :=
    (isTight_of_isIdentifier p.isIdentifier_key).trim_append (u := []) rfl p.blank_gap
  have hvalue : trim (p.pad ++ p.value) = p.value := by
    have htrim := (isTight_of_trim_eq p.isValue.trimmed).trim_append (v := []) p.blank_pad rfl
    rwa [List.append_nil] at htrim
  rcases Entry.cut_eq (p.front ++ p.value) with ⟨key, hk', hcut⟩ | ⟨hnone, -⟩
  · obtain rfl := hk.unique hk'
    rw [hcut, hafter, hkey]
    show (.ok (p.key, some (trim (p.pad ++ p.value))) : Except Fault _) = _
    rw [hvalue]
  · exact absurd hk (hnone _)

/-- A pair is read back unless its value is only the sign again or is taken for a default. -/
theorem read_eq_iff : Entry.read (p.front ++ p.value) = .ok (some ⟨p.key, some p.value⟩) ↔
    isVoid p.sign p.value = false ∧ ¬ TakenForDefault p.value := by
  cases hvoid : isVoid p.sign p.value with
  | true =>
    refine iff_of_false ?_ fun h => absurd h.1 (by decide)
    rcases Entry.cut_eq (p.front ++ p.value) with ⟨key, hk, -⟩ | ⟨-, hcut⟩
    · exact absurd hk (p.not_keyPiece hvoid key)
    · exact fun hread => absurd (Entry.value?_of_cut hcut hread) (Option.some_ne_none _)
  | false =>
    rw [Entry.read_of_cut (p.cut_eq hvoid) p.isIdentifier_key, ← Entry.defaultIn_eq_self_iff]
    cases Entry.defaultIn p.value with
    | error e => simp [bind, Except.bind]
    | ok v => simp [bind, Except.bind, pure, Except.pure]

end WrittenPair

/-! ### All pairs -/

theorem length_of_mapM {α β : Type} {f : α → Except Fault β} {xs : List α} {ys : List β}
    (h : xs.mapM f = .ok ys) : ys.length = xs.length := by
  induction xs generalizing ys with
  | nil =>
    cases h
    rfl
  | cons x xs ih =>
    rw [List.mapM_cons] at h
    obtain ⟨y, -, h⟩ := bind_eq_ok.1 h
    obtain ⟨rest, hrest, h⟩ := bind_eq_ok.1 h
    cases h
    exact congrArg (· + 1) (ih hrest)

/-- Where nothing is left out, as many are read as are given, so each gives its own. -/
theorem filterMap_mapM_eq_ok_iff {α β : Type} {f : α → Except Fault (Option β)} {g : α → β}
    (xs : List α) :
    (do return (← xs.mapM f).filterMap id) = (.ok (xs.map g) : Except Fault (List β)) ↔
      ∀ x ∈ xs, f x = .ok (some (g x)) := by
  induction xs with
  | nil => exact iff_of_true rfl (by simp)
  | cons x xs ih =>
    rw [List.forall_mem_cons, ← ih, List.mapM_cons]
    constructor
    · intro h
      obtain ⟨ys, hys, h⟩ := bind_eq_ok.1 h
      obtain ⟨y?, hy, hys⟩ := bind_eq_ok.1 hys
      obtain ⟨rest, hrest, hys⟩ := bind_eq_ok.1 hys
      cases hys
      have hkept := Except.ok.inj h
      cases y? with
      | none =>
        have hlen := congrArg List.length hkept
        have hle := List.length_filterMap_le id rest
        rw [length_of_mapM hrest] at hle
        rw [List.length_map, List.length_cons, List.filterMap_cons_none rfl] at hlen
        omega
      | some y =>
        obtain ⟨hg, hlater⟩ := List.cons.inj hkept
        rw [hy, hrest, show y = g x from hg]
        exact ⟨rfl, congrArg Except.ok hlater⟩
    · rintro ⟨hx, h⟩
      obtain ⟨rest, hrest, h⟩ := bind_eq_ok.1 h
      rw [hx, hrest]
      exact congrArg (fun ys => Except.ok (g x :: ys)) (Except.ok.inj h)

/-- Pairs that are written one after another, with commas between them, are all read back exactly
if no value is only the own sign again and none is taken for a name with a default. -/
theorem all_written_eq_ok_iff (ps : List WrittenPair) :
    Entry.all (joinWith [','] (ps.map WrittenPair.text)) =
        .ok (ps.map fun p => ⟨p.key, some p.value⟩) ↔
      ∀ p ∈ ps, isVoid p.sign p.value = false ∧ ¬ TakenForDefault p.value := by
  have hsplit : splitTopLevel ',' (joinWith [','] (ps.map WrittenPair.text)) = ps.map WrittenPair.text := by
    rw [splitTopLevel_joinWith (by decide) (List.forall_mem_map.2 fun p _ => p.isPiece_text),
      List.filter_eq_self]
    exact List.forall_mem_map.2 fun p _ => by rw [p.isBlankText_text]; rfl
  have hentries : ((ps.map WrittenPair.text).map trim).filter (!startsWith · "...".toList) =
      ps.map fun p => p.front ++ p.value := by
    rw [List.map_map, List.filter_eq_self.2]
    · exact List.map_congr_left fun p _ => p.trim_text
    · refine List.forall_mem_map.2 fun p _ => ?_
      rw [Function.comp_apply, p.trim_text, p.not_spread]
      rfl
  have hmapM := filterMap_mapM_eq_ok_iff (f := fun p : WrittenPair => Entry.read (p.front ++ p.value))
    (g := fun p => ⟨p.key, some p.value⟩) ps
  simp only [WrittenPair.read_eq_iff] at hmapM
  rw [← hmapM]
  unfold Entry.all
  rw [hsplit]
  dsimp only
  rw [hentries, List.mapM_map]
  rfl

theorem isValue_of_not_mem {value : List Char} (hblank : isBlankText value = false)
    (htrim : trim value = value) (hbalanced : isBalanced value = true)
    (hclosed : closesLiterals value = true) (hcomma : (',', .code) ∉ mark value) : IsValue value where
  nonblank := hblank
  trimmed := htrim
  balanced := hbalanced
  closed := hclosed
  whole := by
    rintro ⟨before, after, hmark, -⟩
    rw [hmark] at hcomma
    exact hcomma (by simp)

def compared : WrittenPair := .withEquals "ok".toList "a === b".toList (by decide)
  (isValue_of_not_mem (by decide) (by decide) (by decide) (by decide) (by decide))

def chosen : WrittenPair := .withColon "wide".toList "a === b ? () => pick('x, y') : c".toList (by decide)
  (isValue_of_not_mem (by decide) (by decide) (by decide) (by decide) (by decide))

/-- A comparison behind a name is taken for a default, but not one in which an arrow stands. -/
theorem comparison_not_read_back :
    Entry.all " wide: a === b ? () => pick('x, y') : c".toList =
        .ok [⟨"wide".toList, some "a === b ? () => pick('x, y') : c".toList⟩] ∧
      Entry.all " wide: a === b ? () => pick('x, y') : c, ok = a === b".toList ≠
        .ok [⟨"wide".toList, some "a === b ? () => pick('x, y') : c".toList⟩,
          ⟨"ok".toList, some "a === b".toList⟩] := by
  have hread (p : WrittenPair) (h : Entry.defaultIn p.value = .ok p.value) :=
    Entry.defaultIn_eq_self_iff.1 h
  constructor
  · exact (all_written_eq_ok_iff [chosen]).2 (by simpa using ⟨by decide, hread chosen (by decide)⟩)
  · intro hall
    have hboth := (all_written_eq_ok_iff [chosen, compared]).1 hall
    refine (hboth compared (by simp)).2 (not_not.1 fun h => ?_)
    exact absurd (Entry.defaultIn_eq_self_iff.2 h) (by decide)

end Recast
