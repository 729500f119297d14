import Recast.Optimize.Media
import Recast.Proofs.Pattern.Places
import Recast.Proofs.Text.Parts

/-!
# Places of loading hints

A hint is put behind the name of a media tag. The pattern of the tag is read anywhere in the text, so the place
is inside a literal or a comment if the sign of the tag is not code. And a hint holds double quotes, so one that
stands open before it finds a partner in the hint.

If neither happens, the text with the hints is scanned as the text is, and the hints by themselves; otherwise
it is not (`hints_apart`).
-/

namespace Recast.Media

open Text Pattern Pattern.Generated

/-! ### Parts put between parts -/

/-- From position `i` on, the parts of a text and between them those of the texts put in. -/
inductive Woven : (i : Nat) → Scanned → List (Span × List Char) → Scanned → Prop
  | nil {i} : Woven i [] [] []
  | part {i p ps hints qs} (h : Woven (i + p.2.length) ps hints qs) : Woven i (p :: ps) hints (p :: qs)
  | insert {i hint ps hints qs} (h : Woven i ps hints qs) :
      Woven i ps ((⟨i, i⟩, hint) :: hints) (scan hint ++ qs)

theorem Woven.refl (i : Nat) (ps : Scanned) : Woven i ps [] ps := by
  induction ps generalizing i with
  | nil => exact .nil
  | cons p ps ih => exact .part (ih _)

theorem Woven.append {i : Nat} {a ps qs : Scanned} {hints : List (Span × List Char)}
    (h : Woven (i + (written a).length) ps hints qs) : Woven i (a ++ ps) hints (a ++ qs) := by
  induction a generalizing i with
  | nil => exact h
  | cons p a ih =>
    rw [written_cons, List.length_append, ← Nat.add_assoc] at h
    exact .part (ih h)

/-- Up to the first place the parts are those of the text. -/
theorem Woven.split {i p : Nat} {ps qs : Scanned} {hint : List Char} {hints : List (Span × List Char)}
    (h : Woven i ps ((⟨p, p⟩, hint) :: hints) qs) :
    ∃ a b c, ps = a ++ b ∧ qs = a ++ (scan hint ++ c) ∧ i + (written a).length = p ∧ Woven p b hints c := by
  generalize hall : (⟨p, p⟩, hint) :: hints = all at h
  induction h with
  | nil => cases hall
  | part _ ih =>
    obtain ⟨a, b, c, rfl, rfl, rfl, hwoven⟩ := ih hall
    refine ⟨_ :: a, b, c, rfl, rfl, ?_, hwoven⟩
    rw [written_cons, List.length_append, Nat.add_assoc]
  | insert h =>
    cases hall
    exact ⟨[], _, _, rfl, rfl, rfl, h⟩

/-! ### Hints -/

/-- A name and a quoted value are scanned by themselves. -/
theorem scanAfter_quoted (name value : List Char) (hname : name.all isPlain = true)
    (hlast : name.getLast? = some '=') (hend : ('"' :: value).getLast? = some '"')
    (hvalue : ∀ rest, stringLength? '"' (value ++ rest) = some value.length) (prev : Option Char)
    (rest : List Char) :
    scanAfter prev ((name ++ '"' :: value) ++ rest) =
      scan (name ++ '"' :: value) ++ scanAfter (some '"') rest := by
  have hliteral (rest : List Char) :
      literal? (some '=') (('"' :: value) ++ rest) = some (.quoted, ('"' :: value).length) := by
    rw [List.cons_append, literal?_string (.inr rfl), hvalue]
    rfl
  have hparts (prev : Option Char) (rest : List Char) : scanAfter prev (name ++ ('"' :: value ++ rest)) =
      name.map (fun c => (.code, [c])) ++ (.quoted, '"' :: value) :: scanAfter (some '"') rest := by
    rw [scanAfter_plain hname, hlast, Option.some_or, scanAfter_literal (List.cons_ne_nil _ _) (hliteral rest), hend]
  have halone := hparts none []
  rw [List.append_nil] at halone
  rw [List.append_assoc, hparts, scan, halone, List.append_assoc]
  rfl

/-- What is put in: it is scanned by itself, and the search for the partner of a quote before it goes over it
for a single quote and ends in it for a double one. -/
structure IsAttribute (hint : List Char) : Prop where
  head : hint.head? = some ' '
  scanned : ∀ prev rest, scanAfter prev (hint ++ rest) = scan hint ++ scanAfter (some '"') rest
  single : ∀ rest, closes '\'' false (hint ++ rest) = closes '\'' false rest
  double : ∀ rest, closes '"' false (hint ++ rest) = true

theorem isAttribute_hintFor (tag : List Char) : IsAttribute (hintFor tag).2.toList := by
  unfold hintFor
  split
  · exact ⟨rfl, scanAfter_quoted " preload=".toList "metadata\"".toList (by decide) rfl rfl fun _ => rfl, fun _ => rfl, fun _ => rfl⟩
  · exact ⟨rfl, scanAfter_quoted " loading=".toList "lazy\"".toList (by decide) rfl rfl fun _ => rfl, fun _ => rfl, fun _ => rfl⟩

/-- From position `i` on, each hint stands behind a letter of the text and before no quote. -/
inductive Placed : (i : Nat) → (text : List Char) → List (Span × List Char) → Prop
  | nil {i text} : Placed i text []
  | cons {i u x v p hint hints} (hx : isIdentChar x = true) (hv : v.head? ≠ some '\'' ∧ v.head? ≠ some '"')
      (hne : v ≠ []) (hp : p = i + (u.length + 1)) (hhint : IsAttribute hint) (h : Placed p v hints) :
      Placed i (u ++ x :: v) ((⟨p, p⟩, hint) :: hints)

theorem Placed.skip {i j : Nat} {u text : List Char} {hints : List (Span × List Char)} (hj : j = i + u.length)
    (h : Placed j text hints) : Placed i (u ++ text) hints := by
  cases h with
  | nil => exact .nil
  | @cons _ u' x v p hint hints hx hv hne hp hhint h =>
    rw [← List.append_assoc]
    refine .cons hx hv hne ?_ hhint h
    rw [hp, hj, List.length_append]
    omega

theorem splice_insert (i : Nat) (u v : List Char) (x : Char) (hint : List Char) (hints : List (Span × List Char)) :
    splice i (u ++ x :: v) ((⟨i + (u.length + 1), i + (u.length + 1)⟩, hint) :: hints) =
      u ++ x :: (hint ++ splice (i + (u.length + 1)) v hints) := by
  have hlength : (u ++ [x]).length = u.length + 1 := List.length_append
  have htake : (u ++ x :: v).take (u.length + 1) = u ++ [x] := by
    rw [List.append_cons, ← hlength, List.take_left]
  have hdrop : (u ++ x :: v).drop (u.length + 1) = v := by
    rw [List.append_cons, ← hlength, List.drop_left]
  simp only [splice, Nat.add_sub_cancel_left, htake, hdrop, List.append_assoc, List.singleton_append]
  rfl

theorem Placed.start_lt {i : Nat} {text : List Char} {hints : List (Span × List Char)}
    (h : Placed i text hints) : ∀ e ∈ hints, i < e.1.start := by
  induction h with
  | nil => exact fun e he => nomatch he
  | cons _ _ _ hp _ _ ih =>
    subst hp
    exact List.forall_mem_cons.2 ⟨Nat.lt_add_of_pos_right (Nat.succ_pos _), fun e he =>
      (Nat.le_add_right _ _).trans_lt (ih e he)⟩

theorem Placed.head?_splice {i : Nat} {text : List Char} {hints : List (Span × List Char)}
    (h : Placed i text hints) : (splice i text hints).head? = text.head? := by
  cases h with
  | nil => rfl
  | @cons _ u x v p hint hints _ _ _ hp =>
    subst hp
    rw [splice_insert]
    cases u <;> rfl

theorem ne_of_isIdentChar {x : Char} (hx : isIdentChar x = true) : isPlain x = true ∧ x ≠ '\\' ∧ x ≠ '"' := by
  refine ⟨(Bool.and_eq_true_iff.1 (Bool.and_eq_true_iff.1 (isNeutral_of_isIdentChar hx)).1).1, ?_, ?_⟩ <;>
  · rintro rfl
    cases hx

/-- The hints are nothing to a single quote that is looking for its partner. -/
theorem Placed.closes_splice {i : Nat} {text : List Char} {hints : List (Span × List Char)}
    (h : Placed i text hints) : closes '\'' false (splice i text hints) = closes '\'' false text := by
  induction h with
  | nil => rfl
  | @cons i u x v p hint hints hx hv hne hp hhint h ih =>
    subst hp
    have hbehind := (hhint.single (splice (i + (u.length + 1)) v hints)).trans ih
    have hesc := (ne_of_isIdentChar hx).2.1
    rw [splice_insert, Bool.eq_iff_iff]
    exact ⟨closes_behind hesc (hbehind ▸ id) u, closes_behind hesc (hbehind ▸ id) u⟩

/-! ### One hint -/

/-- The scan of the text goes over to that of the text with a hint behind a letter, exactly if the letter is
code and no double quote is open there. -/
theorem woven_cons_iff {prev : Option Char} {i : Nat} {u v out hint : List Char} {x : Char}
    {hints : List (Span × List Char)} (hx : isIdentChar x = true) (hhint : IsAttribute hint)
    (hout : out.head? ≠ some '\'' ∧ out.head? ≠ some '"')
    (hsingle : closes '\'' false out = closes '\'' false v) :
    Woven i (scanAfter prev (u ++ x :: v)) ((⟨i + (u.length + 1), i + (u.length + 1)⟩, hint) :: hints)
        (scanAfter prev (u ++ x :: (hint ++ out))) ↔
      (CodeAt prev (u ++ x :: v) u.length ∧ ¬ QuoteOpen prev (u ++ x :: v) (u.length + 1)) ∧
        Woven (i + (u.length + 1)) (scanAfter (some x) v) hints (scanAfter (some x) out) := by
  obtain ⟨hplain, hesc, hquote⟩ := ne_of_isIdentChar hx
  have hbehind : scanAfter (some x) (hint ++ out) = scan hint ++ scanAfter (some x) out := by
    rw [hhint.scanned, scanAfter_alike (.inr hout)]
  constructor
  · intro h
    obtain ⟨a, b, c, ha, hc, hlength, hrest⟩ := h.split
    -- No line ends in front of the hint, so the part that does is the letter.
    obtain ⟨a, rfl, rfl⟩ : ∃ a', a = a' ++ [(.code, [x])] ∧ written a' = u := by
      obtain ⟨r, hr⟩ := List.head?_eq_some_iff.1 hhint.head
      rw [hr, List.cons_append] at hc
      exact exists_concat_code hplain (by decide) hc (by omega)
    rw [List.append_assoc, List.singleton_append] at ha hc
    obtain rfl := scanAfter_behind ha
    have hout' := scanAfter_behind hc
    rw [hout'] at hc
    rw [hbehind, List.append_cancel_left_eq] at hout'
    refine ⟨⟨⟨a, x, _, ha, rfl⟩, fun hopen => ?_⟩, hout' ▸ hrest⟩
    -- A quote that is open here would have its partner in the hint.
    obtain ⟨b, d, rfl, hprev, hcloses⟩ := (quoteOpen_at_iff ha hquote).1 hopen
    rw [List.append_assoc, List.cons_append] at hc
    have hnone := not_closes_of_code (.inr rfl) hc hprev
    rw [written_concat, written_scanAfter, closes_behind hesc (fun _ => hhint.double out) _ hcloses] at hnone
    cases hnone
  · rintro ⟨⟨hcode, hclosed⟩, h⟩
    obtain ⟨a, hscan, rfl⟩ := hcode.scanAfter_eq
    have hchange : scanAfter prev (written a ++ x :: (hint ++ out)) =
        a ++ (.code, [x]) :: scanAfter (some x) (hint ++ out) := by
      refine scanAfter_change hplain hscan fun b q c ha hq hprev hcloses => ?_
      rcases hq with rfl | rfl
      · refine closes_behind hesc (fun h => ?_) _ hcloses
        rwa [hhint.single, hsingle] at h
      · have hopen := closes_behind (s := ['"']) hesc (fun _ => rfl) _ hcloses
        exact absurd ((quoteOpen_at_iff hscan hquote).2 ⟨b, c, ha, hprev, hopen⟩) hclosed
    rw [hscan, hchange, hbehind, List.append_cons a _ (scanAfter (some x) v), List.append_cons a _ (scan hint ++ _)]
    refine Woven.append ?_
    rw [written_concat, List.length_append]
    exact .insert h

/-! ### All hints -/

/-- Every hint stands behind code, and no double quote is open there. -/
def Apart (prev : Option Char) (i : Nat) (text : List Char) (hints : List (Span × List Char)) : Prop :=
  ∀ e ∈ hints, ∀ k, e.1.start = i + (k + 1) → CodeAt prev text k ∧ ¬ QuoteOpen prev text (k + 1)

/-- A hint whose place is apart parts the text: what holds of the places behind it holds of them in the text
that begins there. -/
theorem apart_cons_iff {prev : Option Char} {i p : Nat} {u v hint : List Char} {x : Char}
    {hints : List (Span × List Char)} (hx : isIdentChar x = true) (hp : p = i + (u.length + 1))
    (hlt : ∀ e ∈ hints, p < e.1.start) :
    Apart prev i (u ++ x :: v) ((⟨p, p⟩, hint) :: hints) ↔
      (CodeAt prev (u ++ x :: v) u.length ∧ ¬ QuoteOpen prev (u ++ x :: v) (u.length + 1)) ∧
        Apart (some x) p v hints := by
  obtain ⟨-, hesc, hquote⟩ := ne_of_isIdentChar hx
  subst hp
  constructor
  · intro h
    obtain ⟨hfirst, hrest⟩ := List.forall_mem_cons.1 h
    obtain ⟨hcode, hclosed⟩ := hfirst u.length rfl
    obtain ⟨a, hscan, rfl⟩ := hcode.scanAfter_eq
    refine ⟨⟨hcode, hclosed⟩, fun e he k hk => ?_⟩
    obtain ⟨hcode, hopen⟩ := hrest e he ((written a).length + 1 + k) (by omega)
    exact ⟨(codeAt_behind_iff hscan k).1 hcode, fun hquote' => hopen
      ((quoteOpen_behind_iff hscan hquote hesc hclosed (k + 1)).2 hquote')⟩
  · rintro ⟨⟨hcode, hclosed⟩, hrest⟩
    obtain ⟨a, hscan, rfl⟩ := hcode.scanAfter_eq
    refine List.forall_mem_cons.2 ⟨fun k hk => ?_, fun e he k hk => ?_⟩
    · obtain rfl : (written a).length = k := Nat.succ.inj (Nat.add_left_cancel hk)
      exact ⟨hcode, hclosed⟩
    · have hbehind := hlt e he
      obtain ⟨j, rfl⟩ := Nat.exists_eq_add_of_le (show (written a).length + 1 ≤ k by omega)
      obtain ⟨hcode, hopen⟩ := hrest e he j (by omega)
      exact ⟨(codeAt_behind_iff hscan j).2 hcode, fun hquote' => hopen
        ((quoteOpen_behind_iff hscan hquote hesc hclosed (j + 1)).1 hquote')⟩

theorem Placed.woven_iff {prev : Option Char} {i : Nat} {text : List Char} {hints : List (Span × List Char)}
    (h : Placed i text hints) :
    Woven i (scanAfter prev text) hints (scanAfter prev (splice i text hints)) ↔ Apart prev i text hints := by
  induction h generalizing prev with
  | nil => exact iff_of_true (.refl _ _) fun e he => nomatch he
  | @cons i u x v p hint hints hx hv hne hp hhint h ih =>
    rw [apart_cons_iff hx hp h.start_lt, ← ih]
    subst hp
    rw [splice_insert]
    exact woven_cons_iff hx hhint (h.head?_splice ▸ hv) h.closes_splice

/-! ### Media tags -/

/-- The names of the tags that take a hint. -/
def mediaNames : List (List Char) := ["img".toList, "iframe".toList, "video".toList]

/-- What is read as a media tag: the sign, the name, which is group 1, and one character that ends it. -/
theorem reads_mediaTag {c c' : Cursor} {g g' : Groups} (h : Reads mediaTag c g c' g') :
    ∃ name d, name ∈ mediaNames ∧ d ≠ '\'' ∧ d ≠ '"' ∧ c.rest = '<' :: (name ++ d :: c'.rest) ∧
      g'.lookup 1 = some ⟨c.pos + 1, c.pos + 1 + name.length⟩ := by
  obtain ⟨c₂, g₂, h, hend⟩ := reads_append.1 h
  obtain ⟨c₁, g₁, hsign, hgroup⟩ := reads_append.1 h
  obtain ⟨-, hrest₁, hpos₁⟩ := reads_lit hsign
  obtain ⟨g₀, hword, rfl⟩ := reads_group hgroup
  obtain ⟨name, hmem, hrest₂, hpos₂⟩ : ∃ name ∈ mediaNames, c₁.rest = name ++ c₂.rest ∧
      c₂.pos = c₁.pos + name.length := by
    have hlit {word : String} (hmem : word.toList ∈ mediaNames) (h : Reads (lit word) c₁ g₁ c₂ g₀) :
        ∃ name ∈ mediaNames, c₁.rest = name ++ c₂.rest ∧ c₂.pos = c₁.pos + name.length :=
      ⟨_, hmem, (reads_lit h).2⟩
    cases hword with
    | left h => exact hlit (by decide) h
    | right h =>
      cases h with
      | left h => exact hlit (by decide) h
      | right h => exact hlit (by decide) h
  have hend' {c c' : Cursor} {g g' : Groups} {t : Char → Bool} (h : Reads (char t) c g c' g') :
      g' = g ∧ ∃ d, c.rest = d :: c'.rest ∧ t d = true := by
    cases h with
    | char hd => exact ⟨rfl, _, rfl, hd⟩
  obtain ⟨rfl, d, hd, hclass⟩ := hend' hend
  refine ⟨name, d, hmem, ?_, ?_, ?_, ?_⟩
  · rintro rfl
    cases hclass
  · rintro rfl
    cases hclass
  · rw [hrest₁, hrest₂, hd]
    rfl
  · have hpos : c₁.pos = c.pos + 1 := hpos₁
    rw [hpos₂, hpos]
    exact List.lookup_cons_self

theorem of_mem_mediaNames {name : List Char} (h : name ∈ mediaNames) :
    ('<' :: name).all isPlain = true ∧ '\n' ∉ '<' :: name ∧
      ∃ u x, '<' :: name = u ++ [x] ∧ isIdentChar x = true := by
  simp only [mediaNames, List.mem_cons, List.not_mem_nil, or_false] at h
  rcases h with rfl | rfl | rfl
  · exact ⟨by decide, by decide, "<im".toList, 'g', rfl, rfl⟩
  · exact ⟨by decide, by decide, "<ifram".toList, 'e', rfl, rfl⟩
  · exact ⟨by decide, by decide, "<vide".toList, 'o', rfl, rfl⟩

/-- A hint stands behind the name of its tag. -/
theorem missingHint?_eq_some {content : List Char} {m : Match} {e : Span × List Char} {tag : Span}
    (htag : m.groups.lookup 1 = some tag) (h : missingHint? content m = some e) :
    e = (⟨tag.stop, tag.stop⟩, (hintFor (tag.text content)).2.toList) := by
  unfold missingHint? at h
  have hgroup : m.group? 1 = some tag := htag
  rw [hgroup] at h
  simp only [Option.bind_eq_bind, Option.bind_some, Option.bind_eq_some_iff] at h
  obtain ⟨element, -, h⟩ := h
  split at h
  · cases h
  · exact (Option.some.inj h).symm

theorem placed_matchesFrom (content : List Char) (fuel pos : Nat) (prev : Option Char) (rest : List Char) :
    Placed pos rest ((mediaTag.matchesFrom fuel pos prev 0 rest).filterMap (missingHint? content)) := by
  -- The search goes on behind a match, so the induction is on the length of the rest.
  induction hn : rest.length using Nat.strongRecOn generalizing pos prev rest with
  | _ n ih =>
    subst hn
    cases hm : mediaTag.matchAt? fuel ⟨pos, prev, rest⟩ with
    | none =>
      cases rest with
      | nil =>
        simp only [matchesFrom, hm]
        exact .nil
      | cons c r =>
        simp only [matchesFrom, hm]
        exact Placed.skip (u := [c]) rfl (ih r.length (Nat.lt_succ_self _) _ _ r rfl)
    | some m =>
      obtain ⟨u, y, rfl, hreads, hspan⟩ := reads_of_matchAt? hm
      obtain ⟨name, d, hname, hsingle, hdouble, hrest, htag⟩ := reads_mediaTag hreads
      obtain ⟨-, -, w, x, hword, hx⟩ := of_mem_mediaNames hname
      have hlength : w.length + 1 = 1 + name.length := by
        have hlength := congrArg List.length hword
        rw [List.length_append, List.length_cons, List.length_singleton] at hlength
        omega
      obtain rfl : u = w ++ [x, d] := by
        have hcut : '<' :: (name ++ d :: y) = (w ++ [x, d]) ++ y := by
          rw [← List.cons_append, hword]
          simp
        exact List.append_cancel_right (hrest.trans hcut)
      have hlater := ih y.length (by simp; omega) (pos + (w ++ [x, d]).length) ((w ++ [x, d]).getLast?.or prev) y rfl
      rw [matchesFrom_hit (by simp) hm hspan, List.filterMap_cons]
      cases he : missingHint? content m with
      | none => exact hlater.skip rfl
      | some e =>
        obtain rfl := missingHint?_eq_some htag he
        have hcut : (w ++ [x, d]) ++ y = w ++ x :: d :: y := by simp
        rw [hcut]
        refine .cons hx ⟨?_, ?_⟩ (List.cons_ne_nil d y) ?_ (isAttribute_hintFor _) (hlater.skip (u := [d]) ?_)
        · simpa using hsingle
        · simpa using hdouble
        · show pos + 1 + name.length = _
          omega
        · show _ = pos + 1 + name.length + 1
          rw [List.length_append]
          show pos + (w.length + 2) = _
          omega

theorem placed_missingHints (content : List Char) : Placed 0 content (missingHints content) :=
  placed_matchesFrom content content.length 0 none content

/-- A hint stands behind the name of a tag. -/
theorem exists_of_missingHint? {content : List Char} {m : Match} {e : Span × List Char}
    (hm : m ∈ mediaTag.matchesOf content) (he : missingHint? content m = some e) :
    ∃ y name d r, content = y ++ ('<' :: name ++ d :: r) ∧ name ∈ mediaNames ∧ m.start = y.length ∧
      e.1.start = y.length + ('<' :: name).length := by
  obtain ⟨c, c', hc, hreads, hspan⟩ := exists_reads_of_mem_matchesOf hm
  obtain ⟨name, d, hname, -, -, hrest, htag⟩ := reads_mediaTag hreads
  obtain rfl := missingHint?_eq_some htag he
  have hlength : (content.take c.pos).length = c.pos := List.length_take_of_le hc.le
  refine ⟨content.take c.pos, name, d, c'.rest, ?_, hname, ?_, ?_⟩
  · rw [List.cons_append, ← hrest, hc.rest, List.take_append_drop]
  · rw [hlength, Match.start, hspan]
  · rw [hlength, List.length_cons]
    show c.pos + 1 + name.length = _
    omega

/-- The place of a hint is outside exactly if the sign of the tag is code, and exactly if the character in front
of the place is. -/
theorem inside_iff {content : List Char} {m : Match} {e : Span × List Char}
    (hm : m ∈ mediaTag.matchesOf content) (he : missingHint? content m = some e) :
    (Inside content e.1.start ↔ ¬ CodeAt none content m.start) ∧
      ∃ k, e.1.start = k + 1 ∧ (Inside content e.1.start ↔ ¬ CodeAt none content k) := by
  obtain ⟨y, name, d, r, rfl, hname, hstart, hplace⟩ := exists_of_missingHint? hm he
  obtain ⟨hplain, hline, w, x, hword, -⟩ := of_mem_mediaNames hname
  rw [hword] at hplain hline hplace ⊢
  have hinside := inside_behind_word (y := y) (d := d) (r := r) hplain hline
  have hcut : y ++ (w ++ [x] ++ d :: r) = y ++ (w ++ x :: d :: r) := by simp
  rw [List.length_append, List.length_singleton, ← Nat.add_assoc] at hplace
  rw [hcut, hstart, hplace]
  exact ⟨hinside.1, _, rfl, hinside.2⟩

/-- For every text: the place of a hint is inside a literal or a comment exactly if the sign of its tag is not
code. And the text with its hints is scanned as the text is, with the parts of the hints between the parts of the
text, exactly if no hint has such a place and no double quote stands open at one. -/
theorem hints_apart (content : List Char) :
    (∀ m ∈ mediaTag.matchesOf content, ∀ e, missingHint? content m = some e →
      (Inside content e.1.start ↔ ¬ CodeAt none content m.start)) ∧
    (Woven 0 (scan content) (missingHints content) (scan (addHints content)) ↔
      ∀ e ∈ missingHints content, ¬ Inside content e.1.start ∧ ¬ QuoteOpen none content e.1.start) := by
  refine ⟨fun m hm e he => (inside_iff hm he).1, (placed_missingHints content).woven_iff.trans ?_⟩
  refine forall₂_congr fun e he => ?_
  obtain ⟨m, hm, he⟩ := List.mem_filterMap.1 he
  obtain ⟨-, k, hk, hinside⟩ := inside_iff hm he
  rw [hinside, not_not, hk]
  constructor
  · intro h
    exact h k (Nat.zero_add _).symm
  · intro h j hj
    obtain rfl : k = j := by omega
    exact h

/-- The string that names a tag is taken apart by the hint it gets. -/
theorem namedTag_cuts_string :
    let text := "say(\"<img src=x>\", <img src=y>);".toList
    scan text = "say(".toList.map (fun c => (.code, [c])) ++ (.quoted, "\"<img src=x>\"".toList) ::
        ", <img src=y>);".toList.map (fun c => (.code, [c])) ∧
      ¬ Woven 0 (scan text) (missingHints text) (scan (addHints text)) := by
  intro text
  refine ⟨rfl, fun h => ?_⟩
  have hhint : ((⟨9, 9⟩, " loading=\"lazy\"".toList) : Span × List Char) ∈ missingHints text :=
    List.mem_of_mem_head? rfl
  have hinside : Inside text 9 := ⟨"say(".toList.map fun c => (.code, [c]), .quoted, "\"<img src=x>\"".toList, _,
    rfl, by decide, by decide, .inl (by decide)⟩
  exact (((hints_apart text).2.1 h) _ hhint).1 hinside

end Recast.Media
