import Recast.Proofs.Artifact.IdiomPatterns
import Recast.Proofs.Artifact.Paths
import Recast.Proofs.Text.Pieces

/-!
# State updates that are left

An update of the state by an object literal becomes calls of setters if there is no brace in
the object. What is left of such updates is what did not fit, unless the update stood right
behind `this.` or as the argument of another update: there the new text joins with what is
before it.
-/

namespace Recast.Modernize

open Text Pattern Pattern.Idiom Unicode

theorem mem_of_mem_splitTopLevel {sep c : Char} {text piece : List Char}
    (hpiece : piece ∈ splitTopLevel sep text) (hc : c ∈ piece) : c ∈ text := by
  have hjoin : joinWith [sep] (rawPieces sep 0 (mark text)) = text := by
    rw [joinWith_rawPieces, map_fst_mark]
  have hmem {pieces : List (List Char)} (hpiece : piece ∈ pieces) : c ∈ joinWith [sep] pieces := by
    induction pieces with
    | nil => cases hpiece
    | cons l ls ih =>
      cases ls with
      | nil => rwa [← List.mem_singleton.1 hpiece]
      | cons l' ls =>
        rw [joinWith_cons_cons]
        rcases List.mem_cons.1 hpiece with rfl | hpiece
        · exact List.mem_append_left _ (List.mem_append_left _ hc)
        · exact List.mem_append_right _ (ih hpiece)
  rw [← hjoin]
  exact hmem (List.mem_filter.1 hpiece).1

variable {state : List StateBinding}

theorem brace_not_mem_setterFor (hs : ∀ s ∈ state, '\x7b' ∉ s.setter.toList) (key : List Char) :
    '\x7b' ∉ (setterFor state key).toList := by
  unfold setterFor
  split
  · rename_i s hfind
    exact hs s (List.mem_of_find?_eq_some hfind)
  · rw [String.toList_append, List.mem_append, not_or]
    refine ⟨by decide, fun hmem => ?_⟩
    rw [String.toList_ofList] at hmem
    cases isAlphanum_pascalCase key _ hmem

/-- The call of a setter holds no opening brace and ends with its bracket. -/
structure PlainCall (call : List Char) : Prop where
  noBrace : '\x7b' ∉ call
  close : ∃ v, call = v ++ [')']

theorem plainCall_of_setterCall? (hs : ∀ s ∈ state, '\x7b' ∉ s.setter.toList) {entry : List Char}
    (he : '\x7b' ∉ entry) {call : String} (h : setterCall? state entry = some call) :
    PlainCall call.toList := by
  have htrim {text : List Char} (ht : '\x7b' ∉ text) : '\x7b' ∉ trim text :=
    fun hmem => ht (mem_of_mem_trim hmem)
  have hcall {key value : List Char} (hv : '\x7b' ∉ value) :
      PlainCall (setterFor state key ++ "(" ++ String.ofList value ++ ")").toList := by
    refine ⟨?_, (setterFor state key ++ "(" ++ String.ofList value).toList,
      by rw [String.toList_append]; rfl⟩
    have hsetter := brace_not_mem_setterFor hs key
    simp [hsetter, hv]
  unfold setterCall? at h
  simp only at h
  split at h
  · rename_i k v hcut
    obtain ⟨i, -, hi⟩ := Option.map_eq_some_iff.1 hcut
    cases hi
    split at h
    · cases h
      exact hcall (htrim fun hmem => htrim he (List.mem_of_mem_drop hmem))
    · cases h
  · split at h
    · cases h
      exact hcall (htrim he)
    · cases h

/-- What is put in the place of an update: nothing, or a text with an opening brace at most in
front, which ends with a bracket or a brace. -/
structure PlainUpdate (new : List Char) : Prop where
  noBrace : '\x7b' ∉ new.tail
  close : new = [] ∨ ∃ v d, new = v ++ [d] ∧ (d = ')' ∨ d = '\x7d')

theorem plainUpdate_setterCalls (hs : ∀ s ∈ state, '\x7b' ∉ s.setter.toList) {entries : List Char}
    (he : '\x7b' ∉ entries) : PlainUpdate (setterCalls state entries).toList := by
  have hcalls : ∀ call ∈ (splitTopLevel ',' entries).filterMap (setterCall? state),
      PlainCall call.toList := by
    intro call hcall
    obtain ⟨entry, hentry, hcall⟩ := List.mem_filterMap.1 hcall
    exact plainCall_of_setterCall? hs (fun hmem => he (mem_of_mem_splitTopLevel hentry hmem)) hcall
  unfold setterCalls
  generalize (splitTopLevel ',' entries).filterMap (setterCall? state) = calls at hcalls ⊢
  rcases calls with _ | ⟨call, _ | ⟨call', calls⟩⟩
  · exact ⟨by decide, .inl rfl⟩
  · have hcall := hcalls call List.mem_cons_self
    obtain ⟨v, hv⟩ := hcall.close
    exact ⟨fun hmem => hcall.noBrace (List.mem_of_mem_tail hmem), .inr ⟨v, ')', hv, .inl rfl⟩⟩
  · have hblock {inner : String} : ("\x7b " ++ inner ++ "; \x7d").toList =
        ('\x7b' :: ' ' :: (inner.toList ++ [';', ' '])) ++ ['\x7d'] := by
      rw [String.toList_append, String.toList_append, List.append_assoc, List.cons_append, List.cons_append,
        List.append_assoc]
      rfl
    have hinner : '\x7b' ∉ (String.intercalate "; " (call :: call' :: calls)).toList := by
      intro hmem
      rw [String.toList_intercalate] at hmem
      rcases mem_intercalate hmem with hmem | ⟨_, hmap, hmem⟩
      · exact absurd hmem (by decide)
      · obtain ⟨c, hc, rfl⟩ := List.mem_map.1 hmap
        exact (hcalls c hc).noBrace hmem
    show PlainUpdate ("\x7b " ++ String.intercalate "; " (call :: call' :: calls) ++ "; \x7d").toList
    generalize String.intercalate "; " (call :: call' :: calls) = inner at hinner ⊢
    rw [hblock]
    exact ⟨by simp [hinner], .inr ⟨_, '\x7d', rfl, .inr rfl⟩⟩

/-- How an update by an object literal begins, with blanks `s` before the brace. -/
def updateHead (s : List Char) : List Char := "this.setState(".toList ++ (s ++ ['\x7b'])

theorem updateHead_ne_nil (s : List Char) :
    updateHead s ≠ [] := List.append_ne_nil_of_left_ne_nil (by decide) _

theorem updateHead_append (s rest : List Char) :
    updateHead s ++ rest = "this.setState(".toList ++ (s ++ '\x7b' :: rest) := by
  unfold updateHead
  rw [List.append_assoc, List.append_assoc]
  rfl

/-- The text closes an object and the call around it without another brace. -/
def ClosesUpdate (rest : List Char) : Prop :=
  ∃ arg s after, rest = arg ++ '\x7d' :: (s ++ ')' :: after) ∧ '\x7b' ∉ arg ∧ '\x7d' ∉ arg ∧
    s.all isBlank = true

/-- An update that fits becomes the calls of setters. -/
def UpdateHit (state : List StateBinding) (prev : Option Char) (u _rest new : List Char) : Prop :=
  inWord prev = false ∧ ∃ s arg s', u = updateHead s ++ (arg ++ '\x7d' :: (s' ++ [')'])) ∧
    s.all isBlank = true ∧ '\x7b' ∉ arg ∧ '\x7d' ∉ arg ∧ s'.all isBlank = true ∧
    new = (setterCalls state arg).toList

theorem edited_stateUpdates (state : List StateBinding) (code : List Char) :
    Edited (Unread setStateObject) (UpdateHit state) none code (stateUpdates state code) := by
  refine (edited_replaceAll rfl rfl _ code).mono (fun _ _ => id) ?_
  intro prev u rest new hit
  obtain ⟨hprev, s, arg, s', m, hu, hs, ho, hc, hs', rfl, hgroup⟩ := replaced_setStateObject hit
  refine ⟨hprev, s, arg, s', hu.trans ?_, hs, ho, hc, hs', by rw [hgroup]⟩
  rw [updateHead_append]

theorem not_mem_of_blank {s : List Char} (hs : s.all isBlank = true) {c : Char}
    (hc : isBlank c = false) : c ∉ s := by
  intro hmem
  rw [List.all_eq_true.1 hs c hmem] at hc
  cases hc

theorem not_mem_updateHead {s : List Char} (hs : s.all isBlank = true) {d : Char}
    (hd : d = ')' ∨ d = '\x7d') :
    d ∉ updateHead s := by
  have hblank : d ∉ s := not_mem_of_blank hs (by rcases hd with rfl | rfl <;> decide)
  unfold updateHead
  rw [List.mem_append, List.mem_append, List.mem_singleton]
  rintro (h | h | h)
  · rcases hd with rfl | rfl <;> exact absurd h (by decide)
  · exact hblank h
  · rcases hd with rfl | rfl <;> cases h

theorem inWord_updateHit {prev : Option Char} {u rest new : List Char}
    (h : UpdateHit state prev u rest new) :
    inWord (u.getLast?.or prev) = false := by
  obtain ⟨-, s, arg, s', rfl, -⟩ := h
  have hlast := inWord_concat (updateHead s ++ (arg ++ '\x7d' :: s')) ')' prev
  simp only [List.append_assoc, List.cons_append] at hlast
  exact hlast

theorem plainUpdate_of_updateHit (hs : ∀ s ∈ state, '\x7b' ∉ s.setter.toList) {prev : Option Char}
    {u rest new : List Char} (h : UpdateHit state prev u rest new) : PlainUpdate new := by
  obtain ⟨-, s, arg, s', -, -, ho, -, -, rfl⟩ := h
  exact plainUpdate_setterCalls hs ho

theorem edge_updateHit (hs : ∀ s ∈ state, '\x7b' ∉ s.setter.toList) (prev : Option Char)
    (u rest new : List Char) (h : UpdateHit state prev u rest new) :
    inWord (new.getLast?.or prev) = inWord (u.getLast?.or prev) := by
  rw [inWord_updateHit h]
  rcases (plainUpdate_of_updateHit hs h).close with rfl | ⟨v, d, rfl, hd⟩
  · exact h.1
  · rw [inWord_concat]
    rcases hd with rfl | rfl <;> decide

theorem seals_updateHit (hs : ∀ s ∈ state, '\x7b' ∉ s.setter.toList) {s : List Char}
    (hblank : s.all isBlank = true) :
    Seals (UpdateHit state) (updateHead s) where
  edge := edge_updateHit hs
  leave := by
    intro prev u rest new hit x y hxy hx hy hsuffix
    rcases (plainUpdate_of_updateHit hs hit).close with rfl | ⟨v, d, rfl, hd⟩
    · exact hx (List.suffix_nil.1 hsuffix)
    · exact not_trail_of_not_mem (not_mem_updateHead hblank hd) hxy hx hsuffix

theorem not_mentions_updateHit (hs : ∀ s ∈ state, '\x7b' ∉ s.setter.toList) {s : List Char}
    {prev : Option Char} {u rest new : List Char} (h : UpdateHit state prev u rest new) :
    ¬ Mentions (updateHead s) prev new := by
  rintro ⟨a, b, rfl, -⟩
  refine (plainUpdate_of_updateHit hs h).noBrace ?_
  have hne : a ++ "this.setState(".toList ≠ [] := by simp
  rw [updateHead_append, ← List.append_assoc, List.tail_append_of_ne_nil hne]
  simp

/-- The update that `u` is read of stands right behind `this.` or as the argument of an update. -/
def Joins (x : List Char) : Prop :=
  x = "this.".toList ∨ ∃ s, s.all isBlank = true ∧ x = "this.setState(".toList ++ s

theorem joins_of_updateHead {s x y : List Char} (hs : s.all isBlank = true)
    (hxy : updateHead s = x ++ y)
    (hx : x ≠ []) (hy : y ≠ []) (hword : inWord x.getLast? = false) : Joins x := by
  rcases List.append_eq_append_iff.1 hxy with ⟨v, rfl, hv⟩ | ⟨v, hv, -⟩
  · refine .inr ⟨v, ?_, rfl⟩
    obtain ⟨y, d, rfl⟩ : ∃ y' d, y = y' ++ [d] :=
      ⟨y.dropLast, y.getLast hy, (List.dropLast_concat_getLast hy).symm⟩
    rw [← List.append_assoc] at hv
    obtain ⟨rfl, -⟩ := List.append_inj' hv rfl
    rw [List.all_append, Bool.and_eq_true] at hs
    exact hs.1
  · have hends : ∀ i < "this.setState(".toList.length + 1, 0 < i →
        inWord ("this.setState(".toList.take i).getLast? = false → i = 5 ∨ i = 14 := by decide
    have htake : "this.setState(".toList.take x.length = x := by rw [hv, List.take_left]
    have hle : x.length < "this.setState(".toList.length + 1 := by
      rw [hv, List.length_append]
      omega
    rcases hends x.length hle (List.length_pos_iff.2 hx) (by rwa [htake]) with hlength | hlength
    · exact .inl (by rw [← htake, hlength]; rfl)
    · exact .inr ⟨[], rfl, by rw [← htake, hlength]; rfl⟩

theorem not_meet_updateHead {s x y u : List Char} (hs : s.all isBlank = true)
    (hxy : updateHead s = x ++ y)
    (hx : x ≠ []) (hy : y ≠ []) (hu : "this.setState(".toList <+: u) : ¬ (y <+: u ∨ u <+: y) := by
  -- The end of the head behind its bracket does not begin with `t`.
  have htail {y : List Char} (hsub : ∀ c ∈ y, c ∈ s ++ ['\x7b']) (hy : y ≠ []) : ¬ (y <+: u ∨ u <+: y) := by
    obtain ⟨c, y, rfl⟩ := List.exists_cons_of_ne_nil hy
    obtain ⟨v, rfl⟩ := hu
    have hc : c ≠ 't' := by
      rintro rfl
      have hmem := hsub 't' List.mem_cons_self
      simp [not_mem_of_blank hs (c := 't') (by decide)] at hmem
    rintro (h | h)
    · exact hc (List.cons_prefix_cons.1 h).1
    · exact hc (List.cons_prefix_cons.1 h).1.symm
  rcases List.append_eq_append_iff.1 hxy with ⟨v, rfl, hv⟩ | ⟨v, hv, rfl⟩
  · exact htail (fun c hc => hv ▸ List.mem_append_right v hc) hy
  · by_cases hvn : v = []
    · subst hvn
      exact htail (fun c hc => hc) hy
    · have hmeet := not_meet (s := "this.setState(".toList) (by decide) hv hx hvn hu
      rintro (h | h)
      · exact hmeet (.inr ((List.prefix_append v _).trans h))
      · exact hmeet (List.prefix_or_prefix_of_prefix h (List.prefix_append v _))

theorem spares_updateHit (hs : ∀ s ∈ state, '\x7b' ∉ s.setter.toList) {s : List Char}
    (hblank : s.all isBlank = true) :
    Spares (UpdateHit state) (updateHead s) where
  edge := edge_updateHit hs
  enter := by
    rintro x y hxy hx hy _ _ _ ⟨-, s₁, arg, s', rfl, -⟩
    refine not_meet_updateHead hblank hxy hx hy ?_
    rw [updateHead_append]
    exact List.prefix_append _ _
  reach := by
    rintro _ _ _ _ ⟨-, s₁, arg, s', rfl, hs₁, ho, -, hs', -⟩ x y hxy hx hy
    have hclose : ')' ∈ y :=
      mem_of_concat_eq (v := updateHead s₁ ++ (arg ++ '\x7d' :: s')) (by rw [← hxy]; simp) hy
    rintro (⟨z, hz⟩ | ⟨z, rfl⟩)
    · exact not_mem_updateHead hblank (.inl rfl) (hz ▸ List.mem_append_left z hclose)
    · -- The only opening brace of the update is that of its own head.
      have hbrace : (x ++ ("this.setState(".toList ++ s)) ++ '\x7b' :: z =
          ("this.setState(".toList ++ s₁) ++ '\x7b' :: (arg ++ '\x7d' :: (s' ++ [')'])) := by
        rw [updateHead_append, updateHead_append] at hxy
        rw [List.append_assoc, List.append_assoc, List.append_assoc]
        exact hxy.symm
      have hbefore : '\x7b' ∉ s₁ := not_mem_of_blank hs₁ (by decide)
      have hbehind : '\x7b' ∉ s' := not_mem_of_blank hs' (by decide)
      have hhead := append_cons_unique hbrace (by simp [hbefore]) (by simp [ho, hbehind])
      have hopen : (x ++ "this.setState".toList) ++ '(' :: s = "this.setState".toList ++ '(' :: s₁ := by
        rw [List.append_assoc]
        exact hhead
      have hname := append_cons_unique hopen (by decide) (not_mem_of_blank hs₁ (by decide))
      exact hx (List.append_left_eq_self.1 hname)

/-- An update stands in the text. -/
def Updates (text : List Char) : Prop := ∃ s, s.all isBlank = true ∧ Mentions (updateHead s) none text

/-- An update that does not fit stands in the text. -/
def UnfitUpdate (text : List Char) : Prop :=
  ∃ s, s.all isBlank = true ∧ Unfit (updateHead s) ClosesUpdate text

/-- An update that fits stands right behind `this.` or as the argument of an update. -/
def JoinedUpdate (text : List Char) : Prop :=
  ∃ a x s after, text = a ++ (x ++ (updateHead s ++ after)) ∧ inWord a.getLast? = false ∧ Joins x ∧
    s.all isBlank = true ∧ ClosesUpdate after

theorem updates_of_unfit (hs : ∀ s ∈ state, '\x7b' ∉ s.setter.toList) {code : List Char}
    (h : UnfitUpdate code) :
    Updates (stateUpdates state code) := by
  obtain ⟨s, hblank, a, b, hcode, ha, hunfit⟩ := h
  have hno : ∀ u rest new, updateHead s ++ b = u ++ rest →
      ¬ UpdateHit state (a.getLast?.or none) u rest new := by
    rintro u rest new hu ⟨-, s₁, arg, s', rfl, hs₁, ho, hc, hs', -⟩
    rw [List.append_assoc, updateHead_append, updateHead_append] at hu
    obtain ⟨-, rfl⟩ := append_cons_inj (List.append_cancel_left hu) (not_mem_of_blank hblank (by decide))
      (not_mem_of_blank hs₁ (by decide))
    exact hunfit ⟨arg, s', rest, by simp, ho, hc, hs'⟩
  obtain ⟨a', after, hout, ha', -⟩ := (edited_stateUpdates state code).survives (spares_updateHit hs hblank)
    (updateHead_ne_nil s) rfl hcode (by rwa [Option.or_none]) hno
  exact ⟨s, hblank, a', after, hout, ha'⟩

theorem unfit_or_joined (hs : ∀ s ∈ state, '\x7b' ∉ s.setter.toList) {code : List Char}
    (h : Updates (stateUpdates state code)) : UnfitUpdate code ∨ JoinedUpdate code := by
  obtain ⟨s, hblank, a, after, hout, ha⟩ := h
  cases (edited_stateUpdates state code).of_mention (seals_updateHit hs hblank)
    (updateHead_ne_nil s) rfl hout ha with
  | kept a b hcode ha hkept _ =>
    rw [Option.or_none] at ha hkept
    refine .inl ⟨s, hblank, a, b, hcode, ha, ?_⟩
    rintro ⟨arg, s', after, rfl, ho, hc, hs'⟩
    obtain ⟨pos, hunread⟩ := hkept
    obtain ⟨c', g, hreads⟩ := exists_reads_setStateObject ha pos hblank ho hc hs' after
    rw [updateHead_append] at hunread
    exact hunread c' g hreads
  | made a u rest new _ hhit hmade => exact absurd hmade (not_mentions_updateHit hs hhit)
  | joined a x y u rest new hcode ha hxy hx hy hhit _ =>
    rw [Option.or_none] at ha
    have hjoins := joins_of_updateHead hblank hxy hx hy hhit.1
    obtain ⟨-, s₁, arg, s', rfl, hs₁, ho, hc, hs', -⟩ := hhit
    refine .inr ⟨a, x, s₁, arg ++ '\x7d' :: (s' ++ ')' :: rest), ?_, ha, hjoins, hs₁, arg, s', rest,
      rfl, ho, hc, hs'⟩
    rw [hcode]
    simp

end Recast.Modernize
