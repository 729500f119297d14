import Recast.Optimize.ResponseCache
import Recast.Proofs.Optimize.Rewriting
import Recast.Proofs.Text.Occurrence

/-!
# The anchors of the cache

In a text that is laid out as a service the cache finds its anchors, if each of them stands there
for the first time. What it makes of such a text is written out.
-/

namespace Recast

open Text

namespace ResponseCache

/-- The end of `text` is the end of a line. -/
def EndsLine (text : List Char) : Prop := text.reverse.takeWhile (· != '\n') = []

theorem EndsLine.append {u v : List Char} (hu : EndsLine u) (hv : EndsLine v) : EndsLine (u ++ v) := by
  unfold EndsLine at *
  rw [List.reverse_append, List.takeWhile_append, hv, hu]
  split
  · rename_i hlength
    rw [List.append_nil, List.eq_nil_of_length_eq_zero hlength.symm]
  · rfl

theorem slice_append (u v rest : List Char) : slice (u ++ v ++ rest) u.length (u ++ v).length = v := by
  rw [slice, List.append_assoc, List.drop_left, List.length_append, Nat.add_sub_cancel_left, List.take_left]

theorem lineStart_append {u v : List Char} (hu : EndsLine u) (hv : '\n' ∉ v) (rest : List Char) :
    lineStart (u ++ v ++ rest) (u ++ v).length = u.length := by
  have hline : ∀ x ∈ v.reverse, (x != '\n') = true := by
    intro x hx
    have hx : x ∈ v := by simpa using hx
    simpa using fun heq : x = '\n' => hv (heq ▸ hx)
  have htake : ((u ++ v ++ rest).take (u ++ v).length).reverse.takeWhile (· != '\n') = v.reverse := by
    rw [List.take_left, List.reverse_append, List.takeWhile_append_of_pos hline, hu, List.append_nil]
  rw [lineStart, htake, List.length_append, List.length_reverse, Nat.add_sub_cancel]

theorem indentationAt_append {u indent : List Char} (hu : EndsLine u) (hindent : ∀ x ∈ indent, x = ' ')
    (rest : List Char) (hrest : rest.takeWhile isBlank = []) :
    indentationAt (u ++ indent ++ rest) (u ++ indent).length = indent := by
  have hline : '\n' ∉ indent := fun hmem => absurd (hindent _ hmem) (by decide)
  have hblank : ∀ x ∈ indent, isBlank x = true := fun x hx => hindent x hx ▸ rfl
  rw [indentationAt, lineStart_append hu hline, List.append_assoc, List.drop_left,
    List.takeWhile_append_of_pos hblank, hrest, List.append_nil]

theorem find_append {word text : List Char} (h : FirstAfter word text) (what : String)
    (before rest : List Char) :
    find what (before ++ text ++ (word ++ rest)) word before.length = .ok (before ++ text).length := by
  rw [find, List.append_assoc, List.drop_left, h rest, List.length_append]

/-- A text that is laid out as a service: behind `head` the line of the constructor, a blank line and the
request method, which returns the answer behind `attempt`. -/
structure Laid where
  head : List Char
  indent : List Char
  parameters : List Char
  result : List Char
  attempt : List Char
  deep : List Char
  rest : List Char

namespace Laid

variable (l : Laid)

def constructorLine : List Char := l.indent ++ ("constructor(".toList ++ l.parameters) ++ ['\n']

def requestLines : List Char := ['\n'] ++ l.indent ++ (signature ++ l.result) ++ "\x7b\n".toList

def text : List Char :=
  l.head ++ l.constructorLine ++ l.requestLines ++ (l.attempt ++ l.deep) ++ (jsonReturn ++ l.rest)

/-- The text with the cache. -/
def cached : List Char :=
  l.head ++ l.indent ++ cacheField ++ "\n\n".toList ++ l.constructorLine ++ '\n' :: clearMethod l.indent ++
    l.requestLines ++ lookUp (l.indent ++ "  ".toList) ++ (l.attempt ++ l.deep) ++ store l.deep ++ l.rest

/-- The anchors stand in it for the first time where they are meant to be. -/
structure Anchored : Prop where
  head_ends : EndsLine l.head
  attempt_ends : EndsLine l.attempt
  indent : ∀ x ∈ l.indent, x = ' '
  deep : ∀ x ∈ l.deep, x = ' '
  parameters : '\n' ∉ l.parameters
  result : '{' ∉ l.result
  constructor : FirstAfter "constructor(".toList (l.head ++ l.indent)
  request : FirstAfter signature (l.head ++ l.constructorLine ++ (['\n'] ++ l.indent))
  answer : FirstAfter jsonReturn (l.head ++ l.constructorLine ++ l.requestLines ++ (l.attempt ++ l.deep))

def anchors : ResponseCache.Anchors where
  constructorStart := (l.head ++ l.indent).length
  constructorEnd := (l.head ++ l.indent ++ ("constructor(".toList ++ l.parameters)).length
  request := (l.head ++ l.constructorLine ++ (['\n'] ++ l.indent)).length
  bodyOpen := (l.head ++ l.constructorLine ++ (['\n'] ++ l.indent) ++ (signature ++ l.result)).length
  jsonReturn := (l.head ++ l.constructorLine ++ l.requestLines ++ (l.attempt ++ l.deep)).length

variable {l}

theorem isApplicable_text (h : contains l.text cacheField = false) : isApplicable l.text = true := by
  have hrequest : contains l.text signature = true := by
    have hfound := contains_append (l.head ++ l.constructorLine ++ (['\n'] ++ l.indent)) signature
      (l.result ++ "\x7b\n".toList ++ (l.attempt ++ l.deep) ++ (jsonReturn ++ l.rest))
    simpa only [text, requestLines, List.append_assoc] using hfound
  have hanswer : contains l.text jsonReturn = true := contains_append _ _ _
  rw [isApplicable, hrequest, hanswer, h]
  rfl

theorem not_isApplicable_cached (l : Laid) : isApplicable l.cached = false := by
  have hfield : contains l.cached cacheField = true := by
    have hfound := contains_append (l.head ++ l.indent) cacheField ("\n\n".toList ++ l.constructorLine ++
      '\n' :: clearMethod l.indent ++ l.requestLines ++ lookUp (l.indent ++ "  ".toList) ++
      (l.attempt ++ l.deep) ++ store l.deep ++ l.rest)
    simpa only [cached, List.append_assoc] using hfound
  rw [isApplicable, hfield, Bool.not_true, Bool.and_false]

theorem Anchored.anchors_eq (h : l.Anchored) : ResponseCache.anchors l.text = .ok l.anchors := by
  have hrequest : find "request method" l.text signature 0 = .ok l.anchors.request := by
    have hfound := find_append h.request "request method" []
      (l.result ++ "\x7b\n".toList ++ (l.attempt ++ l.deep) ++ (jsonReturn ++ l.rest))
    simpa only [text, anchors, requestLines, List.append_assoc, List.nil_append, List.length_nil] using hfound
  have hopen : find "request body" l.text "\x7b\n".toList l.anchors.request = .ok l.anchors.bodyOpen := by
    have hfirst : FirstAfter "\x7b\n".toList (signature ++ l.result) := by
      have hlacks : '{' ∉ signature ++ l.result := by
        rw [List.mem_append, not_or]
        exact ⟨by decide, h.result⟩
      refine firstAfter_of_head (by decide) fun x hx heq => ?_
      obtain rfl : '{' = x := Option.some.inj heq
      exact hlacks hx
    have hfound := find_append hfirst "request body" (l.head ++ l.constructorLine ++ (['\n'] ++ l.indent))
      (l.attempt ++ l.deep ++ (jsonReturn ++ l.rest))
    simpa only [text, anchors, requestLines, List.append_assoc] using hfound
  have hanswer : find "response parsing" l.text jsonReturn 0 = .ok l.anchors.jsonReturn :=
    find_append h.answer "response parsing" [] l.rest
  have hstart : find "constructor" l.text "constructor(".toList 0 = .ok l.anchors.constructorStart := by
    have hfound := find_append h.constructor "constructor" []
      (l.parameters ++ ['\n'] ++ l.requestLines ++ (l.attempt ++ l.deep) ++ (jsonReturn ++ l.rest))
    simpa only [text, anchors, constructorLine, List.append_assoc, List.nil_append, List.length_nil] using hfound
  have hstop : find "constructor" l.text ['\n'] l.anchors.constructorStart = .ok l.anchors.constructorEnd := by
    have hfirst : FirstAfter ['\n'] ("constructor(".toList ++ l.parameters) := by
      have hlacks : '\n' ∉ "constructor(".toList ++ l.parameters := by
        rw [List.mem_append, not_or]
        exact ⟨by decide, h.parameters⟩
      refine firstAfter_of_head (by decide) fun x hx heq => ?_
      obtain rfl : '\n' = x := Option.some.inj heq
      exact hlacks hx
    have hfound := find_append hfirst "constructor" (l.head ++ l.indent)
      (l.requestLines ++ (l.attempt ++ l.deep) ++ (jsonReturn ++ l.rest))
    simpa only [text, anchors, constructorLine, List.append_assoc] using hfound
  have horder : (decide (l.anchors.constructorEnd < l.anchors.request) &&
      decide (l.anchors.bodyOpen < l.anchors.jsonReturn)) = true := by
    simp only [anchors, constructorLine, requestLines, List.length_append, List.length_cons, List.length_nil,
      Bool.and_eq_true, decide_eq_true_eq]
    have hopen : "\x7b\n".toList.length = 2 := rfl
    omega
  unfold ResponseCache.anchors
  rw [hrequest, hanswer, hstart]
  simp only [bind, Except.bind, hopen, hstop]
  rw [if_pos horder]
  rfl

theorem Anchored.transform_eq (h : l.Anchored) : transform l.text = .ok l.cached := by
  have hfield : lineStart l.text l.anchors.constructorStart = l.head.length := by
    have hline : '\n' ∉ l.indent := fun hmem => absurd (h.indent _ hmem) (by decide)
    have hstart := lineStart_append h.head_ends hline ("constructor(".toList ++ l.parameters ++ ['\n'] ++
      l.requestLines ++ (l.attempt ++ l.deep) ++ (jsonReturn ++ l.rest))
    simpa only [text, anchors, constructorLine, List.append_assoc] using hstart
  have hmember : indentationAt l.text l.anchors.request = l.indent := by
    have hends : EndsLine (l.head ++ l.constructorLine ++ ['\n']) := by simp [EndsLine]
    have hindent := indentationAt_append hends h.indent
      (signature ++ (l.result ++ "\x7b\n".toList ++ (l.attempt ++ l.deep) ++ (jsonReturn ++ l.rest))) rfl
    simpa only [text, anchors, requestLines, List.append_assoc] using hindent
  have hdeep : indentationAt l.text l.anchors.jsonReturn = l.deep := by
    have hrequest : EndsLine (l.head ++ l.constructorLine ++ l.requestLines) := by simp [EndsLine, requestLines]
    have hends : EndsLine (l.head ++ l.constructorLine ++ l.requestLines ++ l.attempt) :=
      hrequest.append h.attempt_ends
    have hindent := indentationAt_append hends h.deep (jsonReturn ++ l.rest) rfl
    simpa only [text, anchors, List.append_assoc] using hindent
  have hconstructor : l.anchors.constructorEnd + 1 = (l.head ++ l.constructorLine).length := by
    simp [anchors, constructorLine, Nat.add_assoc]
  have hopen : l.anchors.bodyOpen + 2 = (l.head ++ l.constructorLine ++ l.requestLines).length := by
    simp [anchors, requestLines, Nat.add_assoc]
  have hreturn : l.anchors.jsonReturn + jsonReturn.length =
      (l.head ++ l.constructorLine ++ l.requestLines ++ (l.attempt ++ l.deep) ++ jsonReturn).length :=
    List.length_append.symm
  have hhead : l.text.take l.head.length = l.head := by
    rw [text, List.append_assoc, List.append_assoc, List.append_assoc, List.take_left]
  have hline : slice l.text l.head.length (l.head ++ l.constructorLine).length = l.constructorLine := by
    rw [text, List.append_assoc, List.append_assoc, slice_append]
  have hlines : slice l.text (l.head ++ l.constructorLine).length
      (l.head ++ l.constructorLine ++ l.requestLines).length = l.requestLines := by
    rw [text, List.append_assoc, slice_append]
  have hattempt : slice l.text (l.head ++ l.constructorLine ++ l.requestLines).length l.anchors.jsonReturn =
      l.attempt ++ l.deep := slice_append _ _ _
  have hrest : l.text.drop
      (l.head ++ l.constructorLine ++ l.requestLines ++ (l.attempt ++ l.deep) ++ jsonReturn).length = l.rest := by
    have htext : l.text = l.head ++ l.constructorLine ++ l.requestLines ++ (l.attempt ++ l.deep) ++ jsonReturn ++
        l.rest := (List.append_assoc _ _ _).symm
    rw [htext, List.drop_left]
  rw [transform, h.anchors_eq]
  show Except.ok (insert l.text l.anchors) = _
  unfold insert
  rw [hfield, hmember, hdeep, hconstructor, hopen, hreturn]
  dsimp only
  rw [hhead, hline, hlines, hattempt, hrest]
  rfl

end Laid

end ResponseCache

end Recast
