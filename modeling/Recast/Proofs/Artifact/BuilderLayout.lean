import Mathlib.Data.List.Chain
import Recast.Proofs.Artifact.Exports
import Recast.Proofs.Text.InkLines

/-!
# The layout that a builder keeps

Whatever is written, in whatever order levels are opened and closed, the finished text holds the lines that
are not blank as they came, each two spaces in for every level open at that moment, and sets them apart by
single blank lines (`build_lays_out`).
-/

namespace Recast

@[simp] theorem Str.isBlank_empty : Str.isBlank "" = true := rfl

namespace CodeBuilder

theorem isBlank_indented {s : String} (h : Str.isBlank s = false) (depth : Nat) :
    Str.isBlank (indentation depth ++ s) = false := Str.isBlank_append_right h _

/-- What is done to the layout: a line is added, or the depth changes. -/
inductive Move
  | text (line : String)
  | deeper
  | shallower
  deriving DecidableEq, Repr

namespace Step

mutual

/-- The moves of an operation. What it does to blank lines is left out. -/
def moves : Step → List Move
  | .line s => [.text s]
  | .lines text => (Str.lines text).map .text
  | .blank => []
  | .opening header => [.text header, .deeper]
  | .closing footer => [.shallower, .text footer]
  | .branch s => [.shallower, .text s, .deeper]
  | .block header footer body => [.text header, .deeper] ++ (movesOfAll body ++ [.shallower, .text footer])

def movesOfAll : List Step → List Move
  | [] => []
  | s :: ss => moves s ++ movesOfAll ss

end

mutual

/-- The arguments that stand for one line each. -/
def lineArguments : Step → List String
  | .line s | .opening s | .closing s | .branch s => [s]
  | .lines _ | .blank => []
  | .block header footer body => header :: footer :: lineArgumentsOfAll body

def lineArgumentsOfAll : List Step → List String
  | [] => []
  | s :: ss => lineArguments s ++ lineArgumentsOfAll ss

end

end Step

/-- The depth after the moves. A level that is not open cannot be closed. -/
def depthAfter : Nat → List Move → Nat
  | depth, [] => depth
  | depth, .text _ :: ms => depthAfter depth ms
  | depth, .deeper :: ms => depthAfter (depth + 1) ms
  | depth, .shallower :: ms => depthAfter (depth - 1) ms

/-- The lines that are not blank, each two spaces in for every open level. -/
def placed : Nat → List Move → List String
  | _, [] => []
  | depth, .text s :: ms =>
    if Str.isBlank s then placed depth ms
    else (String.ofList (List.replicate (2 * depth) ' ') ++ s) :: placed depth ms
  | depth, .deeper :: ms => placed (depth + 1) ms
  | depth, .shallower :: ms => placed (depth - 1) ms

theorem depthAfter_append (depth : Nat) (ms ms' : List Move) :
    depthAfter depth (ms ++ ms') = depthAfter (depthAfter depth ms) ms' := by
  induction ms generalizing depth with
  | nil => rfl
  | cons m ms ih => cases m <;> exact ih _

theorem placed_append (depth : Nat) (ms ms' : List Move) :
    placed depth (ms ++ ms') = placed depth ms ++ placed (depthAfter depth ms) ms' := by
  induction ms generalizing depth with
  | nil => rfl
  | cons m ms ih =>
    cases m with
    | text s =>
      rw [List.cons_append, placed, placed, depthAfter, ih]
      split <;> rfl
    | deeper | shallower => exact ih _

/-! ### What an operation adds -/

/-- The lines written so far that are not blank. -/
def content (b : CodeBuilder) : List String := b.written.filter (!Str.isBlank ·)

/-- What is written are single lines, and the blank ones are empty. -/
def Tidy (ls : List String) : Prop := ∀ l ∈ ls, '\n' ∉ l.toList ∧ (Str.isBlank l = true → l = "")

theorem Tidy.of_subset {ls ls' : List String} (h : Tidy ls) (hsub : ls' ⊆ ls) : Tidy ls' :=
  fun l hl => h l (hsub hl)

theorem tidy_empty : Tidy [""] := List.forall_mem_singleton.2 ⟨List.not_mem_nil, fun _ => rfl⟩

theorem Tidy.append {ls ls' : List String} (h : Tidy ls) (h' : Tidy ls') : Tidy (ls ++ ls') :=
  List.forall_mem_append.2 ⟨h, h'⟩

/-- The second builder holds, besides what the first does, what the moves place, and is as deep as they
lead. -/
structure Lays (b : CodeBuilder) (ms : List Move) (b' : CodeBuilder) : Prop where
  content : b'.content = b.content ++ placed b.depth ms
  depth : b'.depth = depthAfter b.depth ms
  tidy : Tidy b.written → Tidy b'.written

namespace Lays

variable {b b' b'' : CodeBuilder} {ms ms' : List Move}

theorem refl (b : CodeBuilder) : Lays b [] b where
  content := (List.append_nil _).symm
  depth := rfl
  tidy := id

theorem trans (h : Lays b ms b') (h' : Lays b' ms' b'') : Lays b (ms ++ ms') b'' where
  content := by rw [h'.content, h.content, h.depth, placed_append, List.append_assoc]
  depth := by rw [h'.depth, h.depth, depthAfter_append]
  tidy := h'.tidy ∘ h.tidy

/-- Only the depth changes. -/
theorem deeper (b : CodeBuilder) : Lays b [.deeper] { b with depth := b.depth + 1 } where
  content := (List.append_nil _).symm
  depth := rfl
  tidy := id

theorem shallower (b : CodeBuilder) : Lays b [.shallower] { b with depth := b.depth - 1 } where
  content := (List.append_nil _).symm
  depth := rfl
  tidy := id

theorem line (b : CodeBuilder) {s : String} (hs : '\n' ∉ s.toList) : Lays b [.text s] (b.line s) where
  content := by
    cases hblank : Str.isBlank s with
    | true => simp [CodeBuilder.content, CodeBuilder.line, placed, hblank]
    | false =>
      have hline := isBlank_indented hblank b.depth
      have hindent : indentation b.depth = String.ofList (List.replicate (2 * b.depth) ' ') := rfl
      rw [hindent] at hline
      simp [CodeBuilder.content, CodeBuilder.line, placed, hblank, hindent, hline]
  depth := rfl
  tidy h := by
    refine h.append ?_
    split
    · exact tidy_empty
    · rename_i hblank
      have hline := isBlank_indented (Bool.eq_false_iff.2 hblank) b.depth
      refine List.forall_mem_singleton.2 ⟨?_, fun htrue => ?_⟩
      · simp [indentation, hs]
      · rw [hline] at htrue
        cases htrue

theorem lineEach (b : CodeBuilder) {ss : List String} (h : ∀ s ∈ ss, '\n' ∉ s.toList) :
    Lays b (ss.map .text) (b.lineEach ss) := by
  induction ss generalizing b with
  | nil => exact .refl b
  | cons s ss ih =>
    obtain ⟨hs, hss⟩ := List.forall_mem_cons.1 h
    exact (Lays.line b hs).trans (ih (b.line s) hss)

theorem lines (b : CodeBuilder) (block : String) :
    Lays b ((Str.lines block).map .text) (b.lines block) := by
  refine Lays.lineEach b fun s hs => ?_
  obtain ⟨l, hl, rfl⟩ := List.mem_map.1 hs
  rw [String.toList_ofList]
  exact Text.feed_not_mem_of_mem_lines hl

theorem blank (b : CodeBuilder) : Lays b [] b.blank := by
  unfold CodeBuilder.blank
  split
  · exact .refl b
  · exact {
      content := by simp [CodeBuilder.content, placed]
      depth := rfl
      tidy := fun h => h.append tidy_empty }

theorem opening (b : CodeBuilder) {header : String} (h : '\n' ∉ header.toList) :
    Lays b [.text header, .deeper] (b.opening header) :=
  (Lays.line b h).trans (.deeper (b.line header))

/-- The line that is taken back is blank. -/
theorem dropBlank (b : CodeBuilder) :
    Lays b [] { b with written := if b.endsBlank then b.written.dropLast else b.written } := by
  split
  · rename_i hblank
    obtain ⟨ls, hls⟩ : ∃ ls, b.written = ls ++ [""] := List.getLast?_eq_some_iff.1 (beq_iff_eq.1 hblank)
    exact {
      content := by simp [CodeBuilder.content, placed, hls]
      depth := rfl
      tidy := fun h => h.of_subset (List.dropLast_subset b.written) }
  · exact .refl b

theorem closing (b : CodeBuilder) {footer : String} (h : '\n' ∉ footer.toList) :
    Lays b [.shallower, .text footer] (b.closing footer) :=
  ((Lays.dropBlank b).trans (.shallower _)).trans (Lays.line _ h)

theorem branch (b : CodeBuilder) {s : String} (h : '\n' ∉ s.toList) :
    Lays b [.shallower, .text s, .deeper] (b.branch s) :=
  ((Lays.shallower b).trans (Lays.line _ h)).trans (.deeper _)

end Lays

mutual

/-- One operation adds its lines at the depth that the builder has. -/
theorem lays_apply (b : CodeBuilder) (s : Step) (h : ∀ l ∈ s.lineArguments, '\n' ∉ l.toList) :
    Lays b s.moves (Step.apply b s) := by
  cases s with
  | line s => exact .line b (h s List.mem_cons_self)
  | lines block => exact .lines b block
  | blank => exact .blank b
  | opening header => exact .opening b (h header List.mem_cons_self)
  | closing footer => exact .closing b (h footer List.mem_cons_self)
  | branch s => exact .branch b (h s List.mem_cons_self)
  | block header footer body =>
    obtain ⟨hheader, hfooter, hbody⟩ : '\n' ∉ header.toList ∧ '\n' ∉ footer.toList ∧
        ∀ l ∈ Step.lineArgumentsOfAll body, '\n' ∉ l.toList := by
      simpa only [Step.lineArguments, List.forall_mem_cons] using h
    exact (Lays.opening b hheader).trans ((lays_applyAll (b.opening header) body hbody).trans (.closing _ hfooter))

/-- Operations add their lines one after the other, each at the depth to which those before it lead. -/
theorem lays_applyAll (b : CodeBuilder) (ss : List Step) (h : ∀ l ∈ Step.lineArgumentsOfAll ss, '\n' ∉ l.toList) :
    Lays b (Step.movesOfAll ss) (Step.applyAll b ss) := by
  cases ss with
  | nil => exact .refl b
  | cons s ss =>
    obtain ⟨hs, hss⟩ := List.forall_mem_append.1 h
    exact (lays_apply b s hs).trans (lays_applyAll (Step.apply b s) ss hss)

end

/-! ### Blank lines of the finished text -/

/-- No two blank lines follow each other. -/
def BlanksApart (ls : List String) : Prop :=
  ls.IsChain fun l l' => ¬ (Str.isBlank l = true ∧ Str.isBlank l' = true)

theorem blanksApart_collapse {ls : List String} (h : Tidy ls) (afterBlank : Bool) :
    BlanksApart (collapse afterBlank ls) ∧
      (afterBlank = true → ∀ l ∈ (collapse afterBlank ls).head?, Str.isBlank l = false) := by
  induction ls generalizing afterBlank with
  | nil => exact ⟨List.isChain_nil, by simp [collapse]⟩
  | cons s ss ih =>
    obtain ⟨⟨-, hs⟩, hss⟩ := List.forall_mem_cons.1 h
    rw [collapse]
    split
    · rename_i hdropped
      obtain ⟨-, rfl⟩ := Bool.and_eq_true_iff.1 hdropped
      exact ih hss true
    · rename_i hkept
      obtain ⟨hchain, hhead⟩ := ih hss s.isEmpty
      refine ⟨List.isChain_cons.2 ⟨fun l hl hboth => ?_, hchain⟩, fun hafter => ?_⟩
      · have hempty : s.isEmpty = true := String.isEmpty_iff.2 (hs hboth.1)
        rw [hhead hempty l hl] at hboth
        cases hboth.2
      · intro l hl
        obtain rfl : s = l := Option.some.inj hl
        exact Bool.eq_false_iff.2 fun hblank => hkept (by simp [hs hblank, hafter])

theorem filter_collapse (afterBlank : Bool) (ls : List String) :
    (collapse afterBlank ls).filter (!Str.isBlank ·) = ls.filter (!Str.isBlank ·) := by
  induction ls generalizing afterBlank with
  | nil => rfl
  | cons s ss ih =>
    rw [collapse]
    split
    · rename_i hdropped
      obtain rfl : s = "" := String.isEmpty_iff.1 (Bool.and_eq_true_iff.1 hdropped).1
      exact ih true
    · rw [List.filter_cons, List.filter_cons, ih]

theorem filter_trimmed (ls : List String) :
    (trimmed ls).filter (!Str.isBlank ·) = ls.filter (!Str.isBlank ·) := by
  have hblank : (ls.reverse.takeWhile (·.isEmpty)).filter (!Str.isBlank ·) = [] := by
    refine List.filter_eq_nil_iff.2 fun l hl => ?_
    rw [String.isEmpty_iff.1 (List.mem_takeWhile_imp hl)]
    decide
  conv_rhs => rw [← ls.reverse_reverse, ← List.takeWhile_append_dropWhile (p := (·.isEmpty)) (l := ls.reverse)]
  rw [trimmed, List.filter_reverse, List.filter_reverse, List.filter_append, hblank, List.nil_append]

theorem isBlank_getLast_trimmed {ls : List String} (h : Tidy ls) :
    ∀ l ∈ (trimmed ls).getLast?, Str.isBlank l = false := by
  intro l hl
  have hmem : l ∈ ls := (prefix_of_trim ls).subset (List.mem_of_getLast? hl)
  have hlast := List.head?_dropWhile_not (·.isEmpty) ls.reverse
  rw [trimmed, List.getLast?_reverse] at hl
  rw [Option.mem_def.1 hl] at hlast
  refine Bool.eq_false_iff.2 fun hblank => ?_
  rw [(h l hmem).2 hblank] at hlast
  cases hlast

/-- The finished lines are what was written, but for blank lines: of these none stands at an end and no two
stand together. -/
theorem finished_spec {b : CodeBuilder} (h : Tidy b.written) :
    Tidy b.finished ∧ b.finished.filter (!Str.isBlank ·) = b.content ∧ BlanksApart b.finished ∧
      (∀ l ∈ b.finished.head?, Str.isBlank l = false) ∧ ∀ l ∈ b.finished.getLast?, Str.isBlank l = false := by
  obtain ⟨hchain, hhead⟩ := blanksApart_collapse h true
  obtain ⟨rest, hrest⟩ := prefix_of_trim (collapse true b.written)
  have hcollapsed : Tidy (collapse true b.written) := h.of_subset (collapse_sublist true b.written).subset
  refine ⟨h.of_subset b.finished_subset, ?_, ?_, fun l hl => hhead rfl l ?_, isBlank_getLast_trimmed hcollapsed⟩
  · rw [finished_eq, filter_trimmed, filter_collapse, content]
  · rw [BlanksApart, ← hrest] at hchain
    exact hchain.left_of_append
  · rw [← hrest, List.head?_append]
    rw [finished_eq] at hl
    rw [Option.mem_def.1 hl, Option.some_or]
    exact rfl

/-- Only a builder without content has no finished line. -/
theorem finished_eq_nil_iff {b : CodeBuilder} (h : Tidy b.written) : b.finished = [] ↔ b.content = [] := by
  obtain ⟨-, hcontent, -, -, hlast⟩ := finished_spec h
  rw [← hcontent]
  constructor
  · intro hnil
    rw [hnil]
    rfl
  · intro hnil
    rw [List.filter_eq_nil_iff] at hnil
    by_contra hne
    have hmem := List.getLast_mem hne
    exact hnil _ hmem (by rw [hlast _ (List.getLast?_eq_some_getLast hne)]; rfl)

theorem splitOn_build {b : CodeBuilder} (h : Tidy b.finished) (hne : b.finished ≠ []) :
    Text.splitOn '\n' b.build.toList = b.finished.map String.toList ++ [[]] := by
  have hlines : (b.finished.flatMap fun l => Text.splitOn '\n' l.toList) = b.finished.map String.toList := by
    rw [List.map_eq_flatMap]
    exact List.flatMap_congr fun l hl => Text.splitOn_of_not_mem (h l hl).1
  rw [← hlines, build, String.toList_append, String.toList_intercalate]
  exact splitOn_intercalate hne

/-- The text ends with one line feed and not with two. -/
def EndsOnce (text : String) : Prop := ∃ body, text = body ++ "\n" ∧ body.toList.getLast? ≠ some '\n'

theorem endsOnce_build {b : CodeBuilder} (h : Tidy b.written) : EndsOnce b.build := by
  refine ⟨_, rfl, fun hlast => ?_⟩
  obtain ⟨body, hbody⟩ := List.getLast?_eq_some_iff.1 hlast
  by_cases hnil : b.finished = []
  · rw [hnil] at hbody
    simp at hbody
  · -- Another line feed at the end would leave an empty last line.
    obtain ⟨htidy, -, -, -, hends⟩ := finished_spec h
    have hsplit := splitOn_build htidy hnil
    rw [build, String.toList_append, hbody, List.append_assoc, List.singleton_append, Text.splitOn_append] at hsplit
    have hempty : Text.splitOn '\n' "\n".toList = [[]] ++ [[]] := by decide
    rw [hempty, ← List.append_assoc] at hsplit
    have hmap := congrArg List.getLast? (List.append_cancel_right hsplit)
    rw [List.getLast?_concat, List.getLast?_map] at hmap
    obtain ⟨l, hl, hnone⟩ := Option.map_eq_some_iff.1 hmap.symm
    have hblank := hends l hl
    rw [String.toList_eq_nil_iff.1 hnone] at hblank
    cases hblank

/-- However operations are nested and repeated, if their single lines hold no line feed, the text is split by
its line feeds into lines, and those that are not blank are the ones that were passed, in order, each two
spaces in for every level open at that moment. The text ends with one line feed, no two blank lines follow each
other, and no blank line is first or last, unless no line was passed that is not blank: then the text is one
line feed. -/
theorem build_lays_out (steps : List Step) (h : ∀ l ∈ Step.lineArgumentsOfAll steps, '\n' ∉ l.toList) :
    let text := (Step.applyAll {} steps).build
    let passed := placed 0 (Step.movesOfAll steps)
    (∃ ls, Text.splitOn '\n' text.toList = ls.map String.toList ++ [[]] ∧
      ls.filter (!Str.isBlank ·) = passed ∧ BlanksApart ls ∧
      (passed ≠ [] → (∀ l ∈ ls.head?, Str.isBlank l = false) ∧ ∀ l ∈ ls.getLast?, Str.isBlank l = false)) ∧
    (passed = [] → text = "\n") ∧ EndsOnce text := by
  intro text passed
  have hlays : Lays {} (Step.movesOfAll steps) (Step.applyAll {} steps) := lays_applyAll {} steps h
  have htidy : Tidy (Step.applyAll {} steps).written := hlays.tidy (List.forall_mem_nil _)
  have hpassed : (Step.applyAll {} steps).content = passed := hlays.content
  obtain ⟨hlines, hcontent, hapart, hfirst, hlast⟩ := finished_spec htidy
  have hnone : (Step.applyAll {} steps).finished = [] ↔ passed = [] := by rw [finished_eq_nil_iff htidy, hpassed]
  have htext (hnil : passed = []) : text = "\n" := by
    show (Step.applyAll {} steps).build = _
    rw [build, hnone.2 hnil]
    rfl
  refine ⟨?_, htext, endsOnce_build htidy⟩
  by_cases hnil : passed = []
  · refine ⟨[""], ?_, ?_, List.isChain_singleton _, absurd hnil⟩
    · rw [htext hnil]
      decide
    · rw [hnil]
      decide
  · exact ⟨_, splitOn_build hlines (mt hnone.1 hnil), hcontent.trans hpassed, hapart, fun _ => ⟨hfirst, hlast⟩⟩

/-- A level is closed that is not open, blank lines come together, and a block holds another. -/
def guardedLoad : List Step :=
  [.blank, .lines "\n\nimport a;\r\n", .blank, .line "  ", .closing "start();",
    .block "function load() \x7b" "\x7d"
      [.line "", .block "if (ready) \x7b" "\x7d"
        [.lines "get(\n  url\n);", .branch "\x7d else \x7b", .line "wait();", .blank, .line " "],
      .blank],
    .blank]

theorem guardedLoad_laid_out :
    (∀ l ∈ Step.lineArgumentsOfAll guardedLoad, '\n' ∉ l.toList) ∧
    (∃ ls, Text.splitOn '\n' (Step.applyAll {} guardedLoad).build.toList = ls.map String.toList ++ [[]] ∧
      ls.filter (!Str.isBlank ·) = ["import a;", "start();", "function load() \x7b", "  if (ready) \x7b",
        "    get(", "      url", "    );", "  \x7d else \x7b", "    wait();", "  \x7d", "\x7d"] ∧
      BlanksApart ls ∧ (∀ l ∈ ls.head?, Str.isBlank l = false) ∧ ∀ l ∈ ls.getLast?, Str.isBlank l = false) ∧
    EndsOnce (Step.applyAll {} guardedLoad).build := by
  have hline : ∀ l ∈ Step.lineArgumentsOfAll guardedLoad, '\n' ∉ l.toList := by decide
  have hpassed : placed 0 (Step.movesOfAll guardedLoad) = ["import a;", "start();", "function load() \x7b",
      "  if (ready) \x7b", "    get(", "      url", "    );", "  \x7d else \x7b", "    wait();", "  \x7d",
      "\x7d"] := by
    decide
  obtain ⟨⟨ls, hsplit, hcontent, hapart, hends⟩, -, honce⟩ := build_lays_out guardedLoad hline
  rw [hpassed] at hcontent hends
  exact ⟨hline, ⟨ls, hsplit, hcontent, hapart, hends (List.cons_ne_nil _ _)⟩, honce⟩

end CodeBuilder

end Recast
