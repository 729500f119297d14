import Recast.Proofs.Artifact.DeclaredNames
import Recast.Proofs.Artifact.Exports

/-!
# The props object in the signature

The emitted function begins with its signature, whose parameters declare the props and,
where the component has a name for the props object and the body still has that name, the
object. Main statement: a props object that is left in the body is bound exactly if a prop
has its name, or if there are props and it is the recorded name of the object. A component
without props takes no parameter, and for a class no name is recorded, so there the object
comes out unbound.
-/

namespace Recast.Template

open CodeBuilder

/-- The name under which a component has its props object. -/
inductive PropsObject (f : Facts) : String → Prop
  | recorded {object} (hkind : f.isClass = false) (h : f.propsAlias? = some object) : PropsObject f object
  | ofClass (hkind : f.isClass = true) : PropsObject f "props"

/-- The lines begin a function of the component with the parameters. -/
inductive SignatureOf (l : ArtifactLayout) : List String → List String → Prop
  | bare : SignatureOf l [] ["const " ++ l.name ++ " = () => \x7b"]
  | oneLine (params : List String) : SignatureOf l params
      ["const " ++ l.name ++ " = (\x7b " ++ String.intercalate ", " params ++ " \x7d: " ++ l.propsType ++
        ") => \x7b"]
  | lineEach (params : List String) : SignatureOf l params
      (("const " ++ l.name ++ " = (\x7b") :: params.map ("  " ++ · ++ ",") ++
        ["\x7d: " ++ l.propsType ++ ") => \x7b"])

variable (c : RenderContext)

/-- The text of the component body. -/
def bodyText : String := (ComponentBody.ofContext c).build c

def signatureLines : List String := (signature c (bodyText c)).1 ++ [(signature c (bodyText c)).2]

/-- The signature is written of parameters that declare the names. -/
theorem exists_signatureOf : ∃ params, SignatureOf c.layout params (signatureLines c) ∧
    List.Forall₂ DeclaresParameter params (parameterNames c.facts (bodyText c)) := by
  unfold signatureLines signature parameterNames
  cases hprops : c.facts.props.isEmpty with
  | true => exact ⟨[], .bare, .nil⟩
  | false =>
    refine ⟨parameters c.facts (bodyText c), ?_, parameters_declare c.facts (bodyText c)⟩
    dsimp only
    split
    · rename_i h
      cases h
    · split
      · exact .oneLine _
      · exact .lineEach _

theorem signatureLines_visible : ∀ line ∈ signatureLines c, Str.isBlank line = false := by
  obtain ⟨params, hsignature, -⟩ := exists_signatureOf c
  have hconst {rest : String} : Str.isBlank ("const " ++ rest) = false :=
    Str.isBlank_append_left (by decide) rest
  have htype {rest : String} : Str.isBlank ("\x7d: " ++ rest) = false :=
    Str.isBlank_append_left (by decide) rest
  generalize signatureLines c = lines at hsignature
  cases hsignature with
  | bare => simpa [String.append_assoc] using hconst
  | oneLine params => simpa [String.append_assoc] using hconst
  | lineEach params =>
    intro line hline
    simp only [List.cons_append, List.mem_cons, List.mem_append, List.mem_map, List.not_mem_nil,
      or_false] at hline
    rcases hline with rfl | ⟨param, -, rfl⟩ | rfl
    · simpa [String.append_assoc] using hconst
    · exact Str.isBlank_append_right (by decide) _
    · simpa [String.append_assoc] using htype

/-- The emitted function begins with its signature. -/
theorem exists_functionCodeOf_eq : ∃ rest,
    functionCodeOf c = String.intercalate "\n" (signatureLines c ++ rest) ++ "\n" := by
  have hvisible := signatureLines_visible c
  have hbefore : ∀ line ∈ (signature c (bodyText c)).1, Str.isBlank line = false :=
    fun line hline => hvisible line (List.mem_append_left _ hline)
  have hlast : Str.isBlank (signature c (bodyText c)).2 = false := hvisible _ (by simp [signatureLines])
  let code := CodeBuilder.block (CodeBuilder.lineEach {} (signature c (bodyText c)).1)
    (signature c (bodyText c)).2 "\x7d;" (·.lines (bodyText c))
  have hprefix : signatureLines c <+: code.written := by
    have hblock : (CodeBuilder.lineEach {} (signature c (bodyText c)).1).written ++
        [(signature c (bodyText c)).2] <+: code.written :=
      prefix_block (depth_lineEach {} (signature c (bodyText c)).1) hlast fun b =>
        (Extends.refl b).lines (bodyText c)
    rwa [written_lineEach rfl hbefore] at hblock
  obtain ⟨rest, hwritten⟩ := hprefix
  have hfinished := finished_append (fun s hs => Str.ne_empty_of_isBlank (hvisible s hs))
    (by simp [signatureLines]) hwritten.symm
  have hcode : functionCodeOf c = code.build := rfl
  exact ⟨_, by rw [hcode, build, hfinished]⟩

theorem mem_keptObject?_iff {f : Facts} {body object : String} (hleft : Str.hasWord body object = true) :
    object ∈ (keptObject? f body).toList ↔ f.propsAlias? = some object := by
  unfold keptObject?
  cases f.propsAlias? with
  | none => simp
  | some name =>
    by_cases hname : name = object
    · simp [hname, hleft]
    · simp [Option.filter, hname]

/-- Where the props object is left in the body, it is bound exactly if there are props and, for a
class, it is recorded or a prop has its name. -/
theorem props_object_bound_iff {object : String} (ho : PropsObject c.facts object)
    (hleft : Str.hasWord (bodyText c) object = true) :
    ∃ params rest, SignatureOf c.layout params (signatureLines c) ∧
      functionCodeOf c = String.intercalate "\n" (signatureLines c ++ rest) ++ "\n" ∧
      List.Forall₂ DeclaresParameter params (parameterNames c.facts (bodyText c)) ∧
      (object ∈ parameterNames c.facts (bodyText c) ↔ c.facts.props ≠ [] ∧
        (c.facts.isClass = true → c.facts.propsAlias? = some object ∨ object ∈ c.facts.propNames)) := by
  obtain ⟨params, hsignature, hdeclare⟩ := exists_signatureOf c
  obtain ⟨rest, hrest⟩ := exists_functionCodeOf_eq c
  refine ⟨params, rest, hsignature, hrest, hdeclare, ?_⟩
  have hnames : object ∈ parameterNames c.facts (bodyText c) ↔
      c.facts.props ≠ [] ∧ (c.facts.propsAlias? = some object ∨ object ∈ c.facts.propNames) := by
    unfold parameterNames
    cases hprops : c.facts.props with
    | nil => simp
    | cons p ps => simp [mem_keptObject?_iff hleft, or_comm]
  rw [hnames]
  cases ho with
  | recorded hkind h => simp [hkind, h]
  | ofClass hkind => simp [hkind]

def spreadBox : String := "class Box extends Component \x7b
  render() \x7b
    return <div \x7b...this.props\x7d>\x7bthis.props.title\x7d</div>;
  \x7d
\x7d
"

/-- A class that spreads its props object has it left in the body, unbound. -/
theorem spreadBox_props_unbound : ∃ f, Facts.analyze spreadBox none = .ok f ∧
    PropsObject f "props" ∧ Str.hasWord (bodyText (contextOf {} f)) "props" = true ∧
    "props" ∉ parameterNames f (bodyText (contextOf {} f)) := by
  have hrun : (match Facts.analyze spreadBox none with
      | .ok f => f.isClass && Str.hasWord (bodyText (contextOf {} f)) "props" && f.propsAlias?.isNone &&
          !f.propNames.contains "props"
      | .error _ => false) = true := by decide +kernel
  cases ha : Facts.analyze spreadBox none with
  | error e => simp [ha] at hrun
  | ok f =>
    simp only [ha, Bool.and_eq_true, Bool.not_eq_true'] at hrun
    obtain ⟨⟨⟨hkind, hleft⟩, hrecorded⟩, hnames⟩ := hrun
    refine ⟨f, rfl, .ofClass hkind, hleft, ?_⟩
    obtain ⟨params, rest, -, -, -, hbound⟩ :=
      props_object_bound_iff (contextOf {} f) (.ofClass hkind) hleft
    intro hmem
    rcases (hbound.1 hmem).2 hkind with h | h
    · rw [show f.propsAlias? = some "props" from h] at hrecorded
      cases hrecorded
    · rw [List.contains_eq_mem, decide_eq_false_iff_not] at hnames
      exact hnames h

end Recast.Template
