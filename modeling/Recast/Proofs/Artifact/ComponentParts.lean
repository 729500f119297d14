import Recast.Proofs.Artifact.DeclaredNames
import Recast.Proofs.Artifact.Exports
import Recast.Proofs.Artifact.WrittenLines

/-!
# The parts of a component

What the component is written from, in its order: imports, the types of its props, its signature, constants
for what it takes from the store and the query, the statements of the body, and markup. A word on one line
stands in the component exactly if it stands in one of the parts (`contains_renderComponent_iff`).
-/

namespace Recast.Template

open Text

/-- A part of the component. It is taken over from the source, also where the source gives only a piece of
it, or it is a line of the template, to which the source gives names at most. -/
structure Part where
  code : String
  taken : Bool

namespace Part

def ofSource (s : String) : Part := ⟨s, true⟩

def ofTemplate (s : String) : Part := ⟨s, false⟩

def inkLines (p : Part) : List (List Char) := Str.inkLines p.code

@[simp] theorem inkLines_ofSource (s : String) : (ofSource s).inkLines = Str.inkLines s := rfl

@[simp] theorem inkLines_ofTemplate (s : String) : (ofTemplate s).inkLines = Str.inkLines s := rfl

theorem taken_of_mem_ofSource {ss : List String} {p : Part} (h : p ∈ ss.map ofSource) : p.taken = true := by
  obtain ⟨s, -, rfl⟩ := List.mem_map.1 h
  rfl

end Part

open Recast.Template.Part

namespace ComponentBody

variable (c : RenderContext)

/-- The lines for the states of the query. -/
def queryStateLines : List String :=
  ["if (query.isLoading) \x7b", "return <div role=\"status\">Loading...</div>;", "\x7d", "if (query.error) \x7b",
    "return <div role=\"alert\">\x7bquery.error.message\x7d</div>;", "\x7d"]

def storeLine (b : ComponentBody) : String :=
  "const \x7b " ++ String.intercalate ", " b.storeNames ++ " \x7d = " ++ c.layout.storeHook ++ "();"

/-- The parts of the body, in their order. -/
def parts (b : ComponentBody) : List Part :=
  (if b.needsNavigate then [ofTemplate "const navigate = useNavigate();"] else []) ++
    ((if b.usesQuery then [ofTemplate ("const query = " ++ c.layout.hookName ++ "();")] else []) ++
      ((if b.storeNames.isEmpty then [] else [ofTemplate (b.storeLine c)]) ++
        ((b.derived.map (·.declaration)).map ofSource ++ ((b.units.map (·.code)).map ofSource ++
          ((if b.usesQuery then queryStateLines.map ofTemplate else []) ++
            [ofTemplate "return (", ofSource b.markup, ofTemplate ");"])))))

theorem inkLines_writeUnits (afterState : Bool) (us : List BodyUnit) (b : CodeBuilder) :
    (writeUnits afterState us b).inkLines = b.inkLines ++ (us.map (·.code)).flatMap Str.inkLines := by
  induction us generalizing afterState b with
  | nil => exact (List.append_nil _).symm
  | cons u us ih =>
    have hblank : (if u.isState && afterState then b else b.blank).inkLines = b.inkLines := by
      split
      · rfl
      · exact CodeBuilder.inkLines_blank b
    rw [writeUnits, ih, CodeBuilder.inkLines_lines, hblank, List.map_cons, List.flatMap_cons, List.append_assoc]

theorem inkLines_build (b : ComponentBody) : Str.inkLines (b.build c) = (b.parts c).flatMap Part.inkLines := by
  unfold build parts storeLine
  cases b.needsNavigate <;> cases b.usesQuery <;> cases b.storeNames.isEmpty <;>
    simp [inkLines_writeUnits, writeQueryStates, queryStateLines, List.flatMap_map]

end ComponentBody

variable (c : RenderContext)

/-- The interface of the props, where no module has it. -/
def interfaceParts : List Part :=
  if !c.facts.props.isEmpty && !c.plan.types then
    ofTemplate ("interface " ++ c.layout.propsType ++ " \x7b") :: ((c.facts.props.map propLine).map ofSource ++
      [ofTemplate "\x7d"])
  else []

def functionParts : List Part :=
  let body := ComponentBody.ofContext c
  let (before, last) := signature c (body.build c)
  before.map ofSource ++ (ofSource last :: (body.parts c ++ [ofTemplate "\x7d;"]))

/-- The parts of the component, in their order. -/
def componentParts : List Part :=
  (reactImport? (functionCodeOf c)).toList.map ofTemplate ++ ((importsOf c).render.map ofSource ++
    ((importsOf c).assetConstants.map ofSource ++ (interfaceParts c ++ (functionParts c ++
      [ofTemplate ("export default " ++ c.layout.name ++ ";")]))))

theorem inkLines_functionCode : Str.inkLines (functionCodeOf c) = (functionParts c).flatMap Part.inkLines := by
  unfold functionCodeOf componentFunction functionParts
  simp [ComponentBody.inkLines_build, List.flatMap_map]

theorem inkLines_renderComponent : Str.inkLines (renderComponent c) = (componentParts c).flatMap Part.inkLines := by
  rw [renderComponent_eq]
  unfold componentCode componentParts interfaceParts
  cases !c.facts.props.isEmpty && !c.plan.types <;>
    simp [CodeBuilder.when, inkLines_functionCode, List.flatMap_map]

variable {c}

/-- A word on one line stands in the component exactly if it stands in one of its parts. -/
theorem contains_renderComponent_iff {word : String} (hword : IsPhrase word.toList) :
    Str.contains (renderComponent c) word = true ↔ ∃ p ∈ componentParts c, Str.contains p.code word = true := by
  simp only [Str.contains_iff_inkLines hword, inkLines_renderComponent, List.mem_flatMap, Part.inkLines]
  constructor
  · rintro ⟨l, ⟨p, hp, hl⟩, hin⟩
    exact ⟨p, hp, l, hl, hin⟩
  · rintro ⟨p, hp, l, hl, hin⟩
    exact ⟨l, ⟨p, hp, hl⟩, hin⟩

end Recast.Template
