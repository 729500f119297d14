import Recast.Proofs.Artifact.DeclaredNames
import Recast.Proofs.Artifact.HookHeads
import Recast.Proofs.Component.Identifiers

/-!
# Homes of state

A state of the component may be declared in its body in three ways: by the hook that declared
it in the source, as a member taken from the store, and by a constant derived from the query.
A hook that is a unit of its own goes away where one of the other two takes over. The statement
of a reducer is no such unit and stays.
-/

namespace Recast.Template

open Text Pattern Modernize

namespace BodyUnit

def modern (f : Facts) (u : BodyUnit) : BodyUnit := { u with code := Str.trim (Modernize.code f u.code) }

end BodyUnit

open BodyUnit

namespace Derived

end Derived

namespace ComponentBody

variable (c : RenderContext)

/-- The unit does not stay in the body: the store or the query takes its place. -/
def gone (u : BodyUnit) : Bool :=
  c.plan.store && u.isState || (ofContext c).usesQuery && Derived.fetches (modern c.facts u) ||
    (ofContext c).derived.any (u.declares ·.name)

end ComponentBody

namespace ComponentBody

variable {c : RenderContext}

end ComponentBody

open ComponentBody

end Recast.Template
