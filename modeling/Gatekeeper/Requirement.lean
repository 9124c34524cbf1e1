import Gatekeeper.Version.Order

set_option autoImplicit false

/-!
# Requirements

A library that an interpreter must provide, with the least version that will do.
-/

namespace Gatekeeper

/-- A library with the least version of it that will do. -/
structure Requirement where
  name : String
  minimum : Version
  deriving Repr

namespace Requirement

/-- Whether an observed version meets the requirement. -/
def metBy (r : Requirement) (observed : Version) : Bool := observed.satisfies r.minimum

/-- The libraries that the language server is written against. -/
def defaults : List Requirement :=
  [⟨"pygls", Version.ofRelease [1, 0, 0]⟩, ⟨"spacy", Version.ofRelease [3, 4, 4]⟩]

end Requirement

end Gatekeeper
