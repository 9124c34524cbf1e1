import Gatekeeper.Message
import Gatekeeper.Requirement

set_option autoImplicit false

/-!
# Verdicts on interpreters

What a verification finds out about a candidate, the message that fits it best, and its one-line
text.
-/

namespace Gatekeeper

/-- A library version found in an interpreter. -/
structure Observed where
  name : String
  version : Version
  deriving Repr

/-- A library that an interpreter has, but not in the required version. -/
structure Unmet where
  name : String
  observed : Version
  required : Version
  deriving Repr

/-- What a verification finds out about an interpreter. -/
inductive Verdict
  /-- It provides all that is required. -/
  | compatible (versions : List Observed)
  /-- There is nothing at its path. -/
  | notFound (path : String)
  /-- A required library cannot be loaded; `module` is the one to blame, where that is known. -/
  | missing (module : Option String)
  /-- All libraries are there, but some are too old. -/
  | mismatch (versions : List Observed) (unmet : List Unmet)
  /-- It could not be examined. -/
  | failed (reason : String)
  deriving Repr

namespace Verdict

/-- Whether a server may be launched on the interpreter. -/
def isCompatible : Verdict → Bool
  | compatible _ => true
  | _ => false

/-- The library versions that were seen. -/
def versions : Verdict → List Observed
  | compatible versions => versions
  | mismatch versions _ => versions
  | _ => []

/-- The message that fits best. The two libraries of the language server have messages of their
own. -/
def message : Verdict → Message
  | compatible _ => .interpreterCompatible
  | notFound _ => .interpreterNotFound
  | missing module =>
    if module = some "pygls" then .pyglsNotFound
    else if module = some "spacy" then .spacyNotFound
    else .missingModules
  | mismatch _ unmet =>
    let first := unmet.head?.map (·.name)
    if first = some "pygls" then .pyglsVersion
    else if first = some "spacy" then .spacyVersion
    else .versionsIncompatible
  | failed _ => .interpreterError

/-- The text of a library version. -/
def showObserved (o : Observed) : String := o.name ++ " " ++ o.version.text

/-- The text of an unmet requirement. -/
def showUnmet (u : Unmet) : String :=
  u.name ++ " " ++ u.observed.text ++ " >= " ++ u.required.text

/-- The one-line text of a verdict. -/
def display (v : Verdict) : String :=
  match v with
  | compatible versions =>
    v.message.display ++ ": " ++ ", ".intercalate (versions.map showObserved)
  | notFound path => v.message.display ++ ": " ++ path
  | missing module =>
    match module, v.message with
    | some name, .missingModules => v.message.display ++ ": " ++ name
    | _, m => m.display
  | mismatch _ unmet =>
    Message.versionsIncompatible.display ++ ": " ++ " | ".intercalate (unmet.map showUnmet)
      ++ (if v.message = .versionsIncompatible then "" else " (" ++ v.message.tag ++ ")")
  | failed reason => v.message.display ++ ": " ++ reason

end Verdict

end Gatekeeper
