import Gatekeeper.Text.Find

set_option autoImplicit false

/-!
# Environment variables

The variables of a process, and the expansion of references to them: `${NAME}` stands for the value
of the variable, or for nothing where it has none. A reference that is not closed stays as it is.
-/

namespace Gatekeeper

open Text

/-- The variables of a process with their values. -/
abbrev Environment := List (String × String)

namespace Environment

/-- The value of a variable. -/
def get? (env : Environment) (name : String) : Option String := env.lookup name

/-- The value of a variable that is set and not empty. -/
def nonEmpty? (env : Environment) (name : String) : Option String :=
  (env.get? name).filter (· != "")

/-- The environment in which a variable has a value, or none. -/
def set (env : Environment) (name : String) (value : Option String) : Environment :=
  let others := env.filter (·.1 != name)
  match value with
  | some v => (name, v) :: others
  | none => others

/-- What opens a reference. -/
def openMark : List Char := ['$', '\x7b']

/-- What a reference to a variable stands for. -/
def valueOf (env : Environment) (name : List Char) : List Char :=
  if name.isEmpty then [] else ((env.get? (String.ofList name)).getD "").toList

/-- Reads on after an opened reference with the characters `name`, latest first, or, where there is
none open, outside references. -/
def expandFrom (env : Environment) : Option (List Char) → List Char → List Char
  | none, [] => []
  | some name, [] => openMark ++ name.reverse
  | some name, c :: rest =>
    if c == '\x7d' then env.valueOf name.reverse ++ expandFrom env none rest
    else expandFrom env (some (c :: name)) rest
  | none, [c] => [c]
  | none, c :: d :: rest =>
    if c == '$' && d == '\x7b' then expandFrom env (some []) rest
    else c :: expandFrom env none (d :: rest)

/-- A text with its references replaced, in one pass from left to right. -/
def expand (env : Environment) (s : String) : String :=
  String.ofList (expandFrom env none s.toList)

/-- Reads on for `references` as `expandFrom` does. -/
def referencesFrom : Option (List Char) → List Char → List String
  | none, [] => []
  | some _, [] => []
  | some name, c :: rest =>
    if c == '\x7d' then String.ofList name.reverse :: referencesFrom none rest
    else referencesFrom (some (c :: name)) rest
  | none, [_] => []
  | none, c :: d :: rest =>
    if c == '$' && d == '\x7b' then referencesFrom (some []) rest
    else referencesFrom none (d :: rest)

/-- The names of the variables that a text refers to, in order. -/
def references (s : String) : List String := referencesFrom none s.toList

end Environment

end Gatekeeper
