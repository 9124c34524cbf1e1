import Gatekeeper.Text.Find

set_option autoImplicit false

/-!
# Paths

A path is kept as it is spelled. Two paths are the same when their components are: repeated
slashes, `.` inside a path and a trailing slash do not count, but a leading `.` and every `..` do.
-/

namespace Gatekeeper.Path

open Text

/-- Whether a path starts at the root. -/
def isAbsolute (p : String) : Bool := p.toList.head? == some '/'

/-- What stands between the slashes of a path. -/
def pieces (p : String) : List String := (p.toList.splitOn '/').map String.ofList

/-- The names in a path: its pieces other than empty ones and `.`. -/
def names (p : String) : List String := (pieces p).filter fun n => n != "" && n != "."

/-- The components of a path. The root is the component `/`; `.` is one only in front. -/
def components (p : String) : List String :=
  if isAbsolute p then "/" :: names p
  else if (pieces p).head? == some "." then "." :: names p
  else names p

/-- Whether two paths have the same components. -/
def same (p q : String) : Bool := components p == components q

/-- The path `q` as seen from `p`. -/
def join (p q : String) : String :=
  if isAbsolute q then q
  else if p == "" || p.toList.getLast? == some '/' then p ++ q
  else p ++ "/" ++ q

/-- The path that names several components, one below the other. -/
def ofComponents (cs : List String) : String := cs.foldl join ""

/-- A path and the paths of the directories above it, the longest first. The empty path is not among
them. -/
def ancestors (p : String) : List String :=
  let cs := components p
  (List.range cs.length).map fun k => ofComponents (cs.take (cs.length - k))

/-- The last name of a path, if the path ends in one. -/
def fileName? (p : String) : Option String :=
  match (components p).getLast? with
  | some n => if n == "/" || n == "." || n == ".." then none else some n
  | none => none

/-- The extension of a path: what follows the last dot of its last name, unless that dot is the
first character. -/
def extension? (p : String) : Option String :=
  (fileName? p).bind fun n =>
    match cutAt? (· == '.') n.toList.reverse with
    | none => none
    | some (_, []) => none
    | some (after, _) => some (String.ofList after.reverse)

/-- A path made absolute by a working directory. Components are put in one by one, and a leading `.`
is dropped. -/
def under (cwd p : String) : String :=
  if isAbsolute p then p else (names p).foldl join cwd

/-- A path made absolute by a working directory, with single slashes. Two leading slashes and a
trailing one are kept. The empty path has no absolute form. -/
def absolute? (cwd p : String) : Option String :=
  if p == "" then none
  else
    let start :=
      if !isAbsolute p then cwd
      else if (pieces p).take 2 == ["", ""] && (pieces p)[2]? != some "" then "//" else "/"
    let full := (names p).foldl join start
    some (if p.toList.getLast? == some '/' then join full "" else full)

end Gatekeeper.Path
