import Gatekeeper.Requirement

set_option autoImplicit false

/-!
# The probe script

The Python program that a probe runs in a candidate interpreter: it imports every required library
and prints their versions in order, separated by blanks. The names stand in the program as string
literals, in which a backslash takes the next character as it is.
-/

namespace Gatekeeper.Probe

/-- A character as it stands inside a literal. -/
def escapeChar (c : Char) : List Char :=
  if c == '\x5c' || c == '\x27' then ['\x5c', c] else [c]

/-- A name as a string literal. -/
def literal (name : List Char) : List Char := '\x27' :: name.flatMap escapeChar ++ ['\x27']

/-- The tuple of several names. A comma after the last name makes a tuple of a single one. -/
def tuple (names : List (List Char)) : List Char :=
  '(' :: ", ".toList.intercalate (names.map literal) ++ ",)".toList

/-- What stands before the tuple. -/
def opening : String := "import importlib.metadata as _m; _n = "

/-- What stands after the tuple. -/
def closing : String :=
  "; [__import__(_x) for _x in _n]; print(' '.join(_m.version(_x) for _x in _n))"

/-- The program that prints the versions of the required libraries. -/
def script (requirements : List Requirement) : String :=
  opening ++ String.ofList (tuple (requirements.map (·.name.toList))) ++ closing

/-- The arguments of an interpreter that make it run the program. -/
def args (requirements : List Requirement) : List String := ["-c", script requirements]

end Gatekeeper.Probe
