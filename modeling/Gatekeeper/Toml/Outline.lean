import Gatekeeper.Toml.Document

set_option autoImplicit false

/-!
# Where a table belongs

A new table is written behind the tables that come before it when the document is walked through
table by table. A table comes after the one that holds it; among the tables of one table those with
a header are in the order of their headers, and those that only deeper headers imply are where they
were first mentioned.
-/

namespace Gatekeeper.Toml

/-- The tables of a document, with the number of their headers. -/
inductive Outline
  | table (number : Option Nat) (children : List (String × Outline))
  /-- An array of tables, the latest first. -/
  | array (elements : List Outline)

namespace Outline

/-- The children of a table, or of the latest table of an array. -/
def children : Outline → List (String × Outline)
  | table _ cs => cs
  | array (table _ cs :: _) => cs
  | array _ => []

/-- The same with other children. -/
def withChildren (cs : List (String × Outline)) : Outline → Outline
  | table number _ => table number cs
  | array (table number _ :: older) => array (table number cs :: older)
  | array es => array es

/-- Puts a table under a name; what is new comes last. -/
def put (name : String) (o : Outline) : List (String × Outline) → List (String × Outline)
  | [] => [(name, o)]
  | (m, old) :: rest => if m = name then (m, o) :: rest else (m, old) :: put name o rest

/-- Mentions the tables on a path. -/
def mention : List String → List (String × Outline) → List (String × Outline)
  | [], cs => cs
  | name :: path, cs =>
    let o := (cs.lookup name).getD (table none [])
    put name (o.withChildren (mention path o.children)) cs

/-- Enters a header with its number. -/
def enter (array : Bool) (number : Nat) : List String → List (String × Outline) →
    List (String × Outline)
  | [], cs => cs
  | [name], cs =>
    let old := cs.lookup name
    if array then
      match old with
      | some (.array es) => put name (.array (table (some number) [] :: es)) cs
      | _ => put name (.array [table (some number) []]) cs
    else
      cs.filter (·.1 != name)
        ++ [(name, table (some number) ((old.map Outline.children).getD []))]
  | name :: path, cs =>
    let o := (cs.lookup name).getD (table none [])
    put name (o.withChildren (enter array number path o.children)) cs

mutual

/-- The numbers of the headers of a table and the tables in it, in the order of the walk. -/
def numbers : Outline → List Nat
  | table number cs => number.toList ++ numbersOfChildren cs
  | array es => numbersOfElements es []

/-- The same for the children of a table. -/
def numbersOfChildren : List (String × Outline) → List Nat
  | [] => []
  | (_, o) :: cs => numbers o ++ numbersOfChildren cs

/-- The same for the tables of an array, in front of the given numbers. -/
def numbersOfElements : List Outline → List Nat → List Nat
  | [], later => later
  | o :: es, later => numbersOfElements es (numbers o ++ later)

end

/-- The tables of a document while its lines are read: the number of headers, the path of the open
table, and the tables so far. -/
structure Walk where
  headers : Nat := 0
  path : List String := []
  children : List (String × Outline) := []

/-- Reads a line. Headers are numbered from one. -/
def Walk.add (w : Walk) (b : Body) : Walk :=
  match b with
  | .header isArray key =>
    let n := w.headers + 1
    ⟨n, key.names, enter isArray n key.names w.children⟩
  | .entry key _ _ => { w with children := mention (w.path ++ key.names.dropLast) w.children }

/-- The tables of a document. -/
def ofStatements (ss : List Statement) : List (String × Outline) :=
  (ss.foldl (fun (w : Walk) s => w.add s.body) {}).children

/-- The number of the header after whose table a table at the top level belongs, zero if it comes
before all headers. -/
def numberBefore (name : String) (ss : List Statement) : Nat :=
  (numbersOfChildren ((ofStatements ss).takeWhile (·.1 != name))).getLast?.getD 0

end Outline

end Gatekeeper.Toml
