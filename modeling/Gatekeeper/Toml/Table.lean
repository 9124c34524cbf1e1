import Gatekeeper.Toml.Document

set_option autoImplicit false

/-!
# What a TOML document says

Tables grow while the lines of a document are read. A table knows how it came to be, which decides
what later lines may add to it: a header opens a table once, a dotted key extends only tables that
dotted keys have made, and a value that is written out is closed.
-/

namespace Gatekeeper.Toml

/-- How a table came to be. -/
inductive Origin
  /-- By a header of its own. -/
  | header
  /-- By a header further down. -/
  | implied
  /-- By a dotted key. -/
  | dotted
  deriving DecidableEq, Repr

/-- What stands under a name while a document is read. -/
inductive Node
  /-- A value that is written out. -/
  | leaf (v : Value)
  | table (origin : Origin) (children : List (String × Node))
  /-- An array of tables, the latest first. -/
  | tables (elements : List (List (String × Node)))

/-- The children of a table. -/
abbrev Children := List (String × Node)

namespace Children

/-- Changes what stands under a name; what is new comes last. -/
def update (name : String) (f : Option Node → Option Node) : Children → Option Children
  | [] => (f none).map fun n => [(name, n)]
  | (m, n) :: rest =>
    if m = name then (f (some n)).map fun n => (m, n) :: rest
    else (update name f rest).map ((m, n) :: ·)

/-- Changes the children of the table that stands under a name: one that is made where there is
none, and the latest one of an array of tables. -/
def within (change : Children → Option Children) : Option Node → Option Node
  | none => (change []).map (.table .implied)
  | some (.leaf _) => none
  | some (.table origin cs) => (change cs).map (.table origin)
  | some (.tables []) => none
  | some (.tables (cs :: older)) => (change cs).map fun cs => .tables (cs :: older)

/-- Changes the children of the table at the path of a header. -/
def descend : List String → (Children → Option Children) → Children → Option Children
  | [], change => change
  | name :: path, change => update name (within (descend path change))

/-- Opens the table that stands under a name. A table that a header further down has made is taken
over. -/
def opened : Option Node → Option Node
  | none => some (.table .header [])
  | some (.table .implied cs) => some (.table .header cs)
  | _ => none

/-- Opens another table of the array of tables that stands under a name. -/
def openedElement : Option Node → Option Node
  | none => some (.tables [[]])
  | some (.tables es) => some (.tables ([] :: es))
  | _ => none

/-- Opens a table, or another table of an array of tables, under a name. -/
def openAt (array : Bool) (name : String) : Children → Option Children :=
  update name (if array then openedElement else opened)

/-- Puts a value where nothing stands. -/
def placed (v : Value) : Option Node → Option Node
  | none => some (.leaf v)
  | some _ => none

/-- Changes the children of the table that stands under a part of a dotted key. Only dotted keys
extend the tables that dotted keys have made; `onTheWay` says whether the table is not that of the
last part, and then it may also be one that headers further down have made. -/
def dottedWithin (onTheWay : Bool) (change : Children → Option Children) :
    Option Node → Option Node
  | none => (change []).map (.table .dotted)
  | some (.table .dotted cs) => (change cs).map (.table .dotted)
  | some (.table .implied cs) => if onTheWay then (change cs).map (.table .implied) else none
  | some (.tables (cs :: older)) =>
    if onTheWay then (change cs).map fun cs => .tables (cs :: older) else none
  | _ => none

/-- Puts a value at a dotted key. -/
def putDotted : List String → Value → Children → Option Children
  | [], _, _ => none
  | [name], v, cs => update name (placed v) cs
  | name :: next :: path, v, cs =>
    update name (dottedWithin (!path.isEmpty) (putDotted (next :: path) v)) cs

end Children

mutual

/-- The value that a node has when the document ends. -/
def Node.value : Node → Value
  | .leaf v => v
  | .table _ cs => .table (Node.fields cs)
  | .tables es => .array (Node.elements es [])

/-- The fields that children make. -/
def Node.fields : List (String × Node) → List (String × Value)
  | [] => []
  | (name, n) :: cs => (name, n.value) :: Node.fields cs

/-- The tables of an array, in front of those given. -/
def Node.elements : List (List (String × Node)) → List Value → List Value
  | [], later => later
  | cs :: es, later => Node.elements es (.table (Node.fields cs) :: later)

end

namespace Inline

/-- The children that the fields of an inline table make. -/
def children? (t : Inline) : Option Children :=
  t.fields.foldlM (fun cs f => cs.putDotted f.key.names f.value) []

/-- What an inline table says. -/
def value? (t : Inline) : Option Value :=
  t.children?.map fun cs => .table (Node.fields cs)

end Inline

/-- What a value says. -/
def Written.value? : Written → Option Value
  | plain _ value => some value
  | inline table => table.value?

/-- A document while it is read: its children, and the path of the open table. -/
structure Contents where
  children : Children := []
  path : List String := []

/-- Reads a line. -/
def Contents.add (c : Contents) (b : Body) : Option Contents :=
  match b with
  | .header array key =>
    match key.names.reverse with
    | [] => none
    | name :: above =>
      let path := above.reverse
      (c.children.descend path (Children.openAt array name)).map fun children =>
        ⟨children, key.names⟩
  | .entry key _ value =>
    value.value?.bind fun v =>
      (c.children.descend c.path fun cs => cs.putDotted key.names v).map fun children =>
        { c with children }

/-- What a document says, if its lines agree. -/
def Document.fields? (d : Document) : Option (List (String × Value)) :=
  (d.statements.foldlM (fun (c : Contents) s => c.add s.body) {}).map fun c =>
    Node.fields c.children

end Gatekeeper.Toml
