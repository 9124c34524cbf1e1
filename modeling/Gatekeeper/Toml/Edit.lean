import Gatekeeper.Toml.Outline
import Gatekeeper.Toml.Quote

set_option autoImplicit false

/-!
# Editing documents

`Document.putString` gives a key of a table at the top level a string value and leaves everything
else as it is written. The table may be written in any of the ways that TOML has: with a header,
with dotted keys, inline, implied by the headers of tables inside it, or not at all.
-/

namespace Gatekeeper.Toml

/-- A header with the entries of its table. -/
structure Block where
  head : Statement
  entries : List Statement

/-- The lines of a document by table: those before the first header, and the others. -/
structure Layout where
  top : List Statement
  blocks : List Block

namespace Layout

/-- The lines of a document by table. -/
def ofStatements (ss : List Statement) : Layout :=
  ss.foldr
    (fun s l => if s.body.isHeader then ⟨[], ⟨s, l.top⟩ :: l.blocks⟩ else ⟨s :: l.top, l.blocks⟩)
    ⟨[], []⟩

/-- The lines in their order. -/
def statements (l : Layout) : List Statement :=
  l.top ++ l.blocks.flatMap fun b => b.head :: b.entries

end Layout

/-- A key of a table at the top level, and its new value. -/
structure Assignment where
  table : String
  key : String
  value : String

namespace Assignment

/-- The value as it is written. -/
def text (a : Assignment) : List Char := quote a.value.toList

/-- The new value in a line. -/
def written (a : Assignment) : Written := .plain a.text (.string a.value)

/-- A new line that gives the value to a key. -/
def line (a : Assignment) (lead : List Char) (key : Key) : Statement :=
  { lead, body := .entry key [' '] a.written }

/-- The first parts of a key, with a space after the last of them. -/
def shorten (key : Key) (length : Nat) : Key :=
  match (key.take length).reverse with
  | [] => []
  | last :: above => ({ last with after := [' '] } :: above).reverse

/-- The line with the new value in the place of the old one. -/
def replace (a : Assignment) (s : Statement) : Statement :=
  match s.body with
  | .entry key _ _ => { s with body := .entry key [' '] a.written, tail := [] }
  | .header _ _ => s

/-- Whether a line is about a key or about what is below it. -/
def isUnder (path : List String) (s : Statement) : Bool := path.isPrefixOf s.body.key.names

/-- Puts the value into the lines of one table, where `path` leads from the table to the key; none
if there is no line about that key. Dotted keys below it give way to the value. -/
def putInLines? (a : Assignment) (path : List String) (ss : List Statement) :
    Option (List Statement) :=
  if ss.any fun s => s.body.key.names == path then
    some (ss.map fun s => if s.body.key.names == path then a.replace s else s)
  else
    match ss.dropWhile fun s => !isUnder path s with
    | [] => none
    | s :: rest =>
      some ((ss.takeWhile fun s => !isUnder path s)
        ++ a.line [] (shorten s.body.key path.length) :: rest.filter fun s => !isUnder path s)

/-- The last field of an inline table has a space after it when it is written anew. -/
def fieldOf (a : Assignment) (key : Key) (isLast : Bool) : Field :=
  { key, before := [' '], text := a.text, value := .string a.value,
    after := if isLast then [' '] else [] }

/-- Whether a field is about the key or about what is below it. -/
def isFieldUnder (a : Assignment) (f : Field) : Bool := f.key.names.head? == some a.key

/-- A new field with the value at the end of an inline table. -/
def newField (a : Assignment) : Field :=
  a.fieldOf [{ KeyPart.ofName a.key with before := [' '], after := [' '] }] true

/-- The key of a field that takes the place of a given one. -/
def fieldKey (f : Field) : Key :=
  if f.key.length == 1 then f.key
  else f.key.head?.toList.map fun p => { p with before := [' '], after := [' '] }

/-- Puts the value into an inline table. Blanks before the brace belong to the last field unless a
comma parts them from it. -/
def putInline (a : Assignment) (t : Inline) : Inline :=
  match t.fields.dropWhile fun f => !a.isFieldUnder f with
  | [] =>
    if t.comma then { t with fields := t.fields ++ [a.newField] }
    else
      { t with
        fields := t.fields ++ [{ a.newField with after := a.newField.after ++ t.last }]
        last := [] }
  | f :: rest =>
    let after := rest.filter fun f => !a.isFieldUnder f
    { t with
      fields := (t.fields.takeWhile fun f => !a.isFieldUnder f)
        ++ a.fieldOf (fieldKey f) after.isEmpty :: after }

/-- Whether a header is that of a table below the key. -/
def isBlockUnder (a : Assignment) (b : Block) : Bool := isUnder [a.table, a.key] b.head

/-- The line for the value where tables below the key give way to it, of which `heads` are the
headers. A header of the key itself gives the line its blanks. -/
def inherit? (a : Assignment) (above : Key) (heads : List Key) : Option Statement :=
  match heads.find? (·.length == 2), heads with
  | some [table, key], _ =>
    some (a.line table.before (above ++ [{ key with before := [] }]))
  | _, head :: _ =>
    (head[1]?).map fun key => a.line [] (above ++ [{ key with before := [], after := [' '] }])
  | _, [] => none

/-- A new line for the key, below the given parts. -/
def newLine (a : Assignment) (above : Key) : Statement :=
  a.line [] (above ++ [{ KeyPart.ofName a.key with after := [' '] }])

/-- The headers of the tables below the key. -/
def heads (a : Assignment) (l : Layout) : List Key :=
  (l.blocks.filter a.isBlockUnder).map (·.head.body.key)

/-- The tables that are not below the key. -/
def kept (a : Assignment) (l : Layout) : List Block := l.blocks.filter fun b => !a.isBlockUnder b

/-- Puts the value into a table that is written with dotted keys. -/
def putDotted (a : Assignment) (l : Layout) : Layout :=
  match a.putInLines? [a.table, a.key] l.top with
  | some top => ⟨top, a.kept l⟩
  | none =>
    let isOurs := isUnder [a.table]
    let above : Key :=
      ((l.top.find? isOurs).bind fun s => s.body.key.head?).toList.map fun p =>
        { p with before := [] }
    let line := (a.inherit? above (a.heads l)).getD (a.newLine above)
    let after := l.top.reverse.takeWhile fun s => !isOurs s
    let before := l.top.reverse.dropWhile fun s => !isOurs s
    ⟨before.reverse ++ line :: after.reverse, a.kept l⟩

/-- Whether a header is that of the table. -/
def isHead (a : Assignment) (b : Block) : Bool := b.head.body.key.names == [a.table]

/-- The table with the value among its entries. Where tables below the key give way to it, it comes
first if the first of them does. -/
def putInEntries (a : Assignment) (l : Layout) (b : Block) : Block :=
  let early := (l.blocks.takeWhile fun b => !a.isHead b).any a.isBlockUnder
  match a.putInLines? [a.key] b.entries, a.inherit? [] (a.heads l) with
  | some entries, _ => { b with entries }
  | none, some line =>
    { b with entries := if early then line :: b.entries else b.entries ++ [line] }
  | none, none => { b with entries := b.entries ++ [a.newLine []] }

/-- Puts the value into a table that has a header. -/
def putInBlock (a : Assignment) (l : Layout) : Layout :=
  { l with blocks := (a.kept l).map fun b => if a.isHead b then a.putInEntries l b else b }

/-- The name in a new header, as it is written in the first header of a table below. -/
def newName (a : Assignment) (l : Layout) : KeyPart :=
  match (l.blocks.find? fun b => isUnder [a.table] b.head).bind fun b => b.head.body.key.head? with
  | some part => { part with before := [], after := [] }
  | none => KeyPart.ofName a.table

/-- Puts the value into a table without a header of its own, which gets one. -/
def putInNewBlock (a : Assignment) (l : Layout) : Layout :=
  let number := Outline.numberBefore a.table l.statements
  let lead := if l.top.isEmpty && number = 0 then [] else ['\n']
  let block : Block :=
    { head := { lead, body := .header false [a.newName l] }
      entries := [(a.inherit? [] (a.heads l)).getD (a.newLine [])] }
  let keep := fun b => !a.isBlockUnder b
  { l with
    blocks := (l.blocks.take number).filter keep ++ block :: (l.blocks.drop number).filter keep }

/-- Whether a header opens an element of an array of the table's name. -/
def isArrayHead (a : Assignment) (b : Block) : Bool :=
  match b.head.body with
  | .header true key => key.names == [a.table]
  | _ => false

/-- Puts the value into the inline table of a line, if the line has the table's name. -/
def putInStatement? (a : Assignment) (s : Statement) : Option Statement :=
  if s.body.key.names == [a.table] then
    match s.body with
    | .entry key before (.inline t) =>
      some { s with body := .entry key before (.inline (a.putInline t)) }
    | _ => none
  else some s

/-- Puts the value into the lines of a document, unless what stands under the table's name is no
table. -/
def put? (a : Assignment) (l : Layout) : Option Layout :=
  if l.top.any fun s => s.body.key.names == [a.table] then
    (l.top.mapM a.putInStatement?).map fun top => { l with top }
  else if l.blocks.any a.isArrayHead then none
  else if l.top.any (isUnder [a.table]) then some (a.putDotted l)
  else if l.blocks.any a.isHead then some (a.putInBlock l)
  else some (a.putInNewBlock l)

end Assignment

/-- The document with a string as the value of a key of a table at the top level, unless what stands
under the table's name is no table. -/
def Document.putString? (d : Document) (table key value : String) : Option Document :=
  (Assignment.put? ⟨table, key, value⟩ (Layout.ofStatements d.statements)).map fun l =>
    { d with statements := l.statements }

end Gatekeeper.Toml
