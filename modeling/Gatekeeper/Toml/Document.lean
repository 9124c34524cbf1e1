import Gatekeeper.Toml.Value

set_option autoImplicit false

/-!
# TOML documents with their layout

A document is a list of statements, one a line, each with what stands around it: comments and blank
lines before, spaces between, a comment after. `Document.render` writes a document as it was.
-/

namespace Gatekeeper.Toml

/-- One part of a dotted key. -/
structure KeyPart where
  /-- The blanks before it. -/
  before : List Char := []
  /-- The part as it is written. -/
  text : List Char
  /-- The name that it stands for. -/
  name : String
  /-- The blanks after it. -/
  after : List Char := []
  deriving DecidableEq, Repr

/-- A key as it is written. -/
abbrev Key := List KeyPart

/-- The names of a key's parts. -/
def Key.names (k : Key) : List String := k.map (·.name)

/-- A part with the blanks around it. -/
def KeyPart.render (p : KeyPart) : List Char := p.before ++ p.text ++ p.after

/-- A key with the blanks around its parts. -/
def Key.render (k : Key) : List Char := ['.'].intercalate (k.map KeyPart.render)

/-- A field of an inline table. -/
structure Field where
  key : Key
  /-- What stands between the equals sign and the value. -/
  before : List Char
  /-- The value as it is written. -/
  text : List Char
  value : Value
  /-- What stands between the value and what comes next. -/
  after : List Char
  deriving Repr

/-- A field as it is written. -/
def Field.render (f : Field) : List Char := f.key.render ++ '=' :: f.before ++ f.text ++ f.after

/-- An inline table as it is written. -/
structure Inline where
  fields : List Field
  /-- Whether there is a comma after the last field. -/
  comma : Bool
  /-- What stands before the closing brace. -/
  last : List Char
  deriving Repr

/-- An inline table with its braces. -/
def Inline.render (t : Inline) : List Char :=
  '\x7b' :: [','].intercalate (t.fields.map Field.render) ++ (if t.comma then [','] else [])
    ++ t.last ++ ['\x7d']

/-- A value as it is written. Of an inline table the layout is known. -/
inductive Written
  | plain (text : List Char) (value : Value)
  | inline (table : Inline)
  deriving Repr

/-- The text of a value. -/
def Written.text : Written → List Char
  | plain text _ => text
  | inline table => table.render

/-- What a line of a document says. -/
inductive Body
  /-- Opens a table, or another table of an array of tables. -/
  | header (array : Bool) (key : Key)
  /-- Gives a key its value; `before` stands between the equals sign and the value. -/
  | entry (key : Key) (before : List Char) (value : Written)
  deriving Repr

/-- The key of a line. -/
def Body.key : Body → Key
  | header _ key => key
  | entry key _ _ => key

/-- Whether a line opens a table. -/
def Body.isHeader : Body → Bool
  | header _ _ => true
  | entry _ _ _ => false

/-- The text of a line without what stands around it. -/
def Body.render : Body → List Char
  | header array key =>
    let s := '[' :: key.render ++ [']']
    if array then '[' :: s ++ [']'] else s
  | entry key before value => key.render ++ '=' :: before ++ value.text

/-- A line of a document with what stands around it. -/
structure Statement where
  /-- The blanks, comments and line ends before it. -/
  lead : List Char := []
  body : Body
  /-- The blanks and the comment after it. -/
  tail : List Char := []
  deriving Repr

/-- A line with its end. -/
def Statement.render (s : Statement) : List Char := s.lead ++ s.body.render ++ s.tail ++ ['\n']

/-- A document. -/
structure Document where
  statements : List Statement
  /-- The blanks, comments and line ends at the end. -/
  rest : List Char := []
  deriving Repr

/-- The text of a document. -/
def Document.render (d : Document) : List Char := d.statements.flatMap Statement.render ++ d.rest

end Gatekeeper.Toml
