import Gatekeeper.Toml.Scalar
import Gatekeeper.Toml.Table
import Gatekeeper.Toml.Token

set_option autoImplicit false

/-!
# Reading TOML

An automaton over tokens that collects the statements of a document with their layout. Inside a
value it holds the arrays and inline tables that are open, innermost first. At most eighty of them
may be open at once.
-/

namespace Gatekeeper.Toml

/-- A key that is being read: its parts, latest first, and the part at hand. -/
structure OpenKey where
  parts : List KeyPart := []
  /-- The blanks before the part at hand, latest first. -/
  before : List Char := []
  /-- The text and the name of the part at hand, once it has come. -/
  part : Option (List Char × String) := none
  /-- The blanks after it, latest first. -/
  after : List Char := []

/-- A value, what stands before it, and what stands after it, latest first. -/
structure Placed where
  before : List Char
  value : Written
  after : List Char := []

/-- An array or inline table that is open; `before` is what stands before it, latest first. -/
inductive Frame
  /-- An array: its text, latest first, and its items, latest first. -/
  | array (before text : List Char) (items : List Value)
  /-- An inline table: its fields, latest first, and the key whose value is being read. -/
  | table (before : List Char) (fields : List Field) (key : Key)

/-- Where the automaton is in a value. All texts are latest first. -/
inductive ValueState
  /-- Before a value. -/
  | before (blanks : List Char)
  /-- In a word. -/
  | word (blanks text : List Char)
  /-- After a date and a space. -/
  | date (blanks text : List Char)
  /-- After a value that is part of another one. -/
  | after (p : Placed)
  /-- In front of a field of an inline table, or in its key. All fields before have their commas. -/
  | key (k : OpenKey)

/-- What the automaton is reading. -/
inductive Phase
  /-- What stands before a statement. -/
  | lead
  /-- A header of which one bracket has come. -/
  | bracket
  /-- A header, and whether it has two brackets. -/
  | header (array : Bool) (k : OpenKey)
  /-- A header of two brackets of which one has been closed. -/
  | closing (key : Key)
  | key (k : OpenKey)
  | value (key : Key) (frames : List Frame) (state : ValueState)
  /-- What stands after a statement, latest first. -/
  | tail (body : Body) (text : List Char)

/-- The automaton between two tokens: the statements so far, latest first, what stands before the
one at hand, latest first, and what it is reading. -/
structure Reader where
  statements : List Statement := []
  lead : List Char := []
  phase : Phase := .lead

/-- The greatest number of arrays and inline tables that may be open at once. -/
def maxDepth : Nat := 80

namespace OpenKey

/-- Whether a character may stand in a key without quotation marks. -/
def isBare (c : Char) : Bool := c.isAlphanum || c == '_' || c == '-'

/-- The text and name of a part that a token gives. -/
def part? : Token → Option (List Char × String)
  | .word text => if text.all isBare then some (text, String.ofList text) else none
  | .quoted text value false => some (text, String.ofList value)
  | _ => none

/-- The key with all parts read so far. -/
def finish? (k : OpenKey) : Option Key :=
  k.part.map fun (text, name) =>
    ({ before := k.before.reverse, text, name, after := k.after.reverse } :: k.parts).reverse

/-- Whether nothing of the key has come yet. -/
def isFresh (k : OpenKey) : Bool := k.parts.isEmpty && k.part.isNone

/-- Reads a token that does not end the key. -/
def step (k : OpenKey) (t : Token) : Option OpenKey :=
  match k.part with
  | none =>
    match t with
    | .space c => some { k with before := c :: k.before }
    | _ => (part? t).map fun p => { k with part := some p, after := [] }
  | some _ =>
    match t with
    | .mark '.' => k.finish?.map fun parts => { parts := parts.reverse }
    | .space c => some { k with after := c :: k.after }
    | _ => none

end OpenKey

/-- Whether a token may stand between the parts of an array or an inline table. -/
def Token.isFiller : Token → Bool
  | .newline => true
  | .comment _ => true
  | .space _ => true
  | _ => false

/-- The text from before a value up to what stands after it, latest first. -/
def Placed.text (p : Placed) : List Char := p.after ++ (p.before ++ p.value.text).reverse

/-- The field that a value makes with its key. -/
def Placed.field? (p : Placed) (key : Key) : Option Field :=
  p.value.value?.map fun value =>
    { key, before := p.before, text := p.value.text, value, after := p.after.reverse }

/-- What a token does to the arrays and inline tables that are open, and the state after it. -/
inductive Effect
  /-- Nothing. -/
  | stay (state : ValueState)
  /-- One is opened. -/
  | push (frame : Frame) (state : ValueState)
  /-- The innermost one grows. -/
  | change (frame : Frame) (state : ValueState)
  /-- A value is complete. -/
  | place (p : Placed)
  /-- The innermost one is closed and is a value. -/
  | pop (p : Placed)

/-- The phase after a value. -/
def Phase.placed (key : Key) (frames : List Frame) (p : Placed) : Phase :=
  match frames with
  | [] => .tail (.entry key p.before p.value) p.after
  | _ => .value key frames (.after p)

/-- The phase after a token with the given effect. -/
def Effect.apply (key : Key) (frames : List Frame) : Effect → Phase
  | stay state => .value key frames state
  | push frame state => .value key (frame :: frames) state
  | change frame state => .value key (frame :: frames.tail) state
  | place p => Phase.placed key frames p
  | pop p => Phase.placed key frames.tail p

namespace ValueState

/-- A word as a value. -/
def word? (blanks text after : List Char) : Option Placed :=
  (Scalar.value? text.reverse).map fun v => ⟨blanks.reverse, .plain text.reverse v, after⟩

/-- The state in which a token is read: a word that it is no part of is complete. A date may go on
with a space and a time. -/
def ready? (state : ValueState) (t : Token) : Option ValueState :=
  match state, t with
  | .word _ _, .word _ => some state
  | .word _ _, .mark '.' => some state
  | .word blanks text, t =>
    if t = .space ' ' && Scalar.isDate text.reverse then some state
    else (word? blanks text []).map .after
  | .date _ _, .word _ => some state
  | .date blanks text, _ => (word? blanks text [' ']).map .after
  | _, _ => some state

/-- Reads the first token of a value in so many arrays and inline tables. -/
def start (depth : Nat) (blanks : List Char) (t : Token) : Option Effect :=
  match t with
  | .word text => some (.stay (.word blanks text.reverse))
  | .mark '.' => some (.stay (.word blanks ['.']))
  | .quoted text s _ => some (.place ⟨blanks.reverse, .plain text (.string (String.ofList s)), []⟩)
  | .mark c =>
    if maxDepth ≤ depth then none
    else if c == '[' then some (.push (.array blanks [c] []) (.before []))
    else if c == '\x7b' then some (.push (.table blanks [] []) (.key {}))
    else none
  | _ => none

/-- Closes an array with the given text and items, both latest first. -/
def endArray (ahead text : List Char) (items : List Value) : Effect :=
  .pop ⟨ahead.reverse, .plain text.reverse (.array items.reverse), []⟩

/-- Reads a token before a value. -/
def stepBefore (top : Option Frame) (depth : Nat) (blanks : List Char) (t : Token) :
    Option Effect :=
  match top with
  | some (.array ahead text items) =>
    if t = .mark ']' then some (endArray ahead (']' :: blanks ++ text) items)
    else if t.isFiller then some (.stay (.before (t.text.reverse ++ blanks)))
    else start depth blanks t
  | _ =>
    match t with
    | .space c => some (.stay (.before (c :: blanks)))
    | _ => start depth blanks t

/-- Reads a token in a word that goes on with it. -/
def stepWord (blanks text : List Char) (t : Token) : Option Effect :=
  match t with
  | .word s => some (.stay (.word blanks (s.reverse ++ text)))
  | .mark '.' => some (.stay (.word blanks ('.' :: text)))
  | .space ' ' => some (.stay (.date blanks text))
  | _ => none

/-- Reads a token after a date and a space. -/
def stepDate (blanks text : List Char) (t : Token) : Option Effect :=
  match t with
  | .word s => some (.stay (.word blanks (s.reverse ++ ' ' :: text)))
  | _ => none

/-- Reads a token after a value that is part of another one. -/
def stepAfter (top : Option Frame) (p : Placed) (t : Token) : Option Effect :=
  if t.isFiller then some (.stay (.after { p with after := t.text.reverse ++ p.after }))
  else
    match top with
    | none => none
    | some (.array ahead text items) =>
      p.value.value?.bind fun v =>
        match t with
        | .mark ',' =>
            some (.change (.array ahead (',' :: p.text ++ text) (v :: items)) (.before []))
        | .mark ']' => some (endArray ahead (']' :: p.text ++ text) (v :: items))
        | _ => none
    | some (.table ahead fields k) =>
      (p.field? k).bind fun f =>
        match t with
        | .mark ',' => some (.change (.table ahead (f :: fields) []) (.key {}))
        | .mark '\x7d' =>
            some (.pop ⟨ahead.reverse, .inline ⟨(f :: fields).reverse, false, []⟩, []⟩)
        | _ => none

/-- Reads a token in front of a field of an inline table or in its key. -/
def stepKey (top : Option Frame) (k : OpenKey) (t : Token) : Option Effect :=
  match top with
  | some (.table ahead fields _) =>
    if k.isFresh && t.isFiller then
      some (.stay (.key { k with before := t.text.reverse ++ k.before }))
    else if t = .mark '\x7d' then
      if k.isFresh then
        some (.pop
          ⟨ahead.reverse, .inline ⟨fields.reverse, !fields.isEmpty, k.before.reverse⟩, []⟩)
      else none
    else if t = .mark '=' then
      k.finish?.map fun name => .change (.table ahead fields name) (.before [])
    else (k.step t).map fun k => .stay (.key k)
  | _ => none

/-- Reads a token inside the innermost one of the arrays and inline tables that are open. -/
def step (top : Option Frame) (depth : Nat) (state : ValueState) (t : Token) : Option Effect :=
  match state with
  | .before blanks => stepBefore top depth blanks t
  | .word blanks text => stepWord blanks text t
  | .date blanks text => stepDate blanks text t
  | .after p => stepAfter top p t
  | .key k => stepKey top k t

end ValueState

namespace Reader

/-- Ends a statement. -/
def finishStatement (r : Reader) (body : Body) (tail : List Char) : Reader :=
  { statements := { lead := r.lead.reverse, body, tail := tail.reverse } :: r.statements }

/-- Reads a token after a statement. -/
def stepTail (r : Reader) (body : Body) (text : List Char) (t : Token) : Option Reader :=
  match t with
  | .newline => some (r.finishStatement body text)
  | .space c => some { r with phase := .tail body (c :: text) }
  | .comment s => some { r with phase := .tail body (s.reverse ++ text) }
  | _ => none

/-- Reads a token in a value. -/
def stepValue (r : Reader) (key : Key) (frames : List Frame) (state : ValueState) (t : Token) :
    Option Reader :=
  (state.ready? t).bind fun state =>
    match frames, state with
    | [], .after p => r.stepTail (.entry key p.before p.value) p.after t
    | _, _ =>
      (state.step frames.head? frames.length t).map fun e => { r with phase := e.apply key frames }

/-- Reads one token. -/
def step (r : Reader) (t : Token) : Option Reader :=
  match r.phase with
  | .lead =>
    if t.isFiller then some { r with lead := t.text.reverse ++ r.lead }
    else if t = .mark '[' then some { r with phase := .bracket }
    else (OpenKey.step {} t).map fun k => { r with phase := .key k }
  | .bracket =>
    if t = .mark '[' then some { r with phase := .header true {} }
    else (OpenKey.step {} t).map fun k => { r with phase := .header false k }
  | .header array k =>
    if t = .mark ']' then
      k.finish?.map fun key =>
        { r with phase := if array then .closing key else .tail (.header false key) [] }
    else (k.step t).map fun k => { r with phase := .header array k }
  | .closing key =>
    if t = .mark ']' then some { r with phase := .tail (.header true key) [] } else none
  | .key k =>
    if t = .mark '=' then
      k.finish?.map fun key => { r with phase := .value key [] (.before []) }
    else (k.step t).map fun k => { r with phase := .key k }
  | .value key frames state => r.stepValue key frames state t
  | .tail body text => r.stepTail body text t

/-- The document when the tokens end. -/
def finish? (r : Reader) : Option Document :=
  match r.phase with
  | .lead => some ⟨r.statements.reverse, r.lead.reverse⟩
  | .tail body text => some ⟨(r.finishStatement body text).statements.reverse, []⟩
  | .value key [] state =>
    match state.ready? .newline with
    | some (.after p) =>
      some ⟨(r.finishStatement (.entry key p.before p.value) p.after).statements.reverse, []⟩
    | _ => none
  | _ => none

end Reader

namespace Document

/-- The document that a text writes, whether or not its lines agree. -/
def layout? (s : List Char) : Option Document :=
  (tokens? s).bind fun ts => (ts.foldlM Reader.step {}).bind Reader.finish?

/-- The document that a text writes, and what it says. -/
def read? (s : List Char) : Option (Document × List (String × Value)) :=
  (layout? s).bind fun d => d.fields?.map fun fields => (d, fields)

end Document

end Gatekeeper.Toml
