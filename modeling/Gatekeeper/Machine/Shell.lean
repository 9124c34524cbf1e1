import Gatekeeper.Environment
import Gatekeeper.Text.Blank
import Gatekeeper.Text.Decimal
import Gatekeeper.Text.Find
import Gatekeeper.Text.Utf8

set_option autoImplicit false

/-!
# Shell scripts

A small part of the shell's language: lists of simple commands joined by `;`, line ends, `&&` and
`||`, with quoting, parameters, assignments and redirections of the two outputs, and the commands
that are built in. There are no pipes, loops or substitutions, and the standard input is empty.
-/

namespace Gatekeeper.Machine.Shell

open Text

/-! ## Tokens -/

/-- A part of a word. -/
inductive Piece
  | text (s : List Char)
  /-- The value of a parameter. Outside quotation marks it is split at blanks. -/
  | parameter (name : List Char) (quoted : Bool)
  deriving Repr

/-- When a command is run: always, or depending on the status of the one before it. -/
inductive Joint
  | always
  | onSuccess
  | onFailure
  deriving DecidableEq, Repr

/-- A token of a script. -/
inductive Token
  | word (pieces : List Piece)
  | joint (j : Joint)
  | newline
  /-- The output with the given number goes to the word that follows: to the output of that number
  if `duplicate`, and to the file of that name otherwise. -/
  | redirect (output : Nat) (duplicate : Bool)
  deriving Repr

/-- Where the lexer is. -/
inductive Mode
  | plain
  | single
  | double
  | escaped (quoted : Bool)
  | dollar (quoted : Bool)
  /-- In the name of a parameter, the characters read latest first. -/
  | name (quoted : Bool) (read : List Char)
  | braced (quoted : Bool) (read : List Char)
  | comment
  | ampersand
  | bar
  | greater (output : Nat)
  deriving Repr

/-- The state of the lexer. -/
structure Lexer where
  mode : Mode := .plain
  /-- The pieces of the open word, latest first. -/
  word : Option (List Piece) := none
  /-- The tokens, latest first. -/
  tokens : List Token := []

namespace Lexer

/-- Adds a piece to the open word. -/
def add (l : Lexer) (p : Piece) : Lexer := { l with word := some (p :: l.word.getD []) }

/-- Adds a character to the open word. -/
def char (l : Lexer) (c : Char) : Lexer := l.add (.text [c])

/-- Ends the open word. -/
def close (l : Lexer) : Lexer :=
  match l.word with
  | some pieces => { l with word := none, tokens := .word pieces.reverse :: l.tokens }
  | none => l

/-- Ends the open word and adds a token. -/
def put (l : Lexer) (t : Token) : Lexer :=
  let l := l.close
  { l with tokens := t :: l.tokens }

/-- Goes on inside or outside quotation marks. -/
def back (l : Lexer) (quoted : Bool) : Lexer :=
  { l with mode := if quoted then .double else .plain }

/-- The number of the output that is redirected: the open word, if it is one digit. -/
def output? (l : Lexer) : Option Nat :=
  match l.word with
  | some [.text [d]] => if isDigit d then some (digitValue d) else none
  | _ => none

/-- Begins a redirection. -/
def redirect (l : Lexer) : Lexer :=
  match l.output? with
  | some n => { l with word := none, mode := .greater n }
  | none => { l.close with mode := .greater 1 }

/-- Reads a character outside quotation marks. -/
def plain (l : Lexer) (c : Char) : Lexer :=
  if c == '\n' then l.put .newline
  else if c == ' ' || c == '\t' then l.close
  else if c == ';' then l.put (.joint .always)
  else if c == '&' then { l.close with mode := .ampersand }
  else if c == '|' then { l.close with mode := .bar }
  else if c == '>' then l.redirect
  else if c == '\x27' then { l.add (.text []) with mode := .single }
  else if c == '\x22' then { l.add (.text []) with mode := .double }
  else if c == '\x5c' then { l with mode := .escaped false }
  else if c == '$' then { l with mode := .dollar false }
  else if c == '#' && l.word.isNone then { l with mode := .comment }
  else l.char c

/-- Reads a character between double quotation marks. -/
def double (l : Lexer) (c : Char) : Lexer :=
  if c == '\x22' then { l with mode := .plain }
  else if c == '\x5c' then { l with mode := .escaped true }
  else if c == '$' then { l with mode := .dollar true }
  else l.char c

/-- Reads a character that begins nothing special before it. -/
def fresh (l : Lexer) (quoted : Bool) (c : Char) : Lexer :=
  if quoted then (l.back true).double c else (l.back false).plain c

/-- Whether a name can begin with a character. -/
def opensName (c : Char) : Bool := c.isAlpha || c == '_'

/-- Whether a character is a parameter of its own. -/
def isSpecial (c : Char) : Bool :=
  isDigit c || c == '$' || c == '?' || c == '#' || c == '@' || c == '*'

/-- Reads a character. -/
def step (l : Lexer) (c : Char) : Lexer :=
  match l.mode with
  | .plain => l.plain c
  | .single => if c == '\x27' then { l with mode := .plain } else l.char c
  | .double => l.double c
  | .escaped quoted =>
    let l := l.back quoted
    if c == '\n' then l
    else if quoted && !(c == '\x22' || c == '\x5c' || c == '$' || c == '\x60') then
      (l.char '\x5c').char c
    else l.char c
  | .dollar quoted =>
    if c == '\x7b' then { l with mode := .braced quoted [] }
    else if isSpecial c then (l.add (.parameter [c] quoted)).back quoted
    else if opensName c then { l with mode := .name quoted [c] }
    else (l.char '$').fresh quoted c
  | .name quoted read =>
    if c.isAlphanum || c == '_' then { l with mode := .name quoted (c :: read) }
    else (l.add (.parameter read.reverse quoted)).fresh quoted c
  | .braced quoted read =>
    if c == '\x7d' then (l.add (.parameter read.reverse quoted)).back quoted
    else { l with mode := .braced quoted (c :: read) }
  | .comment => if c == '\n' then ({ l with mode := .plain }).plain c else l
  | .ampersand =>
    if c == '&' then { l.put (.joint .onSuccess) with mode := .plain }
    else (l.put (.joint .always)).fresh false c
  | .bar =>
    if c == '|' then { l.put (.joint .onFailure) with mode := .plain }
    else (l.put (.joint .always)).fresh false c
  | .greater output =>
    if c == '&' then { l.put (.redirect output true) with mode := .plain }
    else if c == '>' then l
    else (l.put (.redirect output false)).fresh false c

/-- Ends the script. -/
def finish (l : Lexer) : List Token :=
  let l := match l.mode with
    | .name quoted read => l.add (.parameter read.reverse quoted)
    | .dollar _ => l.char '$'
    | _ => l
  l.close.tokens.reverse

end Lexer

/-- The tokens of a script. -/
def tokens (script : List Char) : List Token := (script.foldl Lexer.step {}).finish

/-! ## Commands -/

/-- A redirection of an output. -/
structure Redirection where
  output : Nat
  duplicate : Bool
  target : List Piece
  deriving Repr

/-- A simple command. -/
structure Command where
  joint : Joint := .always
  /-- The number of its line. -/
  line : Nat := 1
  words : List (List Piece) := []
  redirections : List Redirection := []
  deriving Repr

/-- The commands in a list of tokens. `current` is the command that is being read, its parts latest
first, and `pending` a redirection that has no target yet. -/
def commandsFrom (current : Command) (pending : Option (Nat × Bool)) : List Token → List Command
  | [] => [current]
  | .word w :: rest =>
    match pending with
    | some (output, duplicate) =>
      let r : Redirection := ⟨output, duplicate, w⟩
      commandsFrom { current with redirections := r :: current.redirections } none rest
    | none => commandsFrom { current with words := w :: current.words } none rest
  | .redirect output duplicate :: rest => commandsFrom current (some (output, duplicate)) rest
  | .joint j :: rest => current :: commandsFrom { joint := j, line := current.line } none rest
  | .newline :: rest =>
    if current.words.isEmpty then commandsFrom { current with line := current.line + 1 } none rest
    else current :: commandsFrom { line := current.line + 1 } none rest

/-- The commands of a script. -/
def commands (script : List Char) : List Command :=
  ((commandsFrom {} none (tokens script)).filter fun c => !c.words.isEmpty).map fun c =>
    { c with words := c.words.reverse, redirections := c.redirections.reverse }

/-! ## Running -/

/-- How a script ends. -/
inductive Ending
  | exited (status : Nat)
  | killed
  deriving DecidableEq, Repr

/-- The state of a script that runs. -/
structure State where
  /-- The name of the script and its arguments. -/
  name : String
  args : List String
  bindings : List (List Char × List Char) := []
  status : Nat := 0
  out : List UInt8 := []
  err : List UInt8 := []
  /-- The pauses so far, latest first: the number of bytes that were printed before, and how long
  the pause was, in milliseconds. -/
  pauses : List (Nat × Nat) := []
  ending : Option Ending := none

/-- The number that a script finds for its own process. -/
def ownProcess : Nat := 1000

namespace State

/-- The value of a parameter. -/
def value (s : State) (name : List Char) : List Char :=
  match name with
  | ['$'] => writeNat ownProcess
  | ['?'] => writeNat s.status
  | ['#'] => writeNat s.args.length
  | ['@'] => (" ".intercalate s.args).toList
  | ['*'] => (" ".intercalate s.args).toList
  | ['0'] => s.name.toList
  | _ =>
    if !name.isEmpty && name.all isDigit then
      ((s.args[valueOf 10 name - 1]?).getD "").toList
    else (s.bindings.lookup name).getD []

/-- The fields that a word stands for. `current` is the open field. -/
def fieldsFrom (s : State) (current : Option (List Char)) : List Piece → List (List Char)
  | [] => current.toList
  | .text t :: rest => fieldsFrom s (some (current.getD [] ++ t)) rest
  | .parameter name true :: rest => fieldsFrom s (some (current.getD [] ++ s.value name)) rest
  | .parameter name false :: rest =>
    match words (s.value name) with
    | [] => fieldsFrom s current rest
    | [w] => fieldsFrom s (some (current.getD [] ++ w)) rest
    | w :: ws => (current.getD [] ++ w) :: ws.dropLast ++ fieldsFrom s ws.getLast? rest

/-- The fields of several words. -/
def fields (s : State) (ws : List (List Piece)) : List (List Char) := ws.flatMap (s.fieldsFrom none)

end State

/-- Where an output goes. -/
inductive Sink
  | out
  | err
  | nowhere
  deriving DecidableEq, Repr

/-- The sinks of the standard output and the error output after a redirection. -/
def redirect (s : State) (sinks : Sink × Sink) (r : Redirection) : Sink × Sink :=
  let target := (s.fieldsFrom none r.target).flatten
  let sink :=
    if target == "1".toList && r.duplicate || target == "/dev/stdout".toList then sinks.1
    else if target == "2".toList && r.duplicate || target == "/dev/stderr".toList then sinks.2
    else .nowhere
  if r.output = 1 then (sink, sinks.2) else if r.output = 2 then (sinks.1, sink) else sinks

/-- Writes to a sink. -/
def State.write (s : State) (sink : Sink) (bytes : List UInt8) : State :=
  match sink with
  | .out => { s with out := s.out ++ bytes }
  | .err => { s with err := s.err ++ bytes }
  | .nowhere => s

/-- Whether a character is a digit in base eight. -/
def isOctal (c : Char) : Bool := '0' ≤ c && c ≤ '7'

/-- The character that a letter stands for after a backslash. -/
def escape? : Char → Option Char
  | 'n' => some '\n'
  | 't' => some '\t'
  | 'r' => some '\r'
  | 'a' => some '\x07'
  | 'b' => some '\x08'
  | 'f' => some '\x0c'
  | 'v' => some '\x0b'
  | '\x5c' => some '\x5c'
  | '\x22' => some '\x22'
  | '\x27' => some '\x27'
  | _ => none

/-- A character of a text, or a byte that was given by its code. -/
inductive Glyph
  | char (c : Char)
  | byte (b : UInt8)
  deriving DecidableEq, Repr

/-- The bytes of a glyph. -/
def Glyph.bytes : Glyph → List UInt8
  | char c => Utf8.encode [c]
  | byte b => [b]

/-- The part of an escape that has been read. -/
inductive Escape
  | none
  /-- A backslash. -/
  | begun
  /-- A code in base eight, of which so many digits have been read. -/
  | code (value digits : Nat)
  deriving Repr

/-- What `echo` and `printf` differ in: whether a code stands after a zero, of which there may then
be three digits more. -/
inductive Dialect
  | zero
  | bare
  deriving DecidableEq, Repr

/-- Reads a character outside escapes. -/
def Escape.open (c : Char) : List Glyph × Escape :=
  if c == '\x5c' then ([], .begun) else ([.char c], .none)

/-- Reads a character: the glyphs that are complete with it, and the escape that is open after
it. -/
def Escape.step (d : Dialect) (e : Escape) (c : Char) : List Glyph × Escape :=
  match e with
  | .none => Escape.open c
  | .begun =>
    if d = .zero && c == '0' then ([], .code 0 0)
    else if d = .bare && isOctal c then ([], .code (digitValue c) 1)
    else
      match escape? c with
      | some e => ([.char e], .none)
      | Option.none => ([.char '\x5c', .char c], .none)
  | .code value digits =>
    if isOctal c && digits < 3 then ([], .code (value * 8 + digitValue c) (digits + 1))
    else
      let (glyphs, e) := Escape.open c
      (.byte (UInt8.ofNat value) :: glyphs, e)

/-- The glyphs that an open escape stands for at the end of the text. -/
def Escape.finish : Escape → List Glyph
  | none => []
  | begun => [.char '\x5c']
  | code value _ => [.byte (UInt8.ofNat value)]

/-- The glyphs of a text. -/
def glyphsFrom (d : Dialect) (e : Escape) : List Char → List Glyph
  | [] => e.finish
  | c :: rest =>
    let (glyphs, e) := e.step d c
    glyphs ++ glyphsFrom d e rest

/-- The glyphs of a text. -/
def glyphs (d : Dialect) (s : List Char) : List Glyph := glyphsFrom d .none s

/-- What `echo` prints. -/
def echo (args : List (List Char)) : List UInt8 :=
  match args with
  | ['-', 'n'] :: rest => (glyphs .zero (" ".toList.intercalate rest)).flatMap Glyph.bytes
  | _ => (glyphs .zero (" ".toList.intercalate args)).flatMap Glyph.bytes ++ [10]

/-- The text of an argument as a directive asks for it. -/
def directive? (c : Char) (arg : List Char) : Option (List UInt8) :=
  match c with
  | 's' => some (Utf8.encode arg)
  | 'd' => some (Utf8.encode (writeNat (valueOf 10 arg)))
  | 'c' => some (Utf8.encode (arg.take 1))
  | 'b' => some ((glyphs .zero arg).flatMap Glyph.bytes)
  | _ => none

/-- The format with its directives replaced by arguments, and the arguments that are left. -/
def formatOnce (args : List (List Char)) : List Glyph → List UInt8 × List (List Char)
  | .char '%' :: .char c :: rest =>
    match directive? c (args.headD []) with
    | some text =>
      let (bytes, left) := formatOnce args.tail rest
      (text ++ bytes, left)
    | none =>
      let (bytes, left) := formatOnce args rest
      (Utf8.encode (if c == '%' then ['%'] else ['%', c]) ++ bytes, left)
  | g :: rest =>
    let (bytes, left) := formatOnce args rest
    (g.bytes ++ bytes, left)
  | [] => ([], args)

/-- What `printf` prints. The format is used again while it takes arguments, at most `fuel`
times. -/
def printf (fuel : Nat) (format : List Glyph) (args : List (List Char)) : List UInt8 :=
  let (bytes, left) := formatOnce args format
  match fuel with
  | 0 => bytes
  | fuel + 1 =>
    if left.isEmpty || left.length = args.length then bytes else bytes ++ printf fuel format left

/-- The names of signals that can be sent by name, with their numbers. -/
def signals : List (String × Nat) :=
  [("HUP", 1), ("INT", 2), ("QUIT", 3), ("ABRT", 6), ("KILL", 9), ("SEGV", 11), ("PIPE", 13),
    ("ALRM", 14), ("TERM", 15)]

/-- The number of a signal. -/
def signal? (s : List Char) : Option Nat :=
  if !s.isEmpty && s.all isDigit then some (valueOf 10 s) else signals.lookup (String.ofList s)

/-- The signal that the arguments of `kill` name. -/
def killSignal (args : List (List Char)) : Option Nat :=
  match args with
  | ['-', 's'] :: name :: _ => signal? name
  | ('-' :: name) :: _ => signal? name
  | _ => some 15

/-- A complaint of the shell. -/
def State.complain (s : State) (sinks : Sink × Sink) (line status : Nat) (text : List Char) :
    State :=
  let place := s.name.toList ++ ": ".toList ++ writeNat line ++ ": ".toList
  { s.write sinks.2 (Utf8.encode (place ++ text ++ ['\n'])) with status }

/-- Whether a simple test holds. -/
def holds : List (List Char) → Bool
  | ['!'] :: rest => !holds rest
  | [['-', 'n'], a] => !a.isEmpty
  | [['-', 'z'], a] => a.isEmpty
  | [a] => !a.isEmpty
  | [a, ['='], b] => a == b
  | [a, ['!', '='], b] => a != b
  | [a, ['-', 'e', 'q'], b] => valueOf 10 a == valueOf 10 b
  | [a, ['-', 'n', 'e'], b] => valueOf 10 a != valueOf 10 b
  | [a, ['-', 'l', 't'], b] => valueOf 10 a < valueOf 10 b
  | [a, ['-', 'l', 'e'], b] => valueOf 10 a ≤ valueOf 10 b
  | [a, ['-', 'g', 't'], b] => valueOf 10 b < valueOf 10 a
  | [a, ['-', 'g', 'e'], b] => valueOf 10 b ≤ valueOf 10 a
  | _ => false

/-- A number of seconds in milliseconds, 0 if it is not a number. -/
def milliseconds (s : List Char) : Nat :=
  let (whole, part) := (cutAt? (· == '.') s).getD (s, [])
  if (whole ++ part).all isDigit then
    valueOf 10 whole * 1000 + valueOf 10 ((part ++ ['0', '0', '0']).take 3)
  else 0

/-- Does nothing for as long as the arguments say together. -/
def State.pause (s : State) (args : List (List Char)) : State :=
  let length := args.foldl (fun total a => total + milliseconds a) 0
  { s with pauses := (s.out.length, length) :: s.pauses, status := 0 }

/-- Runs a built-in command. -/
def State.perform (s : State) (sinks : Sink × Sink) (line : Nat) (name : String)
    (args : List (List Char)) : State :=
  match name with
  | "echo" => { s.write sinks.1 (echo args) with status := 0 }
  | "printf" =>
    let printed := printf args.length (glyphs .bare (args.headD [])) args.tail
    { s.write sinks.1 printed with status := 0 }
  | "true" | ":" | "cat" | "set" | "export" => { s with status := 0 }
  | "sleep" => s.pause args
  | "false" | "read" => { s with status := 1 }
  | "pwd" => { s.write sinks.1 (Utf8.encode (s.value "PWD".toList ++ ['\n'])) with status := 0 }
  | "test" => { s with status := if holds args then 0 else 1 }
  | "[" => { s with status := if holds args.dropLast then 0 else 1 }
  | "exit" =>
    match args with
    | [] => { s with ending := some (.exited s.status) }
    | n :: _ =>
      if n.all isDigit && !n.isEmpty then
        { s with ending := some (.exited (valueOf 10 n % 256)) }
      else
        let s := s.complain sinks line 2 ("exit: Illegal number: ".toList ++ n)
        { s with ending := some (.exited 2) }
  | "kill" =>
    match killSignal args with
    | some 0 => { s with status := 0 }
    | some _ =>
      if args.getLast? == some (writeNat ownProcess) then { s with ending := some .killed }
      else { s with status := 1 }
    | none => { s with status := 1 }
  | _ => s.complain sinks line 127 (name.toList ++ ": not found".toList)

/-- The name and the value of an assignment. -/
def assignment? (word : List Char) : Option (List Char × List Char) :=
  (cutAt? (· == '=') word).filter fun (name, _) =>
    name.head?.any Lexer.opensName && name.all fun c => c.isAlphanum || c == '_'

/-- Runs a command, unless the script has ended or the status forbids it. -/
def State.run (s : State) (c : Command) : State :=
  let due := match c.joint with
    | .always => true
    | .onSuccess => s.status = 0
    | .onFailure => s.status ≠ 0
  if s.ending.isSome || !due then s
  else
    let sinks := c.redirections.foldl (redirect s) (.out, .err)
    match s.fields c.words with
    | [] => { s with status := 0 }
    | name :: args =>
      match assignment? name with
      | some v => { s with bindings := v :: s.bindings, status := 0 }
      | none => s.perform sinks c.line (String.ofList name) args

/-- What a script prints, how it ends, and its pauses in order, each with the number of bytes that
were printed before and its length in milliseconds. -/
structure Outcome where
  out : List UInt8
  err : List UInt8
  ending : Ending
  pauses : List (Nat × Nat)

/-- What has come of a script that runs no further. -/
def State.outcome (s : State) : Outcome :=
  ⟨s.out, s.err, s.ending.getD (.exited s.status), s.pauses.reverse⟩

/-- Runs a script among the given variables. -/
def run (env : Environment) (name : String) (args : List String) (script : List Char) :
    Outcome :=
  let bindings := env.map fun (n, v) => (n.toList, v.toList)
  ((commands script).foldl State.run { name, args, bindings }).outcome

end Gatekeeper.Machine.Shell
