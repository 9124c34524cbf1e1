import Gatekeeper.Config.Basic
import Gatekeeper.Toml.Reader

set_option autoImplicit false

/-!
# Configurations in TOML

What a TOML document configures. Unknown keys do not count, and what is not set keeps its default. A
table of known shape may be written as the array of its fields.
-/

namespace Gatekeeper.Config

open Toml (Value)

/-- The fields of a record, by name or in order. -/
def fieldsOf? (names : List String) : Value → Option (List (Option Value))
  | .table fields => some (names.map fun n => fields.lookup n)
  | .array items => some ((List.range names.length).map (items[·]?))
  | _ => none

/-- The value of a field that may be missing. -/
def decodeOr {α : Type} (default : α) (decode? : Value → Option α) : Option Value → Option α
  | none => some default
  | some v => decode? v

/-- A string. -/
def string? : Value → Option String
  | .string s => some s
  | _ => none

/-- A truth value. -/
def bool? : Value → Option Bool
  | .boolean b => some b
  | _ => none

/-- A number that fits 64 bits. -/
def number? : Value → Option Nat
  | .integer (.ofNat n) => if n < Text.word then some n else none
  | _ => none

/-- An array of values of one kind. -/
def list? {α : Type} (decode? : Value → Option α) : Value → Option (List α)
  | .array items => items.mapM decode?
  | _ => none

/-- The settings about the interpreter. -/
def interpreter? (v : Value) : Option Interpreter :=
  match fieldsOf? ["default_path", "follow_changes", "probe_timeout_secs"] v with
  | some [path, follow, timeout] => do
    let defaultPath ← decodeOr none (fun v => (string? v).map some) path
    let followChanges ← decodeOr true bool? follow
    let probeTimeout ← decodeOr 10 number? timeout
    some { defaultPath, followChanges, probeTimeout }
  | _ => none

/-- The settings about the server. -/
def server? (v : Value) : Option Server :=
  match fieldsOf? ["module", "root", "args", "document_extensions"] v with
  | some [module, root, args, extensions] => do
    let module ← decodeOr "server" string? module
    let root ← decodeOr none (fun v => (string? v).map some) root
    let args ← decodeOr [] (list? string?) args
    let extensions ← decodeOr ["cfg"] (list? string?) extensions
    some { module, root, args, extensions }
  | _ => none

/-- A required library. Nothing of it may be missing. -/
def requirement? (v : Value) : Option Requirement :=
  match fieldsOf? ["name", "minimum"] v with
  | some [some name, some minimum] => do
    let name ← string? name
    let text ← string? minimum
    let minimum ← (Version.parse text).toOption
    some { name, minimum }
  | _ => none

/-- The configuration that the fields of a document make. -/
def ofFields? (fields : List (String × Value)) : Option Config := do
  let interpreter ← decodeOr {} interpreter? (fields.lookup "interpreter")
  let server ← decodeOr {} server? (fields.lookup "server")
  let requirements ←
    decodeOr Requirement.defaults (list? requirement?) (fields.lookup "requirements")
  some { interpreter, server, requirements }

/-- Integers that a configuration may hold anywhere must fit 128 bits. -/
def integersFit (fields : List (String × Value)) : Bool :=
  (Value.table fields).integersWithin (-(Decimal.twoTo 127)) (Decimal.twoTo 128 - 1)

/-- The configuration that a text writes. -/
def ofText? (s : String) : Option Config :=
  (Toml.Document.read? s.toList).bind fun (_, fields) =>
    if integersFit fields then ofFields? fields else none

end Gatekeeper.Config
