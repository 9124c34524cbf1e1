import Gatekeeper.Verdict

set_option autoImplicit false

/-!
# What a probe tells

The verdict that follows from the output of a probe. A run that succeeded must have printed one
version for each requirement. A run that failed is blamed on a missing library if it says so, and
otherwise on the interpreter.
-/

namespace Gatekeeper.Probe

open Text

/-- How a program ended and what it printed. -/
structure Output where
  success : Bool
  /-- The exit status, none for a program that a signal ended. -/
  code : Option Int
  stdout : String
  stderr : String
  deriving DecidableEq, Repr

/-- What a failed import prints. -/
def importMarkers : List String := ["ModuleNotFoundError:", "ImportError:"]

/-- Whether an error output tells of a failed import. -/
def tellsOfImport (stderr : List Char) : Bool :=
  importMarkers.any fun m => occursIn m.toList stderr

/-- Either kind of quotation mark. -/
def isQuote (c : Char) : Bool := c == '\x27' || c == '\x22'

/-- The top-level module of the first `No module named '…'` in an error output. -/
def missingModule (stderr : List Char) : Option String :=
  match splitAt? "No module named".toList stderr with
  | none => none
  | some (_, rest) =>
    match trimStart rest with
    | [] => none
    | q :: quoted =>
      if isQuote q then
        match cutAt? isQuote quoted with
        | none => none
        | some (name, _) =>
          let top := name.takeWhile (· != '.')
          if top.isEmpty then none else some (String.ofList top)
      else none

/-- Why a run failed that does not tell of a failed import: its last line, or how it ended. -/
def failureReason (out : Output) : String :=
  match lastLine? out.stderr.toList, out.code with
  | some line, _ => String.ofList line
  | none, some code => "interpreter exited with status " ++ String.ofList (writeInt code)
  | none, none => "interpreter terminated by signal"

/-- The verdict on a run that failed. -/
def classifyFailure (out : Output) : Verdict :=
  if tellsOfImport out.stderr.toList then .missing (missingModule out.stderr.toList)
  else .failed (failureReason out)

/-- The versions that the words of an output give for the requirements, or the reason why one of
them is unreadable. -/
def readVersions : List Requirement → List (List Char) → Except String (List Version)
  | r :: rs, w :: ws =>
    match Version.parse (String.ofList w) with
    | .error e => .error ("unreadable " ++ r.name ++ " version: " ++ e.message)
    | .ok v => (readVersions rs ws).map (v :: ·)
  | _, _ => .ok []

/-- The requirements with the versions that were observed for them. -/
def observe (requirements : List Requirement) (versions : List Version) : List Observed :=
  requirements.zipWith (fun r v => ⟨r.name, v⟩) versions

/-- The requirements that the observed versions do not meet. -/
def unmet (requirements : List Requirement) (versions : List Version) : List Unmet :=
  (requirements.zip versions).filterMap fun (r, v) =>
    if r.metBy v then none else some ⟨r.name, v, r.minimum⟩

/-- The verdict on a run that succeeded. -/
def classifySuccess (stdout : String) (requirements : List Requirement) : Verdict :=
  let ws := words stdout.toList
  if ws.length != requirements.length then
    .failed ("expected " ++ toString requirements.length ++ " version strings, got '"
      ++ String.ofList (trim stdout.toList) ++ "'")
  else
    match readVersions requirements ws with
    | .error reason => .failed reason
    | .ok versions =>
      let unmet := unmet requirements versions
      if unmet.isEmpty then .compatible (observe requirements versions)
      else .mismatch (observe requirements versions) unmet

/-- The verdict on the output of a probe. -/
def classify (out : Output) (requirements : List Requirement) : Verdict :=
  if out.success then classifySuccess out.stdout requirements else classifyFailure out

end Gatekeeper.Probe
