import Gatekeeper.Path

set_option autoImplicit false

/-!
# How a server is launched

The module that is run, the directory it runs in, its further arguments, and the extensions of the
documents that it is shown. Extensions are compared without regard to the case of ASCII letters.
-/

namespace Gatekeeper.Server

/-- How a server is launched. -/
structure LaunchSpec where
  module : String := "server"
  root : String
  extraArgs : List String := []
  /-- The extensions as they are compared: in lower case and without leading dots. -/
  extensions : List String := ["cfg"]
  languageId : String := "cfg"
  deriving DecidableEq, Repr

namespace LaunchSpec

/-- A text with its ASCII letters in lower case. -/
def lowerCase (s : List Char) : List Char := s.map Char.toLower

/-- A configured extension as it is compared. -/
def normalize (extension : String) : String :=
  String.ofList (lowerCase (extension.toList.dropWhile (· == '.')))

/-- The same launch for documents with the given extensions. Entries that are empty or only dots
count for nothing. -/
def withExtensions (spec : LaunchSpec) (extensions : List String) : LaunchSpec :=
  { spec with extensions := (extensions.map normalize).filter (· != "") }

/-- The arguments of the interpreter. -/
def args (spec : LaunchSpec) : List String := ["-m", spec.module] ++ spec.extraArgs

/-- Whether a document is shown to the server. -/
def handles (spec : LaunchSpec) (path : String) : Bool :=
  match Path.extension? path with
  | none => false
  | some e => spec.extensions.any fun known => lowerCase known.toList == lowerCase e.toList

end LaunchSpec

end Gatekeeper.Server
