import Gatekeeper.Path
import Gatekeeper.Text.Decimal
import Gatekeeper.Text.Utf8

set_option autoImplicit false

/-!
# File URIs

An absolute path as a URI: its names one after another, each behind a slash, with the bytes that may
not stand in a URI replaced by their codes. A name keeps `..`, so no two names are joined.
-/

namespace Gatekeeper.Server.Uri

open Text

/-- The ASCII characters other than controls that are replaced by their codes. -/
def reserved : List Char :=
  [' ', '\x22', '<', '>', '\x60', '#', '?', '\x7b', '\x7d', '%', '\x5c']

/-- Whether a byte is replaced by its code. -/
def isEscaped (b : UInt8) : Bool :=
  b ≤ 0x1F || 0x7F ≤ b || reserved.any fun c => c.toNat = b.toNat

/-- A byte as it stands in a URI. -/
def escape (b : UInt8) : List Char :=
  if isEscaped b then ['%', upperHexDigit (b.toNat / 16), upperHexDigit (b.toNat % 16)]
  else [Char.ofNat b.toNat]

/-- A name as it stands in a URI. -/
def segment (name : String) : List Char := (Utf8.encode name.toList).flatMap escape

/-- The URI of a path. Relative paths have none. -/
def ofPath? (path : String) : Option String :=
  if Path.isAbsolute path then
    match Path.names path with
    | [] => some "file:///"
    | names => some ("file://" ++ String.ofList (names.flatMap fun n => '/' :: segment n))
  else none

end Gatekeeper.Server.Uri
