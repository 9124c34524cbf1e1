import Gatekeeper.Text.Blank
import Gatekeeper.Text.Decimal
import Gatekeeper.Text.Find

set_option autoImplicit false

/-!
# Versions of libraries

A version is a list of release numbers with an optional pre-release tag and an optional
post-release number: `3.4.4`, `1.0.0rc1`, `1.0.post2`. Reading is generous about everything around
these parts (a leading `v`, separators, letter case, a local part after `+`) and strict about the
release itself: it must be there, and its components must be numbers that fit 64 bits.
-/

namespace Gatekeeper

open Text

/-- The version of a library. -/
structure Version where
  /-- The release numbers, most significant first. -/
  release : List Nat
  /-- The pre-release tag in lower case. -/
  pre : Option (List Char)
  /-- The post-release number. -/
  post : Option Nat
  /-- The version as it was written. -/
  text : String
  deriving Repr

namespace Version

/-- Why a text is not a version. -/
inductive ParseError
  /-- There is nothing but blanks. -/
  | empty
  /-- The text does not start with a number. -/
  | noRelease (text : String)
  /-- A component of the release is not a number that fits 64 bits. -/
  | badComponent (text component : String)
  deriving DecidableEq, Repr

/-- The wording of a parse error. -/
def ParseError.message : ParseError → String
  | .empty => "version string is empty"
  | .noRelease text => "version '" ++ text ++ "' does not start with a numeric release"
  | .badComponent text component =>
    "version '" ++ text ++ "' has an invalid release component '" ++ component ++ "'"

/-- The characters that may stand between the parts of a version. -/
def isSeparator (c : Char) : Bool := c == '-' || c == '.' || c == '_'

/-- The ASCII letters. -/
def isLetter (c : Char) : Bool := c.isAlpha

/-- The words that announce a post-release. -/
def isPostMarker (w : List Char) : Bool :=
  w == "post".toList || w == "rev".toList || w == "r".toList

/-- The number after a post-release marker: the digits that follow its separators, or zero where
there are none or they do not fit 64 bits. -/
def postNumber (s : List Char) : Nat :=
  (digits64? ((s.dropWhile isSeparator).takeWhile isDigit)).getD 0

/-- Splits a lower-case tag at the first maximal run of letters that is a post-release marker.
`before` is what stands before `s`, in reverse. -/
def splitPostFrom (before : List Char) : List Char → List Char × Option Nat
  | [] => (before.reverse, none)
  | c :: r =>
    if isLetter c then
      let run := c :: r.takeWhile isLetter
      let rest := r.dropWhile isLetter
      if isPostMarker run then (dropEndWhile isSeparator before.reverse, some (postNumber rest))
      else splitPostFrom (run.reverse ++ before) rest
    else splitPostFrom (c :: before) r
  termination_by s => s.length
  decreasing_by
    · have := (List.dropWhile_sublist isLetter (l := r)).length_le
      simp only [List.length_cons]
      omega
    · simp

/-- The pre-release part of a lower-case tag and its post-release number. -/
def splitPost (tag : List Char) : List Char × Option Nat := splitPostFrom [] tag

/-- Whether a character may stand in a release. -/
def isReleaseChar (c : Char) : Bool := isDigit c || c == '.'

/-- A text without one leading `v` or `V`. -/
def dropMark : List Char → List Char
  | 'v' :: s => s
  | 'V' :: s => s
  | s => s

/-- The value of each component of a release, or the first component that has none. -/
def readRelease : List (List Char) → Except (List Char) (List Nat)
  | [] => .ok []
  | c :: cs =>
    match digits64? c with
    | none => .error c
    | some n => (readRelease cs).map (n :: ·)

/-- The number of an implicit post-release: `1.0-1` is `1.0.post1`. -/
def implicitPost? : List Char → Option Nat
  | '-' :: s => readNat64? s
  | _ => none

/-- The pre-release tag and the post-release number in what follows a release. -/
def readTag (s : List Char) : Option (List Char) × Option Nat :=
  match implicitPost? s with
  | some n => (none, some n)
  | none =>
    let (pre, post) := splitPost ((s.dropWhile isSeparator).map Char.toLower)
    (if pre.isEmpty then none else some pre, post)

/-- What is left of a trimmed text without its mark and its local part. -/
def publicPart (s : List Char) : List Char := (dropMark s).takeWhile (· != '+')

/-- The release at the start of a public part, without trailing dots. -/
def releasePart (s : List Char) : List Char := dropEndWhile (· == '.') (s.takeWhile isReleaseChar)

/-- Reads a version. -/
def parse (raw : String) : Except ParseError Version :=
  let trimmed := trim raw.toList
  let text := String.ofList trimmed
  if trimmed.isEmpty then .error .empty
  else
    let s := publicPart trimmed
    let release := releasePart s
    if release.isEmpty then .error (.noRelease text)
    else
      match readRelease (release.splitOn '.') with
      | .error component => .error (.badComponent text (String.ofList component))
      | .ok numbers =>
        let (pre, post) := readTag (s.dropWhile isReleaseChar)
        .ok { release := numbers, pre, post, text }

/-- The version with the given release numbers and no other part. -/
def ofRelease (numbers : List Nat) : Version where
  release := numbers
  pre := none
  post := none
  text := String.ofList (['.'].intercalate (numbers.map writeNat))

end Version

end Gatekeeper
