import Gatekeeper.Text.Offset
import Gatekeeper.Version.Order

set_option autoImplicit false

/-!
# Versions by bytes

How versions are read and compared in one go over the bytes of a text, without taking it apart
first. Where a release ends, where the word stands that announces a post-release, and where the runs
of a tag begin and end are offsets, found by looking at single bytes, at which the text is then cut.
-/

namespace Gatekeeper.Version.Bytes

open Text

/-- The number of bytes at the start of a text whose characters are of a kind. -/
def lead (p : Char → Bool) (s : List Char) : Nat := byteLength (s.takeWhile p)

/-- A turn of the search for the word in a tag that announces a post-release. A byte that is no
letter is passed over, and so is a run of letters that is another word. -/
def markerTurn (tag : List Char) (start : Nat) :
    Scan (Scan.Turn Nat (List Char × Option Nat)) := do
  if start < byteLength tag then
    let first ← Scan.byte tag start
    if isLetterByte first then
      let stop ← Scan.findByte (!isLetterByte ·) tag start
      let run ← Scan.slice tag start stop
      if isPostMarker run then
        let before ← Scan.slice tag 0 start
        let behind ← Scan.slice tag stop (byteLength tag)
        let rest := behind.dropWhile isSeparator
        let digits ← Scan.slice rest 0 (lead isDigit rest)
        return .done (dropEndWhile isSeparator before, some ((readNat64? digits).getD 0))
      else return .goOn stop
    else return .goOn (start + 1)
  else return .done (tag, none)

/-- The pre-release part of a lower-case tag and its post-release number. -/
def splitPost (tag : List Char) : Scan (List Char × Option Nat) := Scan.loop (markerTurn tag) 0

/-- The segment of a run that begins with a digit, or with another character. -/
def segment (numeric : Bool) (run : List Char) : Segment :=
  match readNat64? run with
  | some n => if numeric then .number n else .word run
  | none => .word run

/-- A turn of the search for the runs of a piece of a tag, with the segments found so far. -/
def runTurn (piece : List Char) :
    Nat × List Segment → Scan (Scan.Turn (Nat × List Segment) (List Segment))
  | (start, found) => do
    if start < byteLength piece then
      let first ← Scan.byte piece start
      let numeric := isDigitByte first
      let stop ← Scan.findByte (isDigitByte · != numeric) piece start
      let run ← Scan.slice piece start stop
      return .goOn (stop, found ++ [segment numeric run])
    else return .done found

/-- The segments of a piece of a tag, behind those found before. -/
def pieceSegments (found : List Segment) (piece : List Char) : Scan (List Segment) :=
  Scan.loop (runTurn piece) (0, found)

/-- The segments of a pre-release tag. -/
def segments (tag : List Char) : Scan (List Segment) :=
  ((tag.splitOnP isSeparator).filter (!·.isEmpty)).foldlM pieceSegments []

/-- The pre-release tag and the post-release number in what follows a release. -/
def readTag (s : List Char) : Scan (Option (List Char) × Option Nat) :=
  match implicitPost? s with
  | some n => return (none, some n)
  | none => do
    let (pre, post) ← splitPost ((s.dropWhile isSeparator).map Char.toLower)
    return (if pre.isEmpty then none else some pre, post)

/-- Reads a version. -/
def parse (raw : String) : Scan (Except ParseError Version) := do
  let trimmed := trim raw.toList
  let text := String.ofList trimmed
  if trimmed.isEmpty then return .error .empty
  else
    let s := publicPart trimmed
    let stop := lead isReleaseChar s
    let front ← Scan.slice s 0 stop
    let rest ← Scan.slice s stop (byteLength s)
    let release := dropEndWhile (· == '.') front
    if release.isEmpty then return .error (.noRelease text)
    else
      match readRelease (release.splitOn '.') with
      | .error component => return .error (.badComponent text (String.ofList component))
      | .ok numbers =>
        let (pre, post) ← readTag rest
        return .ok { release := numbers, pre, post, text }

/-- The order of pre-release tags. -/
def comparePre : Option (List Char) → Option (List Char) → Scan Ordering
  | some a, some b => do
    let first ← segments a
    let second ← segments b
    return List.compareLex Segment.compare first second
  | some _, none => return .lt
  | none, some _ => return .gt
  | none, none => return .eq

/-- The order of versions. The tags are looked at only if the releases are equal. -/
def compare (a b : Version) : Scan Ordering :=
  match compareRelease a.release b.release with
  | .eq => do
    let pre ← comparePre a.pre b.pre
    return pre.then (comparePost a.post b.post)
  | decided => return decided

end Gatekeeper.Version.Bytes
