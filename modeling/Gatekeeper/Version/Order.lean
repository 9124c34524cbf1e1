import Gatekeeper.Version.Basic

set_option autoImplicit false

/-!
# The order of versions

Releases compare number by number, a missing number counting as zero. Of two equal releases the
one with a pre-release tag comes first; two tags compare run by run, digits by value and before
anything else. What remains is decided by the post-release number, none coming first.
-/

namespace Gatekeeper.Version

open Text

/-- A run of a pre-release tag. Digits too large for 64 bits count as a word. -/
inductive Segment
  | number (n : Nat)
  | word (w : List Char)
  deriving DecidableEq, Repr

/-- The maximal runs of `s` that are all digits or free of digits. -/
def runs (s : List Char) : List (List Char) := s.splitBy fun a b => isDigit a == isDigit b

/-- The runs of a tag. No run goes across a separator. -/
def tagRuns (tag : List Char) : List (List Char) := (tag.splitOnP isSeparator).flatMap runs

/-- The segment that a run stands for. -/
def Segment.ofRun (run : List Char) : Segment :=
  match digits64? run with
  | some n => .number n
  | none => .word run

/-- The segments of a pre-release tag. -/
def segments (tag : List Char) : List Segment := (tagRuns tag).map Segment.ofRun

/-- Numbers by value, words character by character, and every number before every word. -/
def Segment.compare : Segment → Segment → Ordering
  | .number a, .number b => Ord.compare a b
  | .number _, .word _ => .lt
  | .word _, .number _ => .gt
  | .word a, .word b => List.compareLex Ord.compare a b

/-- The order of releases: as of two sequences that go on with zeros for ever. -/
def compareRelease : List Nat → List Nat → Ordering
  | [], [] => .eq
  | [], b :: bs => (Ord.compare 0 b).then (compareRelease [] bs)
  | a :: as, [] => (Ord.compare a 0).then (compareRelease as [])
  | a :: as, b :: bs => (Ord.compare a b).then (compareRelease as bs)

/-- The order of pre-release tags. A version without one comes last. -/
def comparePre : Option (List Char) → Option (List Char) → Ordering
  | none, none => .eq
  | none, some _ => .gt
  | some _, none => .lt
  | some a, some b => List.compareLex Segment.compare (segments a) (segments b)

/-- The order of post-release numbers. A version without one comes first. -/
def comparePost : Option Nat → Option Nat → Ordering
  | none, none => .eq
  | none, some _ => .lt
  | some _, none => .gt
  | some a, some b => Ord.compare a b

/-- The order of versions. -/
def compare (a b : Version) : Ordering :=
  (compareRelease a.release b.release).then
    ((comparePre a.pre b.pre).then (comparePost a.post b.post))

instance : Ord Version := ⟨compare⟩

/-- Whether two versions are equal in the order, however they are written. -/
def same (a b : Version) : Bool := compare a b == .eq

/-- Whether a version is at least the given minimum. -/
def satisfies (v minimum : Version) : Bool := compare v minimum != .lt

end Gatekeeper.Version
