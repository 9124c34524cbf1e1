set_option autoImplicit false

/-!
# Blank characters

The characters that count as white space everywhere in this library (the Unicode property
`White_Space`), and the operations on text that depend on them: trimming, splitting into words,
and the last line that is not blank.
-/

namespace Gatekeeper.Text

/-- The Unicode property `White_Space`. Control characters 28 to 31, the zero width space and the
byte order mark do not have it. -/
def isBlank (c : Char) : Bool :=
  let n := c.toNat
  (9 ≤ n && n ≤ 13) || n == 0x20 || n == 0x85 || n == 0xA0 || n == 0x1680
    || (0x2000 ≤ n && n ≤ 0x200A) || n == 0x2028 || n == 0x2029 || n == 0x202F
    || n == 0x205F || n == 0x3000

/-- `s` without its longest ending whose characters all satisfy `p`. -/
def dropEndWhile (p : Char → Bool) (s : List Char) : List Char :=
  (s.reverse.dropWhile p).reverse

/-- `s` without leading blanks. -/
def trimStart (s : List Char) : List Char := s.dropWhile isBlank

/-- `s` without trailing blanks. -/
def trimEnd (s : List Char) : List Char := dropEndWhile isBlank s

/-- `s` without leading and trailing blanks. -/
def trim (s : List Char) : List Char := trimEnd (trimStart s)

/-- The maximal runs of characters that are not blank. -/
def words (s : List Char) : List (List Char) :=
  (s.splitOnP isBlank).filter (!·.isEmpty)

/-- The last line that is not blank, trimmed. -/
def lastLine? (s : List Char) : Option (List Char) :=
  ((s.splitOn '\n').map trim).reverse.find? (!·.isEmpty)

end Gatekeeper.Text
