/-!
Blank characters, and how a text is cut into words and into lines. A word is a maximal run of
characters that are not blank. A line ends at a line feed, or at a carriage return and a line feed; the
text after the last line feed is a line only if it is not empty.
-/

namespace Datagram.Text

/-- Membership in one of some ranges of code points; both ends belong to a range. -/
def within (ranges : List (Nat × Nat)) (c : Char) : Bool :=
  ranges.any fun (first, last) => first ≤ c.toNat && c.toNat ≤ last

theorem within_iff (ranges : List (Nat × Nat)) (c : Char) :
    within ranges c = true ↔ ∃ r ∈ ranges, r.1 ≤ c.toNat ∧ c.toNat ≤ r.2 := by
  simp [within]

/-! ### Words -/

/-- The characters with the `White_Space` property. -/
def blankRanges : List (Nat × Nat) :=
  [(0x9, 0xD), (0x20, 0x20), (0x85, 0x85), (0xA0, 0xA0), (0x1680, 0x1680), (0x2000, 0x200A),
   (0x2028, 0x2029), (0x202F, 0x202F), (0x205F, 0x205F), (0x3000, 0x3000)]

def isBlank (c : Char) : Bool := within blankRanges c

def trimStart (s : List Char) : List Char := s.dropWhile isBlank

def trimEnd (s : List Char) : List Char := (s.reverse.dropWhile isBlank).reverse

def trim (s : List Char) : List Char := trimEnd (trimStart s)

def words (s : List Char) : List (List Char) := (s.splitOnP isBlank).filter (!·.isEmpty)

/-- The words of a text with one space between them. -/
def collapse (s : List Char) : List Char := List.intercalate [' '] (words s)

/-! ### Lines -/

/-- A line without the carriage return before its line feed. -/
def dropReturn (line : List Char) : List Char :=
  if line.getLast? = some '\r' then line.dropLast else line

def lines (s : List Char) : List (List Char) :=
  let pieces := s.splitOn '\n'
  pieces.dropLast.map dropReturn ++ [pieces.getLastD []].filter (!·.isEmpty)

end Datagram.Text
