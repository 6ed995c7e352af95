/-!
White space in the sense of the Unicode property `White_Space`: the class, trimming, and splitting
into words.
-/
namespace OpenCaptions.Text

/-- The characters of the property `White_Space`. -/
def isBlank (c : Char) : Bool :=
  let n := c.toNat
  (9 ≤ n && n ≤ 13) || n == 0x20 || n == 0x85 || n == 0xa0 || n == 0x1680 ||
    (0x2000 ≤ n && n ≤ 0x200a) || n == 0x2028 || n == 0x2029 || n == 0x202f || n == 0x205f ||
    n == 0x3000

/-- Drops characters of a class from the end. -/
def dropWhileEnd (p : Char → Bool) (s : List Char) : List Char :=
  (s.reverse.dropWhile p).reverse

def trim (s : List Char) : List Char :=
  dropWhileEnd isBlank (s.dropWhile isBlank)

/-- The maximal runs without white space. -/
def words (s : List Char) : List (List Char) :=
  (s.splitOnP isBlank).filter (· ≠ [])

def isBlankText (s : List Char) : Bool := s.all isBlank

end OpenCaptions.Text
