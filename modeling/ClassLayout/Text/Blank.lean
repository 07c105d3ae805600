/-!
# ClassLayout.Text.Blank

White space in source text, as the Unicode property `White_Space` has it: tabs and line breaks, the
plain and the no-break space, and the spaces of the general punctuation block. A zero-width space
and a byte order mark are no white space.

Text is a list of characters here, so that trimming and splitting are plain list recursion.
-/

namespace ClassLayout.Text

/-- The code points with the property `White_Space`, as ranges with both ends included. -/
def blankRanges : List (Nat × Nat) :=
  [(0x09, 0x0d), (0x20, 0x20), (0x85, 0x85), (0xa0, 0xa0), (0x1680, 0x1680), (0x2000, 0x200a),
   (0x2028, 0x2029), (0x202f, 0x202f), (0x205f, 0x205f), (0x3000, 0x3000)]

/-- Whether a character is white space. -/
def isBlank (c : Char) : Bool :=
  blankRanges.any fun range => range.1 ≤ c.toNat && c.toNat ≤ range.2

/-- The text without the white space at its end. -/
def trimEnd (text : List Char) : List Char :=
  (text.reverse.dropWhile isBlank).reverse

/-- Whether the text ends with the given characters. -/
def endsWith (text ending : List Char) : Bool :=
  ending.isSuffixOf text

/-- Put a word in front of others, unless it is empty. -/
def consWord (word : List Char) (others : List (List Char)) : List (List Char) :=
  if word.isEmpty then others else word :: others

/-- The characters up to the first white space, and the words after it. -/
def firstWord : List Char → List Char × List (List Char)
  | [] => ([], [])
  | c :: rest =>
    let (word, others) := firstWord rest
    if isBlank c then ([], consWord word others) else (c :: word, others)

/-- The words of a text: its maximal runs of characters that are no white space. -/
def words (text : List Char) : List (List Char) :=
  let (word, others) := firstWord text
  consWord word others

/-- The part after the last dot; the whole text if there is none. -/
def afterLastDot (text : List Char) : List Char :=
  (text.reverse.takeWhile (· ≠ '.')).reverse

end ClassLayout.Text
