/-!
# ClassLayout.Text.Split

A text divided at a character, and put together again.
-/

namespace ClassLayout.Text

/-- The pieces between the occurrences of a character; there is always one piece more than there are
occurrences. -/
def split (mark : Char) : List Char → List (List Char)
  | [] => [[]]
  | c :: rest =>
    if c = mark then [] :: split mark rest
    else
      match split mark rest with
      | [] => [[c]]
      | piece :: others => (c :: piece) :: others

/-- The pieces with a character between them. -/
def unite (mark : Char) : List (List Char) → List Char
  | [] => []
  | [piece] => piece
  | piece :: rest => piece ++ mark :: unite mark rest

end ClassLayout.Text
