import ClassLayout.Toml.Quoted

/-!
# ClassLayout.Toml.Token

The tokens of a TOML text. Keys, numbers and dates are words and dots here: what they are shows only where
they stand. Comments run to the end of their line and leave no token behind.
-/

namespace ClassLayout.Toml

/-- A token. -/
inductive Token where
  | newLine
  /-- Spaces and tabs, and whether they are one single space. -/
  | blank (isSpace : Bool)
  | openBracket
  | closeBracket
  | openBrace
  | closeBrace
  | comma
  | dot
  | equals
  /-- A string, and whether its spelling is that for several lines. -/
  | text (content : List Char) (isLong : Bool)
  | word (chars : List Char)
  deriving DecidableEq, Repr

namespace Token

/-- A character of keys, numbers and dates. -/
def isWordChar (c : Char) : Bool :=
  c.isAlphanum || c == '_' || c == '-' || c == '+' || c == ':'

/-- White space within a line. -/
def isBlank (c : Char) : Bool :=
  c == ' ' || c == '\t'

/-- The token of a string. -/
def ofScan (isLong : Bool) (scan : Quoted.Scan) : Option (Token × List Char) :=
  scan.map fun (content, rest) => (.text content isLong, rest)

/-- A string with escapes whose first mark is behind. -/
def basic? : List Char → Option (Token × List Char)
  | '"' :: '"' :: rest => ofScan true (Quoted.basicLines (Quoted.dropLineBreak rest))
  | rest => ofScan false (Quoted.basic rest)

/-- A literal string whose first mark is behind. -/
def literal? : List Char → Option (Token × List Char)
  | '\'' :: '\'' :: rest => ofScan true (Quoted.literalLines (Quoted.dropLineBreak rest))
  | rest => ofScan false (Quoted.literal rest)

/-- The token that starts with the given character, and the text after it. -/
def scan? (c : Char) (rest : List Char) : Option (Token × List Char) :=
  match c with
  | '\n' => some (.newLine, rest)
  | '\r' => if rest.head? = some '\n' then some (.newLine, rest.tail) else none
  | '[' => some (.openBracket, rest)
  | ']' => some (.closeBracket, rest)
  | '{' => some (.openBrace, rest)
  | '}' => some (.closeBrace, rest)
  | ',' => some (.comma, rest)
  | '.' => some (.dot, rest)
  | '=' => some (.equals, rest)
  | '"' => basic? rest
  | '\'' => literal? rest
  | c =>
    if isBlank c then
      some (.blank (c == ' ' && !(rest.head?.any isBlank)), rest.dropWhile isBlank)
    else if isWordChar c then some (.word (c :: rest.takeWhile isWordChar), rest.dropWhile isWordChar)
    else none

/-! ## Every token takes at least its first character -/

theorem ofScan_eq_some {isLong : Bool} {scan : Quoted.Scan} {token : Token} {rest : List Char}
    (h : ofScan isLong scan = some (token, rest)) : ∃ content, scan = some (content, rest) := by
  cases scan with
  | none => simp [ofScan] at h
  | some read =>
    simp only [ofScan, Option.map_some, Option.some.injEq, Prod.mk.injEq] at h
    exact ⟨read.1, by simp [← h.2]⟩

theorem length_basic? {input rest : List Char} {token : Token}
    (h : basic? input = some (token, rest)) : rest.length ≤ input.length := by
  unfold basic? at h
  split at h
  · next tail =>
    obtain ⟨_, h⟩ := ofScan_eq_some h
    have := Quoted.length_basicLines h
    have := Quoted.length_dropLineBreak tail
    simp only [List.length_cons]; omega
  · obtain ⟨_, h⟩ := ofScan_eq_some h
    exact Quoted.length_basic h

theorem length_literal? {input rest : List Char} {token : Token}
    (h : literal? input = some (token, rest)) : rest.length ≤ input.length := by
  unfold literal? at h
  split at h
  · next tail =>
    obtain ⟨_, h⟩ := ofScan_eq_some h
    have := Quoted.length_literalLines h
    have := Quoted.length_dropLineBreak tail
    simp only [List.length_cons]; omega
  · obtain ⟨_, h⟩ := ofScan_eq_some h
    exact Quoted.length_literal h

theorem length_scan? {c : Char} {input rest : List Char} {token : Token}
    (h : scan? c input = some (token, rest)) : rest.length ≤ input.length := by
  have dropWhile_le (p : Char → Bool) : (input.dropWhile p).length ≤ input.length :=
    (List.dropWhile_sublist p).length_le
  unfold scan? at h
  split at h
  case h_10 => exact length_basic? h
  case h_11 => exact length_literal? h
  case h_12 =>
    split at h
    · simp only [Option.some.injEq, Prod.mk.injEq] at h
      exact h.2 ▸ dropWhile_le _
    · split at h
      · simp only [Option.some.injEq, Prod.mk.injEq] at h
        exact h.2 ▸ dropWhile_le _
      · simp at h
  case h_2 =>
    split at h
    · simp only [Option.some.injEq, Prod.mk.injEq] at h
      simp [← h.2]
    · simp at h
  all_goals
    simp only [Option.some.injEq, Prod.mk.injEq] at h
    simp [h.2]

end Token

open Token in
/-- The tokens of a text, if it is made of tokens. -/
def tokens? (input : List Char) : Option (List Token) :=
  match input with
  | [] => some []
  | '#' :: rest => tokens? (rest.dropWhile Quoted.isPlain)
  | c :: rest =>
    match _h : scan? c rest with
    | none => none
    | some (token, rest) => (tokens? rest).map (token :: ·)
termination_by input.length
decreasing_by
  · have := (List.dropWhile_sublist Quoted.isPlain (l := rest)).length_le
    simp only [List.length_cons]; omega
  · have := length_scan? _h
    simp only [List.length_cons]; omega

end ClassLayout.Toml
