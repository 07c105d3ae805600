/-!
# ClassLayout.Toml.Quoted

Strings of TOML, in their four spellings: on one line or on several, with escapes or literally.

* Control characters other than the tab do not occur, but a string on several lines has line breaks. A
  carriage return stands only before a line feed.
* A line break right after the opening marks does not count.
* The marks that close a string on several lines may have up to two marks of the content before them.
* A backslash at the end of a line takes away the line break and all white space up to the next
  character.
-/

namespace ClassLayout.Toml.Quoted

/-- What a string scan has read, and what follows it. -/
abbrev Scan := Option (List Char × List Char)

/-- A character that may stand in a string or a comment as it is. -/
def isPlain (c : Char) : Bool :=
  c == '\t' || (0x20 ≤ c.toNat && c.toNat ≠ 0x7f)

/-- The scan with one more character in front. -/
def push (c : Char) (scan : Scan) : Scan :=
  scan.map fun (content, rest) => (c :: content, rest)

/-! ## Escapes -/

/-- The value of a hexadecimal digit. -/
def hexValue? (c : Char) : Option Nat :=
  if c.isDigit then some (c.toNat - 48)
  else if 'a' ≤ c && c ≤ 'f' then some (c.toNat - 87)
  else if 'A' ≤ c && c ≤ 'F' then some (c.toNat - 55)
  else none

/-- The character with the code point that the hexadecimal digits write. -/
def codePoint? (digits : List Char) : Option Char := do
  let values ← digits.mapM hexValue?
  let code := values.foldl (fun code value => 16 * code + value) 0
  if code.isValidChar then some (Char.ofNat code) else none

/-- The character that follows a backslash, and what follows the escape. -/
def escape? : List Char → Option (Char × List Char)
  | 'b' :: rest => some ('\x08', rest)
  | 't' :: rest => some ('\t', rest)
  | 'n' :: rest => some ('\n', rest)
  | 'f' :: rest => some ('\x0c', rest)
  | 'r' :: rest => some ('\r', rest)
  | 'e' :: rest => some ('\x1b', rest)
  | '"' :: rest => some ('"', rest)
  | '\\' :: rest => some ('\\', rest)
  | 'x' :: a :: b :: rest => (codePoint? [a, b]).map (·, rest)
  | 'u' :: a :: b :: c :: d :: rest => (codePoint? [a, b, c, d]).map (·, rest)
  | 'U' :: a :: b :: c :: d :: e :: f :: g :: h :: rest =>
    (codePoint? [a, b, c, d, e, f, g, h]).map (·, rest)
  | _ => none

theorem length_escape? {input rest : List Char} {c : Char} (h : escape? input = some (c, rest)) :
    rest.length < input.length := by
  unfold escape? at h
  split at h <;> simp at h <;> simp only [List.length_cons] <;> grind

/-- Step over white space and line breaks. -/
def skipGap : List Char → List Char
  | ' ' :: rest | '\t' :: rest | '\n' :: rest | '\r' :: '\n' :: rest => skipGap rest
  | rest => rest

theorem length_skipGap (input : List Char) : (skipGap input).length ≤ input.length := by
  fun_induction skipGap input <;> simp <;> omega

/-- Step over the end of a line and the gap after it, if only white space stands before the end. -/
def lineEnding? : List Char → Option (List Char)
  | ' ' :: rest | '\t' :: rest => lineEnding? rest
  | '\n' :: rest | '\r' :: '\n' :: rest => some (skipGap rest)
  | _ => none

theorem length_lineEnding? {input rest : List Char} (h : lineEnding? input = some rest) :
    rest.length ≤ input.length := by
  fun_induction lineEnding? input <;> simp_all
  · omega
  · omega
  · next tail => have := length_skipGap tail; subst h; omega
  · next tail => have := length_skipGap tail; subst h; omega

/-! ## On one line -/

/-- Read a literal string up to its closing mark. -/
def literal : List Char → Scan
  | [] => none
  | c :: rest =>
    if c = '\'' then some ([], rest)
    else if isPlain c then push c (literal rest)
    else none

/-- Read a string with escapes up to its closing mark. -/
def basic (input : List Char) : Scan :=
  match input with
  | [] => none
  | c :: rest =>
    if c = '"' then some ([], rest)
    else if c = '\\' then
      match _h : escape? rest with
      | some (e, rest) => push e (basic rest)
      | none => none
    else if isPlain c then push c (basic rest)
    else none
termination_by input.length
decreasing_by
  · have := length_escape? _h
    simp
    omega
  · simp

/-! ## On several lines -/

/-- Read a literal string up to its closing marks. -/
def literalLines : List Char → Scan
  | '\'' :: '\'' :: '\'' :: '\'' :: '\'' :: rest => some (['\'', '\''], rest)
  | '\'' :: '\'' :: '\'' :: '\'' :: rest => some (['\''], rest)
  | '\'' :: '\'' :: '\'' :: rest => some ([], rest)
  | '\r' :: '\n' :: rest => push '\n' (literalLines rest)
  | '\n' :: rest => push '\n' (literalLines rest)
  | c :: rest => if isPlain c then push c (literalLines rest) else none
  | [] => none

/-- Read a string with escapes up to its closing marks. -/
def basicLines (input : List Char) : Scan :=
  match input with
  | '"' :: '"' :: '"' :: '"' :: '"' :: rest => some (['"', '"'], rest)
  | '"' :: '"' :: '"' :: '"' :: rest => some (['"'], rest)
  | '"' :: '"' :: '"' :: rest => some ([], rest)
  | '\r' :: '\n' :: rest => push '\n' (basicLines rest)
  | '\n' :: rest => push '\n' (basicLines rest)
  | '\\' :: rest =>
    match _h : lineEnding? rest with
    | some rest => basicLines rest
    | none =>
      match _h' : escape? rest with
      | some (e, rest) => push e (basicLines rest)
      | none => none
  | c :: rest => if isPlain c then push c (basicLines rest) else none
  | [] => none
termination_by input.length
decreasing_by
  · simp only [List.length_cons]; omega
  · simp
  · have := length_lineEnding? _h
    simp only [List.length_cons]; omega
  · have := length_escape? _h'
    simp only [List.length_cons]; omega
  · simp

/-- The text without a line break at its start. -/
def dropLineBreak : List Char → List Char
  | '\n' :: rest | '\r' :: '\n' :: rest => rest
  | rest => rest

/-! ## Nothing is read twice -/

theorem push_eq_some {c : Char} {scan : Scan} {content rest : List Char}
    (h : push c scan = some (content, rest)) : ∃ tail, scan = some (tail, rest) := by
  cases scan with
  | none => simp [push] at h
  | some read =>
    simp only [push, Option.map_some, Option.some.injEq, Prod.mk.injEq] at h
    exact ⟨read.1, by simp [← h.2]⟩

theorem length_literal {input content rest : List Char} (h : literal input = some (content, rest)) :
    rest.length ≤ input.length := by
  fun_induction literal input generalizing content with
  | case1 => simp at h
  | case2 => simp_all
  | case3 c tail _ _ ih =>
    obtain ⟨_, h⟩ := push_eq_some h
    have := ih h
    simp only [List.length_cons]; omega
  | case4 => simp at h

theorem length_basic {input content rest : List Char} (h : basic input = some (content, rest)) :
    rest.length ≤ input.length := by
  fun_induction basic input generalizing content with
  | case1 => simp at h
  | case2 => simp_all
  | case3 tail e after he _ ih =>
    obtain ⟨_, h⟩ := push_eq_some h
    have := ih h
    have := length_escape? he
    simp only [List.length_cons]; omega
  | case4 => simp at h
  | case5 c tail _ _ _ ih =>
    obtain ⟨_, h⟩ := push_eq_some h
    have := ih h
    simp only [List.length_cons]; omega
  | case6 => simp at h

theorem length_literalLines {input content rest : List Char}
    (h : literalLines input = some (content, rest)) : rest.length ≤ input.length := by
  fun_induction literalLines input generalizing content with
  | case1 | case2 | case3 => simp_all; omega
  | case4 tail ih | case5 tail ih =>
    obtain ⟨_, h⟩ := push_eq_some h
    have := ih h
    simp only [List.length_cons]; omega
  | case6 c tail _ _ _ _ _ _ ih =>
    obtain ⟨_, h⟩ := push_eq_some h
    have := ih h
    simp only [List.length_cons]; omega
  | case7 | case8 => simp at h

theorem length_basicLines {input content rest : List Char}
    (h : basicLines input = some (content, rest)) : rest.length ≤ input.length := by
  fun_induction basicLines input generalizing content with
  | case1 | case2 | case3 => simp_all; omega
  | case4 tail ih | case5 tail ih =>
    obtain ⟨_, h⟩ := push_eq_some h
    have := ih h
    simp only [List.length_cons]; omega
  | case6 tail after he ih =>
    have := ih h
    have := length_lineEnding? he
    simp only [List.length_cons]; omega
  | case7 tail _ e after he ih =>
    obtain ⟨_, h⟩ := push_eq_some h
    have := ih h
    have := length_escape? he
    simp only [List.length_cons]; omega
  | case8 => simp at h
  | case9 c tail _ _ _ _ _ _ _ ih =>
    obtain ⟨_, h⟩ := push_eq_some h
    have := ih h
    simp only [List.length_cons]; omega
  | case10 | case11 => simp at h

theorem length_dropLineBreak (input : List Char) : (dropLineBreak input).length ≤ input.length := by
  unfold dropLineBreak
  split
  · simp
  · simp only [List.length_cons]
    omega
  · exact Nat.le_refl _

end ClassLayout.Toml.Quoted
