import ClassLayout.Json.Fault
import ClassLayout.Json.Numeral

/-!
# ClassLayout.Json.Token

The tokens of a JSON text: brackets, separators, words, numbers and strings. White space between them
is the space, the tab and the two line breaks.

The list of tokens ends where the text ends or where it stops being made of tokens; in the second case
the last token is a broken one that says what is wrong there.
-/

namespace ClassLayout.Json

/-- A token. The last one of a text may be broken. -/
inductive Token where
  | openArray
  | closeArray
  | openObject
  | closeObject
  | comma
  | colon
  | null
  | bool (b : Bool)
  | number (n : Numeral)
  /-- A string, or the fault of one whose escapes do not pair up. -/
  | text (content : Except Fault String)
  /-- A string that does not end properly, as it looks to one who wants it and to one who steps over
  it. -/
  | brokenText (value skip : Fault)
  /-- Anything else that is no token. -/
  | broken (breakage : Breakage)

namespace Token

/-- White space between tokens. -/
def isBlank (c : Char) : Bool :=
  c == ' ' || c == '\n' || c == '\t' || c == '\r'

/-! ## Strings -/

/-- A piece of a string: a character, or an escaped code unit, of which two may make a character. -/
inductive Piece where
  | char (c : Char)
  | codeUnit (unit : Nat)
  deriving DecidableEq, Repr

/-- The pieces of a string up to its closing mark, and the text after it; or the pieces up to a fault. -/
structure TextScan where
  pieces : List Piece
  rest : Except Fault (List Char)

/-- The scan with one more piece in front. -/
def TextScan.push (piece : Piece) (scan : TextScan) : TextScan :=
  { scan with pieces := piece :: scan.pieces }

/-- The character that a backslash and the given one stand for. -/
def simpleEscape? (c : Char) : Option Char :=
  match c with
  | '"' => some '"'
  | '\\' => some '\\'
  | '/' => some '/'
  | 'b' => some '\x08'
  | 'f' => some '\x0c'
  | 'n' => some '\n'
  | 'r' => some '\r'
  | 't' => some '\t'
  | _ => none

/-- The value of a hexadecimal digit. -/
def hexValue? (c : Char) : Option Nat :=
  let n := c.toNat
  if 48 ≤ n && n ≤ 57 then some (n - 48)
  else if 97 ≤ n && n ≤ 102 then some (n - 87)
  else if 65 ≤ n && n ≤ 70 then some (n - 55)
  else none

/-- The code unit that four hexadecimal digits write. -/
def codeUnit? (a b c d : Char) : Option Nat := do
  let a ← hexValue? a
  let b ← hexValue? b
  let c ← hexValue? c
  let d ← hexValue? d
  return ((a * 16 + b) * 16 + c) * 16 + d

/-- The first code unit of a pair. -/
def isLeading (unit : Nat) : Bool :=
  0xd800 ≤ unit && unit ≤ 0xdbff

/-- The second code unit of a pair. -/
def isTrailing (unit : Nat) : Bool :=
  0xdc00 ≤ unit && unit ≤ 0xdfff

/-- The character that a pair of code units writes. -/
def pairChar (leading trailing : Nat) : Char :=
  Char.ofNat (0x10000 + (leading - 0xd800) * 0x400 + (trailing - 0xdc00))

/-- The number of bytes of a text. -/
def byteCount (input : List Char) : Nat :=
  input.foldl (fun count c => count + c.utf8Size) 0

/-- The fault of an escape whose digits are cut short: the text has ended if it has no four bytes
left. -/
def shortEscape (rest : List Char) : Fault :=
  if byteCount rest < 4 then .unfinished else .malformed

/-- Read a string whose opening mark is behind. -/
def scanText : List Char → TextScan
  | [] => { pieces := [], rest := .error .unfinished }
  | ['\\'] => { pieces := [], rest := .error .unfinished }
  | '\\' :: 'u' :: a :: b :: c :: d :: input =>
    match codeUnit? a b c d with
    | some unit => (scanText input).push (.codeUnit unit)
    | none => { pieces := [], rest := .error .malformed }
  | '\\' :: 'u' :: input => { pieces := [], rest := .error (shortEscape input) }
  | '\\' :: c :: input =>
    match simpleEscape? c with
    | some e => (scanText input).push (.char e)
    | none => { pieces := [], rest := .error .malformed }
  | c :: input =>
    if c = '"' then { pieces := [], rest := .ok input }
    else if c.toNat < 0x20 then { pieces := [], rest := .error .malformed }
    else (scanText input).push (.char c)

/-- The characters of a string, if its code units pair up. `ending` is the fault after the pieces, if
there is one. -/
def join (ending : Option Fault) : List Piece → Except Fault (List Char)
  | [] =>
    match ending with
    | some fault => .error fault
    | none => .ok []
  | .char c :: pieces => (join ending pieces).map (c :: ·)
  | [.codeUnit unit] =>
    if isLeading unit then .error (ending.getD .malformed)
    else if isTrailing unit then .error .malformed
    else (join ending []).map (Char.ofNat unit :: ·)
  | .codeUnit unit :: .codeUnit second :: pieces =>
    if isLeading unit then
      if isTrailing second then (join ending pieces).map (pairChar unit second :: ·)
      else .error .malformed
    else if isTrailing unit then .error .malformed
    else (join ending (.codeUnit second :: pieces)).map (Char.ofNat unit :: ·)
  | .codeUnit unit :: .char c :: pieces =>
    if isLeading unit || isTrailing unit then .error .malformed
    else (join ending (.char c :: pieces)).map (Char.ofNat unit :: ·)

/-- The token of a string, and the text after it. -/
def ofTextScan (scan : TextScan) : Token × List Char :=
  match scan.rest with
  | .ok rest => (.text ((join none scan.pieces).map String.ofList), rest)
  | .error skip =>
    match join (some skip) scan.pieces with
    | .error value => (.brokenText value skip, [])
    | .ok _ => (.brokenText skip skip, [])

/-! ## Words -/

/-- Read the rest of a word. -/
def scanWord : List Char → List Char → Except Fault (List Char)
  | [], input => .ok input
  | _ :: _, [] => .error .unfinished
  | e :: expected, c :: input => if c = e then scanWord expected input else .error .malformed

/-- The token of a word whose first letter is behind, and the text after it. A variant's name does not
start like a word. -/
def ofWord (token : Token) (expected input : List Char) : Token × List Char :=
  match scanWord expected input with
  | .ok rest => (token, rest)
  | .error fault => (.broken { value := fault, skip := fault, variant := .malformed }, [])

/-! ## Numbers -/

/-- A number that is cut short is unfinished only to one who wants it. -/
def brokenNumber (rest : List Char) : Token × List Char :=
  let value := if rest.isEmpty then Fault.unfinished else .malformed
  (.broken { value, skip := .malformed, variant := .malformed }, [])

/-- Read the digits of an exponent. -/
def scanExponentDigits (negative : Bool) (whole fraction : List Char) (minus : Bool)
    (input : List Char) : Token × List Char :=
  let digits := input.takeWhile Char.isDigit
  let rest := input.dropWhile Char.isDigit
  if digits.isEmpty then brokenNumber rest
  else
    let size : Int := Decimal.ofDigits digits
    let exponent := if minus then -size else size
    (.number { negative, whole, fraction, exponent, isInteger := false }, rest)

/-- Read the exponent of a number, if there is one. -/
def scanExponent (negative : Bool) (whole fraction : List Char) (isInteger : Bool) (input : List Char) :
    Token × List Char :=
  let number : Token := .number { negative, whole, fraction, exponent := 0, isInteger }
  match input with
  | [] => (number, [])
  | c :: rest =>
    if c = 'e' || c = 'E' then
      match rest with
      | '+' :: rest => scanExponentDigits negative whole fraction false rest
      | '-' :: rest => scanExponentDigits negative whole fraction true rest
      | rest => scanExponentDigits negative whole fraction false rest
    else (number, c :: rest)

/-- Read the fraction of a number, if there is one, and its exponent. -/
def scanFraction (negative : Bool) (whole : List Char) (input : List Char) : Token × List Char :=
  match input with
  | '.' :: rest =>
    let fraction := rest.takeWhile Char.isDigit
    let rest := rest.dropWhile Char.isDigit
    if fraction.isEmpty then brokenNumber rest
    else scanExponent negative whole fraction false rest
  | input => scanExponent negative whole [] true input

/-- Read a number whose sign is behind. A zero in front stands alone. -/
def scanNumber (negative : Bool) (input : List Char) : Token × List Char :=
  let whole := input.takeWhile Char.isDigit
  let rest := input.dropWhile Char.isDigit
  match whole with
  | [] => brokenNumber rest
  | '0' :: _ :: _ => (.broken (.all .malformed), [])
  | whole => scanFraction negative whole rest

/-! ## Tokens -/

/-- The token that starts with the given character, and the text after it. -/
def scan (c : Char) (rest : List Char) : Token × List Char :=
  match c with
  | '[' => (.openArray, rest)
  | ']' => (.closeArray, rest)
  | '{' => (.openObject, rest)
  | '}' => (.closeObject, rest)
  | ',' => (.comma, rest)
  | ':' => (.colon, rest)
  | '"' => ofTextScan (scanText rest)
  | 'n' => ofWord .null ['u', 'l', 'l'] rest
  | 't' => ofWord (.bool true) ['r', 'u', 'e'] rest
  | 'f' => ofWord (.bool false) ['a', 'l', 's', 'e'] rest
  | '-' => scanNumber true rest
  | c => if c.isDigit then scanNumber false (c :: rest) else (.broken (.all .malformed), [])

/-! ## Every token takes at least its first character -/

theorem length_scanText_rest (input : List Char) {rest : List Char}
    (h : (scanText input).rest = .ok rest) : rest.length ≤ input.length := by
  fun_induction scanText input <;> simp_all [TextScan.push] <;> omega

theorem length_ofTextScan (input : List Char) :
    (ofTextScan (scanText input)).2.length ≤ input.length := by
  unfold ofTextScan
  split
  · next rest h => exact length_scanText_rest input h
  · split <;> simp

theorem length_scanWord {expected input rest : List Char} (h : scanWord expected input = .ok rest) :
    rest.length ≤ input.length := by
  fun_induction scanWord expected input <;> simp_all
  omega

theorem length_ofWord (token : Token) (expected input : List Char) :
    (ofWord token expected input).2.length ≤ input.length := by
  unfold ofWord
  split
  · next rest h => exact length_scanWord h
  · simp

theorem length_dropWhile_le (p : Char → Bool) (input : List Char) :
    (input.dropWhile p).length ≤ input.length :=
  (List.dropWhile_sublist p).length_le

theorem length_scanExponentDigits (negative minus : Bool) (whole fraction input : List Char) :
    (scanExponentDigits negative whole fraction minus input).2.length ≤ input.length := by
  unfold scanExponentDigits
  dsimp only
  split
  · simp [brokenNumber]
  · exact length_dropWhile_le _ _

theorem length_scanExponent (negative isInteger : Bool) (whole fraction input : List Char) :
    (scanExponent negative whole fraction isInteger input).2.length ≤ input.length := by
  unfold scanExponent
  split
  · simp
  · split
    · split <;>
        exact Nat.le_trans (length_scanExponentDigits ..) (by simp only [List.length_cons]; omega)
    · simp

theorem length_scanFraction (negative : Bool) (whole input : List Char) :
    (scanFraction negative whole input).2.length ≤ input.length := by
  unfold scanFraction
  split
  · dsimp only
    split
    · simp [brokenNumber]
    · next rest _ =>
      have := length_dropWhile_le Char.isDigit rest
      exact Nat.le_trans (length_scanExponent ..) (by simp only [List.length_cons]; omega)
  · exact length_scanExponent ..

theorem length_scanNumber (negative : Bool) (input : List Char) :
    (scanNumber negative input).2.length ≤ (input.dropWhile Char.isDigit).length := by
  unfold scanNumber
  dsimp only
  split
  · simp [brokenNumber]
  · simp
  · exact length_scanFraction ..

theorem length_scan (c : Char) (rest : List Char) : (scan c rest).2.length ≤ rest.length := by
  unfold scan
  split
  all_goals first
    | exact Nat.le_refl _
    | exact length_ofTextScan rest
    | exact length_ofWord ..
    | exact Nat.le_trans (length_scanNumber ..) (length_dropWhile_le ..)
    | skip
  split
  · next h =>
    refine Nat.le_trans (length_scanNumber ..) ?_
    simp only [List.dropWhile_cons, h, if_true]
    exact length_dropWhile_le ..
  · simp

end Token

open Token in
/-- The tokens of a text. -/
def tokens (input : List Char) : List Token :=
  match input with
  | [] => []
  | c :: rest =>
    if isBlank c then tokens rest
    else (scan c rest).1 :: tokens (scan c rest).2
termination_by input.length
decreasing_by
  · simp
  · have := length_scan c rest
    simp only [List.length_cons]
    omega

end ClassLayout.Json
