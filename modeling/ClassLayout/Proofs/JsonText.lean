import ClassLayout.Json.Doc
import ClassLayout.Proofs.Numerals

/-!
# ClassLayout.Proofs.JsonText

A value that is written is read as it was.

1. `SpellsText` says how a string may be written between its quotation marks: with escapes or
   without. The pieces that are read make up the string again (`ofTextScan_of_spells`).
2. `Spells tokens input` says that a text is made of tokens, with white space between them or not.
   Such a text has these tokens (`tokens_of_spells`). Both ways of writing a value spell its tokens
   (`spells_compact`, `spells_indented`).
3. The machine puts the tokens of a value together to the document of the value (`run_tokens`),
   whatever arrays and objects are open around it.
-/

namespace ClassLayout.Json

open Token

/-! ## Strings -/

/-- The ways of writing a character of a string. -/
inductive SpellsChar : Char → List Char → Prop
  | plain {c : Char} (hquote : c ≠ '"') (hbackslash : c ≠ '\\') (hcontrol : ¬ c.toNat < 0x20) :
      SpellsChar c [c]
  | short {e c : Char} (h : simpleEscape? e = some c) : SpellsChar c ['\\', e]
  | codeUnit {a b c d : Char} {unit : Nat} (h : codeUnit? a b c d = some unit)
      (hleading : isLeading unit = false) (htrailing : isTrailing unit = false) :
      SpellsChar (Char.ofNat unit) ['\\', 'u', a, b, c, d]
  | pair {a b c d a' b' c' d' : Char} {leading trailing : Nat}
      (h : codeUnit? a b c d = some leading) (h' : codeUnit? a' b' c' d' = some trailing)
      (hleading : isLeading leading = true) (htrailing : isTrailing trailing = true) :
      SpellsChar (pairChar leading trailing) ['\\', 'u', a, b, c, d, '\\', 'u', a', b', c', d']

/-- The ways of writing a string, without its quotation marks. -/
inductive SpellsText : List Char → List Char → Prop
  | nil : SpellsText [] []
  | cons {c : Char} {s first rest : List Char} (hc : SpellsChar c first)
      (hrest : SpellsText s rest) : SpellsText (c :: s) (first ++ rest)

theorem scanText_short {e c : Char} (h : simpleEscape? e = some c) (input : List Char) :
    scanText ('\\' :: e :: input) = (scanText input).push (.char c) := by
  unfold simpleEscape? at h
  split at h
  case h_9 => contradiction
  all_goals
    cases h
    rfl

theorem join_codeUnit {unit : Nat} (hleading : isLeading unit = false)
    (htrailing : isTrailing unit = false) (pieces : List Piece) :
    join none (.codeUnit unit :: pieces) = (join none pieces).map (Char.ofNat unit :: ·) := by
  cases pieces with
  | nil => simp [join, hleading, htrailing]
  | cons piece pieces =>
      cases piece with
      | char c => simp [join, hleading, htrailing]
      | codeUnit second => simp [join, hleading, htrailing]

/-- A character is read as one or two pieces, which make it up again. -/
theorem SpellsChar.exists_pieces {c : Char} {text : List Char} (h : SpellsChar c text) :
    ∃ pieces, (∀ input, scanText (text ++ input) =
        { scanText input with pieces := pieces ++ (scanText input).pieces }) ∧
      ∀ more, join none (pieces ++ more) = (join none more).map (c :: ·) := by
  cases h with
  | plain hquote hbackslash hcontrol =>
      refine ⟨[.char c], fun input => ?_, fun more => ?_⟩
      · simp [scanText, hquote, hbackslash, hcontrol, TextScan.push]
      · rw [List.singleton_append, join]
  | short hescape =>
      refine ⟨[.char c], fun input => scanText_short hescape input, fun more => ?_⟩
      rw [List.singleton_append, join]
  | @codeUnit _ _ _ _ unit hunit hleading htrailing =>
      refine ⟨[.codeUnit unit], fun input => ?_, join_codeUnit hleading htrailing⟩
      simp [scanText, hunit, TextScan.push]
  | @pair _ _ _ _ _ _ _ _ leading trailing hfirst hsecond hleading htrailing =>
      refine ⟨[.codeUnit leading, .codeUnit trailing], fun input => ?_, fun more => ?_⟩
      · simp [scanText, hfirst, hsecond, TextScan.push]
      · simp [join, hleading, htrailing]

theorem SpellsText.exists_pieces {s body : List Char} (h : SpellsText s body) (rest : List Char) :
    ∃ pieces, scanText (body ++ '"' :: rest) = { pieces, rest := .ok rest } ∧
      join none pieces = .ok s := by
  induction h with
  | nil => exact ⟨[], by simp [scanText], rfl⟩
  | cons hc _ ih =>
      obtain ⟨first, hscan, hjoin⟩ := hc.exists_pieces
      obtain ⟨pieces, hrest, hs⟩ := ih
      refine ⟨first ++ pieces, ?_, ?_⟩
      · rw [List.append_assoc, hscan, hrest]
      · rw [hjoin, hs]
        rfl

/-- However a string is written, it is read as the string. -/
theorem ofTextScan_of_spells {s : String} {body : List Char} (h : SpellsText s.toList body)
    (rest : List Char) :
    ofTextScan (scanText (body ++ '"' :: rest)) = (.text (.ok s), rest) := by
  obtain ⟨pieces, hscan, hjoin⟩ := h.exists_pieces rest
  simp [ofTextScan, hscan, hjoin, Except.map, String.ofList_toList]

theorem codeUnit?_hexDigit {n : Nat} (h : n < 0x20) :
    codeUnit? '0' '0' (Value.hexDigit (n / 16)) (Value.hexDigit (n % 16)) = some n := by
  have hall : ∀ m < 0x20,
      codeUnit? '0' '0' (Value.hexDigit (m / 16)) (Value.hexDigit (m % 16)) = some m := by decide
  exact hall n h

/-- What is written for a character is one of the ways to write it. -/
theorem spellsChar_escapeChar (c : Char) : SpellsChar c (Value.escapeChar c) := by
  have hchar : ∀ n, c.toNat = n → c = Char.ofNat n := fun n hn => by rw [← hn, Char.ofNat_toNat]
  by_cases hquote : c = '"'
  · subst hquote
    exact .short rfl
  by_cases hbackslash : c = '\\'
  · subst hbackslash
    exact .short rfl
  by_cases hshort : c.toNat ∈ [0x08, 0x09, 0x0a, 0x0c, 0x0d]
  · -- the characters with an escape of one letter
    simp only [List.mem_cons, List.not_mem_nil, or_false] at hshort
    rcases hshort with h | h | h | h | h
    all_goals
      rw [hchar _ h]
      exact .short rfl
  · simp only [List.mem_cons, List.not_mem_nil, or_false, not_or] at hshort
    obtain ⟨hb, ht, hn, hf, hr⟩ := hshort
    by_cases hcontrol : c.toNat < 0x20
    · have hleading : isLeading c.toNat = false := by simp [isLeading]; omega
      have htrailing : isTrailing c.toNat = false := by simp [isTrailing]; omega
      have hspells := SpellsChar.codeUnit (codeUnit?_hexDigit hcontrol) hleading htrailing
      rw [Char.ofNat_toNat] at hspells
      simpa [Value.escapeChar, hquote, hbackslash, hb, ht, hn, hf, hr, hcontrol] using hspells
    · have hspells := SpellsChar.plain hquote hbackslash hcontrol
      simpa [Value.escapeChar, hquote, hbackslash, hb, ht, hn, hf, hr, hcontrol] using hspells

theorem spellsText_escape (s : List Char) : SpellsText s (s.flatMap Value.escapeChar) := by
  induction s with
  | nil => exact .nil
  | cons c s ih =>
      rw [List.flatMap_cons]
      exact .cons (spellsChar_escapeChar c) ih

/-! ## Tokens -/

/-- The text of a token other than a number. -/
inductive Lexeme : Token → List Char → Prop
  | openArray : Lexeme .openArray ['[']
  | closeArray : Lexeme .closeArray [']']
  | openObject : Lexeme .openObject ['{']
  | closeObject : Lexeme .closeObject ['}']
  | comma : Lexeme .comma [',']
  | colon : Lexeme .colon [':']
  | null : Lexeme .null ['n', 'u', 'l', 'l']
  | yes : Lexeme (.bool true) ['t', 'r', 'u', 'e']
  | no : Lexeme (.bool false) ['f', 'a', 'l', 's', 'e']
  | text {s : String} {body : List Char} (h : SpellsText s.toList body) :
      Lexeme (.text (.ok s)) ('"' :: body ++ ['"'])

/-- The text is made of the tokens, with white space anywhere between them. -/
inductive Spells : List Token → List Char → Prop
  | nil : Spells [] []
  | blank {c : Char} {tokens : List Token} {rest : List Char} (hc : isBlank c = true)
      (hrest : Spells tokens rest) : Spells tokens (c :: rest)
  | lexeme {token : Token} {lexeme : List Char} {tokens : List Token} {rest : List Char}
      (htoken : Lexeme token lexeme) (hrest : Spells tokens rest) :
      Spells (token :: tokens) (lexeme ++ rest)
  | number {tokens : List Token} {rest : List Char} (n : Int) (hends : EndsNumber rest)
      (hrest : Spells tokens rest) :
      Spells (.number (.ofInt n) :: tokens) (Value.digits n ++ rest)

theorem Lexeme.quote (s : String) : Lexeme (.text (.ok s)) (Value.quote s.toList) :=
  .text (spellsText_escape s.toList)

theorem tokens_of_scan {c : Char} {input rest : List Char} {token : Token}
    (hc : isBlank c = false) (hscan : scan c input = (token, rest)) :
    tokens (c :: input) = token :: tokens rest := by
  rw [tokens, hc, hscan]
  rfl

theorem tokens_lexeme {token : Token} {lexeme : List Char} (h : Lexeme token lexeme)
    (rest : List Char) : tokens (lexeme ++ rest) = token :: tokens rest := by
  cases h with
  | text hbody =>
      have hscan := ofTextScan_of_spells hbody rest
      simp only [List.cons_append, List.append_assoc, List.nil_append]
      exact tokens_of_scan rfl hscan
  | _ => exact tokens_of_scan rfl rfl

/-- A number without a sign starts with a digit, and nothing else does. -/
theorem scan_of_isDigit {c : Char} (hc : c.isDigit = true) (rest : List Char) :
    isBlank c = false ∧ scan c rest = scanNumber false (c :: rest) := by
  constructor
  · rw [Bool.eq_false_iff]
    intro hblank
    simp only [isBlank, Bool.or_eq_true, beq_iff_eq] at hblank
    rcases hblank with ((rfl | rfl) | rfl) | rfl <;> contradiction
  · unfold scan
    split
    all_goals first
      | contradiction
      | rw [if_pos hc]

theorem tokens_digits {rest : List Char} (hends : EndsNumber rest) (n : Int) :
    tokens (Value.digits n ++ rest) = .number (.ofInt n) :: tokens rest := by
  cases n with
  | ofNat n =>
      have hscan := scanNumber_toDigits hends false n
      have hnumeral : Numeral.ofInt (.ofNat n) = {
          negative := false, whole := Nat.toDigits 10 n, fraction := [], exponent := 0,
          isInteger := true } := by
        simp [Numeral.ofInt]
      rw [Value.digits, hnumeral]
      cases hdigits : Nat.toDigits 10 n with
      | nil => exact absurd hdigits Nat.toDigits_ne_nil
      | cons c digits =>
          have hc : c.isDigit = true :=
            Nat.isDigit_of_mem_toDigits (by decide) (by decide) (hdigits ▸ List.mem_cons_self)
          obtain ⟨hblank, hfirst⟩ := scan_of_isDigit hc (digits ++ rest)
          rw [hdigits] at hscan
          exact tokens_of_scan hblank (hfirst.trans hscan)
  | negSucc n =>
      have hscan := scanNumber_toDigits hends true (n + 1)
      have hnumeral : Numeral.ofInt (.negSucc n) = {
          negative := true, whole := Nat.toDigits 10 (n + 1), fraction := [], exponent := 0,
          isInteger := true } := by
        simp [Numeral.ofInt]
      rw [hnumeral]
      exact tokens_of_scan rfl hscan

/-- The tokens of a text are those that it is made of. -/
theorem tokens_of_spells {expected : List Token} {input : List Char} (h : Spells expected input) :
    tokens input = expected := by
  induction h with
  | nil => rw [tokens]
  | blank hc _ ih =>
      rw [tokens, if_pos hc]
      exact ih
  | lexeme htoken _ ih => rw [tokens_lexeme htoken, ih]
  | number n hends _ ih => rw [tokens_digits hends, ih]

/-! ## Values as tokens -/

mutual

/-- The tokens of a value. -/
def Value.tokens : Value → List Token
  | .null => [.null]
  | .bool b => [.bool b]
  | .number n => [.number (.ofInt n)]
  | .text s => [.text (.ok s)]
  | .array [] => [.openArray, .closeArray]
  | .array (v :: rest) => .openArray :: (v.tokens ++ itemTokens rest)
  | .object [] => [.openObject, .closeObject]
  | .object ((key, v) :: rest) =>
    .openObject :: .text (.ok key) :: .colon :: (v.tokens ++ fieldTokens rest)

/-- The tokens of the items after the first, and of the end of the array. -/
def itemTokens : List Value → List Token
  | [] => [.closeArray]
  | v :: rest => .comma :: (v.tokens ++ itemTokens rest)

/-- The tokens of the fields after the first, and of the end of the object. -/
def fieldTokens : List (String × Value) → List Token
  | [] => [.closeObject]
  | (key, v) :: rest => .comma :: .text (.ok key) :: .colon :: (v.tokens ++ fieldTokens rest)

end

theorem endsNumber_cons {c : Char} (hc : c ∈ [',', ']', '}', '\n']) (rest : List Char) :
    EndsNumber (c :: rest) := by
  intro first hfirst
  obtain rfl : c = first := Option.some.inj hfirst
  simp only [List.mem_cons, List.not_mem_nil, or_false] at hc
  rcases hc with rfl | rfl | rfl | rfl <;> decide

namespace Spells

variable {ts : List Token} {rest : List Char}

theorem mark {token : Token} {c : Char} (htoken : Lexeme token [c]) (hrest : Spells ts rest) :
    Spells (token :: ts) (c :: rest) :=
  .lexeme htoken hrest

theorem blanks {gap : List Char} (hgap : ∀ c ∈ gap, isBlank c = true) (hrest : Spells ts rest) :
    Spells ts (gap ++ rest) := by
  induction gap with
  | nil => exact hrest
  | cons c gap ih =>
      refine .blank (hgap c List.mem_cons_self) (ih ?_)
      intro c hc
      exact hgap c (List.mem_cons_of_mem _ hc)

theorem newLine (depth : Nat) (hrest : Spells ts rest) :
    Spells ts (Value.newLine depth ++ rest) := by
  refine .blanks ?_ hrest
  intro c hc
  rcases List.mem_cons.mp hc with rfl | hc
  · rfl
  · rw [List.eq_of_mem_replicate hc]
    rfl

end Spells

mutual

/-- The compact text of a value spells its tokens. -/
theorem spells_compact : (v : Value) → ∀ {ts rest}, Spells ts rest → EndsNumber rest →
    Spells (v.tokens ++ ts) (v.compact ++ rest)
  | .null, _, _, hrest, _ => .lexeme .null hrest
  | .bool true, _, _, hrest, _ => .lexeme .yes hrest
  | .bool false, _, _, hrest, _ => .lexeme .no hrest
  | .number n, _, _, hrest, hends => .number n hends hrest
  | .text s, _, _, hrest, _ => .lexeme (.quote s) hrest
  | .array [], _, _, hrest, _ => .mark .openArray (.mark .closeArray hrest)
  | .array (v :: items), _, _, hrest, _ => by
      obtain ⟨hitems, hends⟩ := spells_compactItems items hrest
      have hv := spells_compact v hitems hends
      simp only [Value.tokens, Value.compact, List.cons_append, List.append_assoc]
      exact .mark .openArray hv
  | .object [], _, _, hrest, _ => .mark .openObject (.mark .closeObject hrest)
  | .object ((key, v) :: fields), _, _, hrest, _ => by
      obtain ⟨hfields, hends⟩ := spells_compactFields fields hrest
      have hv := spells_compact v hfields hends
      simp only [Value.tokens, Value.compact, List.cons_append, List.append_assoc]
      exact .mark .openObject (.lexeme (.quote key) (.mark .colon hv))

theorem spells_compactItems : (items : List Value) → ∀ {ts rest}, Spells ts rest →
    Spells (itemTokens items ++ ts) (Value.compactItems items ++ rest) ∧
      EndsNumber (Value.compactItems items ++ rest)
  | [], _, _, hrest => ⟨.mark .closeArray hrest, endsNumber_cons (by decide) _⟩
  | v :: items, _, _, hrest => by
      obtain ⟨hitems, hends⟩ := spells_compactItems items hrest
      have hv := spells_compact v hitems hends
      simp only [itemTokens, Value.compactItems, List.cons_append, List.append_assoc]
      exact ⟨.mark .comma hv, endsNumber_cons (by decide) _⟩

theorem spells_compactFields : (fields : List (String × Value)) → ∀ {ts rest}, Spells ts rest →
    Spells (fieldTokens fields ++ ts) (Value.compactFields fields ++ rest) ∧
      EndsNumber (Value.compactFields fields ++ rest)
  | [], _, _, hrest => ⟨.mark .closeObject hrest, endsNumber_cons (by decide) _⟩
  | (key, v) :: fields, _, _, hrest => by
      obtain ⟨hfields, hends⟩ := spells_compactFields fields hrest
      have hv := spells_compact v hfields hends
      simp only [fieldTokens, Value.compactFields, List.cons_append, List.append_assoc]
      exact ⟨.mark .comma (.lexeme (.quote key) (.mark .colon hv)), endsNumber_cons (by decide) _⟩

end

mutual

/-- The indented text of a value spells its tokens, at any depth. -/
theorem spells_indented : (v : Value) → ∀ (depth : Nat) {ts rest}, Spells ts rest →
    EndsNumber rest →
    Spells (v.tokens ++ ts) (v.indented depth ++ rest)
  | .null, _, _, _, hrest, _ => .lexeme .null hrest
  | .bool true, _, _, _, hrest, _ => .lexeme .yes hrest
  | .bool false, _, _, _, hrest, _ => .lexeme .no hrest
  | .number n, _, _, _, hrest, hends => .number n hends hrest
  | .text s, _, _, _, hrest, _ => .lexeme (.quote s) hrest
  | .array [], _, _, _, hrest, _ => .mark .openArray (.mark .closeArray hrest)
  | .array (v :: items), depth, _, _, hrest, _ => by
      obtain ⟨hitems, hends⟩ := spells_indentedItems items depth hrest
      have hv := spells_indented v (depth + 1) hitems hends
      simp only [Value.tokens, Value.indented, List.cons_append, List.append_assoc]
      exact .mark .openArray (.newLine _ hv)
  | .object [], _, _, _, hrest, _ => .mark .openObject (.mark .closeObject hrest)
  | .object ((key, v) :: fields), depth, _, _, hrest, _ => by
      obtain ⟨hfields, hends⟩ := spells_indentedFields fields depth hrest
      have hv := spells_indented v (depth + 1) hfields hends
      simp only [Value.tokens, Value.indented, List.cons_append, List.append_assoc, List.nil_append]
      exact .mark .openObject (.newLine _ (.lexeme (.quote key) (.mark .colon (.blank rfl hv))))

theorem spells_indentedItems : (items : List Value) → ∀ (depth : Nat) {ts rest},
    Spells ts rest →
    Spells (itemTokens items ++ ts) (Value.indentedItems depth items ++ rest) ∧
      EndsNumber (Value.indentedItems depth items ++ rest)
  | [], depth, _, _, hrest => by
      simp only [itemTokens, Value.indentedItems, List.append_assoc]
      exact ⟨.newLine _ (.mark .closeArray hrest), endsNumber_cons (by decide) _⟩
  | v :: items, depth, _, _, hrest => by
      obtain ⟨hitems, hends⟩ := spells_indentedItems items depth hrest
      have hv := spells_indented v (depth + 1) hitems hends
      simp only [itemTokens, Value.indentedItems, List.cons_append, List.append_assoc]
      exact ⟨.mark .comma (.newLine _ hv), endsNumber_cons (by decide) _⟩

theorem spells_indentedFields : (fields : List (String × Value)) → ∀ (depth : Nat) {ts rest},
    Spells ts rest →
    Spells (fieldTokens fields ++ ts) (Value.indentedFields depth fields ++ rest) ∧
      EndsNumber (Value.indentedFields depth fields ++ rest)
  | [], depth, _, _, hrest => by
      simp only [fieldTokens, Value.indentedFields, List.append_assoc]
      exact ⟨.newLine _ (.mark .closeObject hrest), endsNumber_cons (by decide) _⟩
  | (key, v) :: fields, depth, _, _, hrest => by
      obtain ⟨hfields, hends⟩ := spells_indentedFields fields depth hrest
      have hv := spells_indented v (depth + 1) hfields hends
      simp only [fieldTokens, Value.indentedFields, List.cons_append, List.append_assoc,
        List.nil_append]
      exact ⟨.mark .comma (.newLine _ (.lexeme (.quote key) (.mark .colon (.blank rfl hv)))),
        endsNumber_cons (by decide) _⟩

end

theorem spells_toText (v : Value) : Spells v.tokens v.toText.toList := by
  have h := spells_compact v .nil nofun
  rwa [List.append_nil, List.append_nil, ← String.toList_ofList (l := v.compact)] at h

theorem spells_toIndentedText (v : Value) : Spells v.tokens v.toIndentedText.toList := by
  have h := spells_indented v 0 .nil nofun
  rwa [List.append_nil, List.append_nil, ← String.toList_ofList (l := v.indented 0)] at h

/-! ## The machine -/

namespace Doc

/-- What the machine makes of the rest of the tokens after a step. -/
def resume (rest : List Token) : Step → Document
  | .next stack place => run stack place rest
  | .done root => { root, hasMore := !rest.isEmpty }
  | .stop root => { root, hasMore := false }

theorem run_cons (stack : List Frame) (place : Place) (token : Token) (rest : List Token) :
    run stack place (token :: rest) = resume rest (step stack place token) := by
  rw [run]
  cases step stack place token <;> rfl

/-- The first item of an array is a value like any other. -/
theorem run_firstItem (v : Value) (stack : List Frame) (rest : List Token) :
    run stack .firstItem (v.tokens ++ rest) = run stack .value (v.tokens ++ rest) := by
  have hfirst : ∃ token others, v.tokens = token :: others ∧ token ≠ .closeArray := by
    cases v with
    | array items =>
        cases items with
        | nil => exact ⟨_, _, rfl, nofun⟩
        | cons v items => exact ⟨_, _, rfl, nofun⟩
    | object fields =>
        cases fields with
        | nil => exact ⟨_, _, rfl, nofun⟩
        | cons field fields => exact ⟨_, _, rfl, nofun⟩
    | _ => exact ⟨_, _, rfl, nofun⟩
  obtain ⟨token, others, htokens, htoken⟩ := hfirst
  have hstep : step stack .firstItem token = step stack .value token := by
    unfold step
    split <;> simp_all
  rw [htokens, List.cons_append, run_cons, run_cons, hstep]

mutual

/-- The machine puts the tokens of a value together, whatever is open around it. -/
theorem run_tokens : (v : Value) → ∀ (stack : List Frame) (rest : List Token),
    run stack .value (v.tokens ++ rest) = resume rest (supply (ofValue v) stack)
  | .null, stack, rest => run_cons stack .value .null rest
  | .bool b, stack, rest => run_cons stack .value (.bool b) rest
  | .number n, stack, rest => run_cons stack .value (.number (.ofInt n)) rest
  | .text s, stack, rest => run_cons stack .value (.text (.ok s)) rest
  | .array [], stack, rest => run_cons (.array [] :: stack) .firstItem .closeArray rest
  | .array (v :: items), stack, rest => by
      have hv := run_tokens v (.array [] :: stack) (itemTokens items ++ rest)
      have hitems := run_itemTokens items [ofValue v] stack rest
      rw [← run_firstItem] at hv
      simp only [Value.tokens, List.cons_append, List.append_assoc]
      exact hv.trans hitems
  | .object [], stack, rest => run_cons (.object [] :: stack) .firstKey .closeObject rest
  | .object ((key, v) :: fields), stack, rest => by
      have hv := run_tokens v (.field [] (.ok key) :: stack) (fieldTokens fields ++ rest)
      have hfields := run_fieldTokens fields [(.ok key, ofValue v)] stack rest
      simp only [Value.tokens, List.cons_append, List.append_assoc]
      exact hv.trans hfields

/-- The items after the first complete the array. -/
theorem run_itemTokens : (items : List Value) → ∀ (before : List Doc) (stack : List Frame)
    (rest : List Token),
    run (.array before :: stack) .separator (itemTokens items ++ rest) =
      resume rest (supply (.array (before.reverse ++ ofItems items) none) stack)
  | [], before, stack, rest => by
      rw [ofItems, List.append_nil]
      exact run_cons (.array before :: stack) .separator .closeArray rest
  | v :: items, before, stack, rest => by
      have hv := run_tokens v (.array before :: stack) (itemTokens items ++ rest)
      have hitems := run_itemTokens items (ofValue v :: before) stack rest
      rw [List.reverse_cons, List.append_assoc] at hitems
      simp only [itemTokens, List.cons_append, List.append_assoc]
      exact hv.trans hitems

/-- The fields after the first complete the object. -/
theorem run_fieldTokens : (fields : List (String × Value)) → ∀ (before : List (Key × Doc))
    (stack : List Frame) (rest : List Token),
    run (.object before :: stack) .separator (fieldTokens fields ++ rest) =
      resume rest (supply (.object (before.reverse ++ ofFields fields) none) stack)
  | [], before, stack, rest => by
      rw [ofFields, List.append_nil]
      exact run_cons (.object before :: stack) .separator .closeObject rest
  | (key, v) :: fields, before, stack, rest => by
      have hv := run_tokens v (.field before (.ok key) :: stack) (fieldTokens fields ++ rest)
      have hfields := run_fieldTokens fields ((.ok key, ofValue v) :: before) stack rest
      rw [List.reverse_cons, List.append_assoc] at hfields
      simp only [fieldTokens, List.cons_append, List.append_assoc]
      exact hv.trans hfields

end

end Doc

/-- A text that spells a value is read as the value, and nothing follows. -/
theorem read_of_spells {v : Value} {input : List Char} (h : Spells v.tokens input) :
    Document.read input = { root := .ofValue v, hasMore := false } := by
  have hrun := Doc.run_tokens v [] []
  rw [List.append_nil] at hrun
  rw [Document.read, tokens_of_spells h]
  exact hrun

end ClassLayout.Json
