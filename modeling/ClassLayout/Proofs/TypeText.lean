import ClassLayout.Proofs.Words
import ClassLayout.Signature
import Mathlib.Data.List.Induction

/-!
# ClassLayout.Proofs.TypeText

How the text of a type is read. The text is a head, which ends with the word for the type, then type
arguments, pairs of square brackets and an ellipsis. White space may stand before a pair and within
it, before the ellipsis and at the end.

1. Balanced type arguments leave nothing behind (`outsideGenerics_arguments`).
2. Pairs at the end are taken off, white space and all (`splitArraySuffix_pairs`). Pairs before an
   ellipsis are not: they stay with the word in front of them.
3. So a text without an ellipsis is read in one way (`render_spell_plain`), and a text with one too
   if its pairs are written without white space (`render_spell_variadic_of_none`). If they are not,
   then a part of the pairs is taken for the word (`render_spell_loose`).
-/

namespace ClassLayout.TypeText

open Text

variable {c : Char} {text head word arguments core : List Char}

/-! ## How a type is written -/

/-- The text has no angle brackets and ends with a word that can be the type, a simple or a
qualified name. Whatever words stand before it do not matter. -/
structure EndsWithType (text word : List Char) : Prop where
  plain : Avoids text '<' '>'
  /-- The word is the last one, and nothing stands after it. -/
  last : ∃ front, text = front ++ word ∧ ∀ c ∈ front.getLast?, isBlank c = true
  ne_nil : word ≠ []
  noBlank : NoBlank word
  noSquare : Avoids word '[' ']'
  notFinal : word ≠ "final".toList
  notAnnotation : word.head? ≠ some '@'
  noDot : word.getLast? ≠ some '.'

/-- Every angle bracket of the text has its partner. -/
inductive Balanced : List Char → Prop
  | nil : Balanced []
  | plain {c : Char} {text : List Char} (hc : c ≠ '<' ∧ c ≠ '>') (htext : Balanced text) :
      Balanced (c :: text)
  | nested {inner text : List Char} (hinner : Balanced inner) (htext : Balanced text) :
      Balanced ('<' :: inner ++ '>' :: text)

/-- Type arguments: none at all, or a balanced text in angle brackets. -/
inductive TypeArguments : List Char → Prop
  | none : TypeArguments []
  | list {inner : List Char} (hinner : Balanced inner) : TypeArguments ('<' :: inner ++ ['>'])

/-- Pairs of brackets without white space. -/
def brackets (count : Nat) : List Char :=
  (List.replicate count ['[', ']']).flatten

/-- The white space around the opening bracket of a pair. -/
structure Gap where
  before : List Char
  within : List Char
  before_blank : AllBlank before
  within_blank : AllBlank within

/-- No white space. -/
def Gap.none : Gap where
  before := []
  within := []
  before_blank := allBlank_nil
  within_blank := allBlank_nil

/-- The pair that is written so. -/
def Gap.pair (gap : Gap) : List Char :=
  gap.before ++ '[' :: gap.within ++ [']']

/-- The pairs that are written so, one after the other. -/
def pairs (gaps : List Gap) : List Char :=
  gaps.flatMap Gap.pair

/-- The white space around the marks of a type: pairs of brackets, and an ellipsis if it has one. -/
structure Spacing where
  gaps : List Gap
  beforeEllipsis : List Char
  atEnd : List Char
  beforeEllipsis_blank : AllBlank beforeEllipsis
  atEnd_blank : AllBlank atEnd

/-- So many pairs, and no white space. -/
def Spacing.tight (count : Nat) : Spacing where
  gaps := List.replicate count .none
  beforeEllipsis := []
  atEnd := []
  beforeEllipsis_blank := allBlank_nil
  atEnd_blank := allBlank_nil

/-- The text of a type. -/
def spell (head arguments : List Char) (spacing : Spacing) (variadic : Bool) : List Char :=
  head ++ arguments ++ pairs spacing.gaps
    ++ (if variadic then spacing.beforeEllipsis ++ ellipsis else []) ++ spacing.atEnd

/-! ## Characters -/

theorem isBlank_open : isBlank '[' = false := by decide

theorem isBlank_close : isBlank ']' = false := by decide

theorem isBlank_dot : isBlank '.' = false := by decide

/-- White space has no angle brackets. -/
theorem plain_of_allBlank (h : AllBlank text) : Avoids text '<' '>' := by
  intro c hc
  exact ⟨ne_of_isBlank (h c hc) (by decide), ne_of_isBlank (h c hc) (by decide)⟩

/-! ## Pairs -/

@[simp] theorem pairs_nil : pairs [] = [] := rfl

@[simp] theorem pairs_concat (gaps : List Gap) (gap : Gap) :
    pairs (gaps ++ [gap]) = pairs gaps ++ gap.pair := by
  simp [pairs]

@[simp] theorem pairs_replicate_none (count : Nat) :
    pairs (List.replicate count .none) = brackets count := by
  induction count with
  | zero => rfl
  | succ count ih => simpa [pairs, brackets, List.replicate_succ, Gap.pair, Gap.none] using ih

theorem brackets_add (m n : Nat) : brackets (m + n) = brackets m ++ brackets n := by
  rw [brackets, ← List.replicate_append_replicate, List.flatten_append]
  rfl

@[simp] theorem length_brackets (count : Nat) : (brackets count).length = 2 * count := by
  simp [brackets, Nat.mul_comm]

/-- Apart from white space there are only square brackets. -/
theorem mem_pairs {gaps : List Gap} (hc : c ∈ pairs gaps) :
    isBlank c = true ∨ c = '[' ∨ c = ']' := by
  obtain ⟨gap, -, hgap⟩ := List.mem_flatMap.mp hc
  simp only [Gap.pair, List.append_assoc, List.cons_append, List.mem_append, List.mem_cons,
    List.not_mem_nil, or_false] at hgap
  rcases hgap with hbefore | hopen | hwithin | hclose
  · exact .inl (gap.before_blank c hbefore)
  · exact .inr (.inl hopen)
  · exact .inl (gap.within_blank c hwithin)
  · exact .inr (.inr hclose)

/-- Each pair has two characters that are no white space. -/
theorem countP_pairs (gaps : List Gap) :
    (pairs gaps).countP (fun c => !isBlank c) = 2 * gaps.length := by
  have hblank : ∀ {blanks : List Char}, AllBlank blanks →
      blanks.countP (fun c => !isBlank c) = 0 := by
    intro blanks hblanks
    rw [List.countP_eq_zero]
    intro c hc
    simp [hblanks c hc]
  induction gaps with
  | nil => rfl
  | cons gap gaps ih =>
      have hpair : gap.pair.countP (fun c => !isBlank c) = 2 := by
        simp [Gap.pair, hblank gap.before_blank, hblank gap.within_blank,
          isBlank_open, isBlank_close]
      rw [pairs, List.flatMap_cons, List.countP_append, hpair, ← pairs, ih, List.length_cons]
      omega

theorem noBlank_pair_iff {gap : Gap} : NoBlank gap.pair ↔ gap = .none := by
  constructor
  · intro h
    have hnil : ∀ {blanks : List Char}, AllBlank blanks → NoBlank blanks → blanks = [] := by
      intro blanks hall hnone
      rw [List.eq_nil_iff_forall_not_mem]
      intro c hc
      exact ne_of_isBlank (hall c hc) (hnone c hc) rfl
    obtain ⟨before, within, hbefore, hwithin⟩ := gap
    simp only [Gap.pair, noBlank_append, noBlank_cons] at h
    obtain rfl := hnil hbefore h.1.1
    obtain rfl := hnil hwithin h.1.2.2
    rfl
  · rintro rfl
    decide

/-- Pairs without white space are written in one way. -/
theorem noBlank_pairs_iff {gaps : List Gap} :
    NoBlank (pairs gaps) ↔ ∀ gap ∈ gaps, gap = .none := by
  have hpairs : NoBlank (pairs gaps) ↔ ∀ gap ∈ gaps, NoBlank gap.pair := by
    simp only [NoBlank, pairs, List.mem_flatMap]
    constructor
    · intro h gap hgap c hc
      exact h c ⟨gap, hgap, hc⟩
    · rintro h c ⟨gap, hgap, hc⟩
      exact h gap hgap c hc
  simp only [hpairs, noBlank_pair_iff]

theorem pairs_eq_brackets {gaps : List Gap} (h : ∀ gap ∈ gaps, gap = .none) :
    pairs gaps = brackets gaps.length := by
  rw [List.eq_replicate_of_mem h, pairs_replicate_none, List.length_replicate]

/-- Behind a text there are no pairs, or a closing bracket is the last character. -/
theorem getLast?_append_pairs (h : text.getLast? = some c) (gaps : List Gap) :
    (text ++ pairs gaps).getLast? = some c ∨ (text ++ pairs gaps).getLast? = some ']' := by
  rcases List.eq_nil_or_concat gaps with rfl | ⟨init, gap, rfl⟩
  · left
    rwa [pairs_nil, List.append_nil]
  · right
    rw [List.concat_eq_append, pairs_concat, Gap.pair, ← List.append_assoc, ← List.append_assoc,
      List.getLast?_concat]

/-! ## Type arguments -/

/-- Text without angle brackets is kept where none is open. -/
theorem outsideGenerics_plain (h : Avoids text '<' '>') (rest : List Char) :
    outsideGenerics 0 (text ++ rest) = text ++ outsideGenerics 0 rest := by
  induction text with
  | nil => rfl
  | cons c text ih =>
      rw [avoids_cons] at h
      simp [outsideGenerics, h.1, ih h.2]

/-- Balanced text within angle brackets is passed over. -/
theorem outsideGenerics_balanced (h : Balanced text) (depth : Nat) (rest : List Char) :
    outsideGenerics (depth + 1) (text ++ rest) = outsideGenerics (depth + 1) rest := by
  induction h generalizing depth rest with
  | nil => rfl
  | plain hc htext ih => simp [outsideGenerics, hc, ih]
  | nested hinner htext ihinner ihtext => simp [outsideGenerics, ihinner, ihtext]

/-- A balanced text in angle brackets leaves nothing behind, wherever it stands. -/
theorem outsideGenerics_nested (h : Balanced text) (depth : Nat) (rest : List Char) :
    outsideGenerics depth ('<' :: text ++ '>' :: rest) = outsideGenerics depth rest := by
  simp [outsideGenerics, outsideGenerics_balanced h]

theorem outsideGenerics_arguments (h : TypeArguments arguments) (depth : Nat) (rest : List Char) :
    outsideGenerics depth (arguments ++ rest) = outsideGenerics depth rest := by
  cases h with
  | none => rfl
  | list hinner => simpa using outsideGenerics_nested hinner depth rest

/-! ## Pairs at the end -/

/-- White space is passed over, whether a bracket waits for its partner or not. -/
theorem peelPairs_blanks {blanks : List Char} (h : AllBlank blanks) (rest : List Char) (count : Nat)
    (closed : Bool) (text : List Char) :
    peelPairs rest count closed (blanks ++ text) = peelPairs rest count closed text := by
  induction blanks with
  | nil => rfl
  | cons b blanks ih =>
      rw [allBlank_cons] at h
      simp [peelPairs, h.1, ih h.2]

/-- One pair is taken off, and the text in front of it is what remains. -/
theorem peelPairs_pair (gap : Gap) (rest : List Char) (count : Nat) (text : List Char) :
    peelPairs rest count false (gap.pair.reverse ++ text) =
      peelPairs (gap.before.reverse ++ text) (count + 1) false text := by
  have hclose : ∀ more, peelPairs rest count false (']' :: more) =
      peelPairs rest count true more := by
    intro more
    simp [peelPairs, isBlank_close]
  have hopen : ∀ more, peelPairs rest count true ('[' :: more) =
      peelPairs more (count + 1) false more := by
    intro more
    simp [peelPairs, isBlank_open]
  simp only [Gap.pair, List.reverse_append, List.reverse_cons, List.reverse_nil, List.nil_append,
    List.append_assoc, List.cons_append]
  rw [hclose, peelPairs_blanks (allBlank_reverse gap.within_blank), hopen,
    peelPairs_blanks (allBlank_reverse gap.before_blank)]

/-- All pairs are taken off. The white space in front of the first one stays. -/
theorem peelPairs_pairs (hc : isBlank c = false) (hclose : c ≠ ']') (gaps : List Gap)
    (rest : List Char) (count : Nat) (text : List Char) :
    peelPairs rest count false ((pairs gaps).reverse ++ c :: text) =
      match gaps with
      | [] => (rest, count)
      | gap :: _ => (gap.before.reverse ++ c :: text, count + gaps.length) := by
  -- pairs are met from the last one to the first
  induction gaps using List.reverseRecOn generalizing rest count with
  | nil => simp [peelPairs, hc, hclose]
  | append_singleton gaps gap ih =>
      rw [pairs_concat, List.reverse_append, List.append_assoc, peelPairs_pair, ih]
      cases gaps with
      | nil => rfl
      | cons first others => simp [Nat.add_comm, Nat.add_left_comm]

/-- Pairs of brackets at the end of a text are taken off, and white space after them. -/
theorem splitArraySuffix_pairs {blanks : List Char} (hblanks : AllBlank blanks)
    (hlast : text.getLast? = some c) (hc : isBlank c = false) (hclose : c ≠ ']') (gaps : List Gap) :
    splitArraySuffix (text ++ pairs gaps ++ blanks) =
      (text ++ (gaps.head?.map Gap.before).getD [], gaps.length) := by
  have htrim : trimEnd (text ++ pairs gaps ++ blanks) = text ++ pairs gaps := by
    refine trimEnd_append_blanks hblanks ?_
    rcases getLast?_append_pairs hlast gaps with h | h
    · simpa [h] using hc
    · simpa [h] using isBlank_close
  have hbackwards : (text ++ pairs gaps ++ blanks).reverse.dropWhile isBlank =
      (pairs gaps).reverse ++ text.reverse := by
    rw [← List.reverse_append]
    exact List.reverse_eq_iff.mp htrim
  obtain ⟨init, rfl⟩ := List.getLast?_eq_some_iff.mp hlast
  rw [List.reverse_concat] at hbackwards
  rw [splitArraySuffix, hbackwards, peelPairs_pairs hc hclose]
  cases gaps with
  | nil => simp
  | cons gap gaps => simp

/-! ## The word for the type -/

theorem dropDots_of_head? (h : text.head? ≠ some '.') : dropDots text = text := by
  unfold dropDots
  split
  · simp at h
  · rfl

/-- The last word of a text is the type if it can be one. White space behind it does not count, and
neither does an ellipsis. -/
theorem simpleName_of_words {blanks : List Char} {init : List (List Char)}
    (hblanks : AllBlank blanks) (hlast : core.getLast? = some c) (hdot : c ≠ '.')
    (hwords : words core = init ++ [word]) (hword : isTypeWord word = true) :
    simpleName (core ++ blanks) = afterLastDot word ∧
      simpleName (core ++ blanks ++ ellipsis) = afterLastDot word := by
  have hcore : dropDots (core ++ blanks).reverse = (core ++ blanks).reverse := by
    refine dropDots_of_head? ?_
    rw [List.head?_reverse]
    rcases List.eq_nil_or_concat blanks with rfl | ⟨front, b, rfl⟩
    · simpa [hlast] using hdot
    · have hb : b ≠ '.' := ne_of_isBlank (hblanks b (by simp)) isBlank_dot
      simpa using hb
  have hellipsis : dropDots (core ++ blanks ++ ellipsis).reverse = (core ++ blanks).reverse := by
    rw [List.reverse_append]
    exact hcore
  have hfound : ((words (core ++ blanks)).filter isTypeWord).getLast? = some word := by
    simp [words_append_blanks hblanks, hwords, hword]
  constructor
  · rw [simpleName, hcore, List.reverse_reverse, hfound]
  · rw [simpleName, hellipsis, List.reverse_reverse, hfound]

/-! ## The ellipsis -/

theorem endsInEllipsis_append_ellipsis {blanks : List Char} (hblanks : AllBlank blanks)
    (text : List Char) : endsInEllipsis (text ++ ellipsis ++ blanks) = true := by
  have hlast : ∀ c ∈ (text ++ ellipsis).getLast?, isBlank c = false := by
    simp [ellipsis, isBlank_dot]
  rw [endsInEllipsis, trimEnd_append_blanks hblanks hlast, endsWith, List.isSuffixOf_iff_suffix]
  exact List.suffix_append _ _

/-- An ellipsis at the end of a text, white space aside. -/
theorem endsInEllipsis_iff :
    endsInEllipsis text = true ↔
      ∃ before blanks, text = before ++ ellipsis ++ blanks ∧ AllBlank blanks := by
  constructor
  · intro h
    rw [endsInEllipsis, endsWith, List.isSuffixOf_iff_suffix] at h
    obtain ⟨before, hbefore⟩ := h
    obtain ⟨blanks, hblanks, htext⟩ := exists_trimEnd_append text
    exact ⟨before, blanks, by rwa [hbefore], hblanks⟩
  · rintro ⟨before, blanks, rfl, hblanks⟩
    exact endsInEllipsis_append_ellipsis hblanks before

theorem endsInEllipsis_of_getLast? {blanks : List Char} (hblanks : AllBlank blanks)
    (hlast : text.getLast? = some c) (hc : isBlank c = false) (hdot : c ≠ '.') :
    endsInEllipsis (text ++ blanks) = false := by
  rw [endsInEllipsis, trimEnd_append_blanks hblanks (by simpa [hlast] using hc), endsWith,
    Bool.eq_false_iff, ne_eq, List.isSuffixOf_iff_suffix]
  rintro ⟨init, rfl⟩
  simp [ellipsis, eq_comm, hdot] at hlast

/-! ## Reading -/

namespace EndsWithType

/-- The head ends with the last character of the word. -/
theorem exists_getLast? (h : EndsWithType head word) :
    ∃ c, head.getLast? = some c ∧ isBlank c = false ∧ c ≠ ']' ∧ c ≠ '.' := by
  obtain ⟨front, rfl, -⟩ := h.last
  obtain ⟨init, c, rfl⟩ := (List.eq_nil_or_concat word).resolve_left h.ne_nil
  have hmem : c ∈ init.concat c := by simp
  refine ⟨c, by simp, h.noBlank c hmem, (h.noSquare c hmem).2, ?_⟩
  rintro rfl
  exact h.noDot (by simp)

/-- Characters that follow the word directly, none of them white space, belong to it. -/
theorem words_append (h : EndsWithType head word) {more : List Char} (hmore : NoBlank more) :
    ∃ init, words (head ++ more) = init ++ [word ++ more] := by
  obtain ⟨front, rfl, hfront⟩ := h.last
  refine ⟨words front, ?_⟩
  rw [List.append_assoc]
  exact words_append_word hfront (noBlank_append.mpr ⟨h.noBlank, hmore⟩) (by simp [h.ne_nil])

/-- The word with brackets behind it can be the type as well. -/
theorem isTypeWord_append_brackets (h : EndsWithType head word) (count : Nat) :
    isTypeWord (word ++ brackets count) = true := by
  have hfinal : word ++ brackets count ≠ ['f', 'i', 'n', 'a', 'l'] := by
    cases count with
    | zero => simpa [brackets] using h.notFinal
    | succ count =>
        intro heq
        have hmem : '[' ∈ word ++ brackets (count + 1) := by simp [brackets, List.replicate_succ]
        rw [heq] at hmem
        revert hmem
        decide
  simp [isTypeWord, hfinal, h.notAnnotation, h.ne_nil]

end EndsWithType

/-- The marks of a type have no angle brackets. -/
theorem plain_marks (spacing : Spacing) (variadic : Bool) :
    Avoids (spell [] [] spacing variadic) '<' '>' := by
  have hpairs : Avoids (pairs spacing.gaps) '<' '>' := by
    intro c hc
    rcases mem_pairs hc with hblank | rfl | rfl
    · exact ⟨ne_of_isBlank hblank (by decide), ne_of_isBlank hblank (by decide)⟩
    · decide
    · decide
  have hellipsis : Avoids ellipsis '<' '>' := by decide
  have hbefore := plain_of_allBlank spacing.beforeEllipsis_blank
  have hend := plain_of_allBlank spacing.atEnd_blank
  cases variadic with
  | true =>
      simpa only [spell, List.nil_append, if_true, avoids_append]
        using ⟨⟨hpairs, hbefore, hellipsis⟩, hend⟩
  | false =>
      simpa only [spell, List.nil_append, Bool.false_eq_true, if_false, List.append_nil,
        avoids_append] using ⟨hpairs, hend⟩

/-- Of the text of a type only its arguments are dropped. -/
theorem outsideGenerics_spell (h : EndsWithType head word) (harguments : TypeArguments arguments)
    (spacing : Spacing) (variadic : Bool) :
    outsideGenerics 0 (spell head arguments spacing variadic) = spell head [] spacing variadic := by
  have hspell : ∀ arguments, spell head arguments spacing variadic =
      head ++ (arguments ++ (spell [] [] spacing variadic ++ [])) := by
    simp [spell]
  rw [hspell, hspell, outsideGenerics_plain h.plain, outsideGenerics_arguments harguments,
    outsideGenerics_plain (plain_marks spacing variadic)]
  rfl

section Render

variable (h : EndsWithType head word) (harguments : TypeArguments arguments) (spacing : Spacing)
  (declared : Nat) (declaredVariadic : Bool)

include h harguments

/-- Without an ellipsis, white space around the pairs does not matter. -/
theorem render_spell_plain :
    render (spell head arguments spacing false) declared declaredVariadic =
      afterLastDot word ++ brackets (addWords declared spacing.gaps.length)
        ++ (if declaredVariadic then ellipsis else []) := by
  obtain ⟨c, hlast, hc, hclose, hdot⟩ := h.exists_getLast?
  obtain ⟨init, hwords⟩ := h.words_append noBlank_nil
  rw [List.append_nil, List.append_nil] at hwords
  have hword : isTypeWord word = true := by simpa [brackets] using h.isTypeWord_append_brackets 0
  have hspell : spell head [] spacing false = head ++ pairs spacing.gaps ++ spacing.atEnd := by
    simp [spell]
  rw [render, outsideGenerics_spell h harguments, hspell,
    splitArraySuffix_pairs spacing.atEnd_blank hlast hc hclose]
  -- what is left of the text is the head and the white space before the first pair
  generalize hbefore : (spacing.gaps.head?.map Gap.before).getD [] = before
  have hblank : AllBlank before := by
    rw [← hbefore]
    cases spacing.gaps with
    | nil => exact allBlank_nil
    | cons gap gaps => exact gap.before_blank
  dsimp only
  rw [(simpleName_of_words hblank hlast hdot hwords hword).1,
    endsInEllipsis_of_getLast? hblank hlast hc hdot, Bool.or_false]
  rfl

/-- With an ellipsis, pairs are not taken off, and the last word is looked for among them too. -/
theorem render_spell_variadic {found : List Char} {init : List (List Char)}
    (hwords : words (head ++ pairs spacing.gaps) = init ++ [found])
    (hfound : isTypeWord found = true) :
    render (spell head arguments spacing true) declared declaredVariadic =
      afterLastDot found ++ brackets (toWord declared) ++ ellipsis := by
  obtain ⟨c, hlast, -, -, hdot⟩ := h.exists_getLast?
  obtain ⟨d, hlast', hdot'⟩ : ∃ d, (head ++ pairs spacing.gaps).getLast? = some d ∧ d ≠ '.' := by
    rcases getLast?_append_pairs hlast spacing.gaps with hlast | hlast
    · exact ⟨c, hlast, hdot⟩
    · exact ⟨']', hlast, by decide⟩
  have hspell : spell head [] spacing true =
      head ++ pairs spacing.gaps ++ spacing.beforeEllipsis ++ ellipsis ++ pairs [] ++
        spacing.atEnd := by
    simp [spell]
  rw [render, outsideGenerics_spell h harguments, hspell,
    splitArraySuffix_pairs spacing.atEnd_blank (c := '.') (by simp [ellipsis]) isBlank_dot
      (by decide)]
  have hellipsis := endsInEllipsis_append_ellipsis allBlank_nil
    (head ++ pairs spacing.gaps ++ spacing.beforeEllipsis)
  simp only [List.head?_nil, Option.map_none, Option.getD_none, List.append_nil] at hellipsis ⊢
  rw [(simpleName_of_words spacing.beforeEllipsis_blank hlast' hdot' hwords hfound).2, hellipsis,
    Bool.or_true]
  rfl

/-- Pairs without white space stay with the word, and are shown behind its name. -/
theorem render_spell_variadic_of_none (htight : ∀ gap ∈ spacing.gaps, gap = .none) :
    render (spell head arguments spacing true) declared declaredVariadic =
      afterLastDot word ++ brackets (toWord declared + spacing.gaps.length) ++ ellipsis := by
  obtain ⟨init, hwords⟩ := h.words_append (noBlank_pairs_iff.mpr htight)
  have hbrackets := pairs_eq_brackets htight
  have hdots : '.' ∉ brackets spacing.gaps.length := by
    intro hdot
    rw [← hbrackets] at hdot
    have hchar := mem_pairs hdot
    revert hchar
    decide
  have hword := h.isTypeWord_append_brackets spacing.gaps.length
  rw [hbrackets] at hwords
  rw [render_spell_variadic h harguments spacing declared declaredVariadic
    (by rw [hbrackets]; exact hwords) hword, afterLastDot_append hdots, Nat.add_comm, brackets_add]
  simp

/-- Without any white space all marks are shown. Pairs before an ellipsis stay with the word, others
are added to the declared ones. -/
theorem render_spell_tight (written : Nat) (variadic : Bool) :
    render (spell head arguments (.tight written) variadic) declared declaredVariadic =
      afterLastDot word
        ++ brackets (if variadic then toWord declared + written else addWords declared written)
        ++ if declaredVariadic || variadic then ellipsis else [] := by
  cases variadic with
  | true =>
      simpa [Spacing.tight] using render_spell_variadic_of_none h harguments (.tight written)
        declared declaredVariadic (by simp [Spacing.tight])
  | false =>
      simpa [Spacing.tight] using
        render_spell_plain h harguments (.tight written) declared declaredVariadic

/-- If there is white space among the pairs, the type is lost: what is shown in its place is the
part of the pairs after the last white space. -/
theorem render_spell_loose (hloose : ¬ ∀ gap ∈ spacing.gaps, gap = .none) :
    ∃ rest : List Char, (∀ c ∈ rest, c = '[' ∨ c = ']') ∧ rest.length ≤ 2 * spacing.gaps.length ∧
      render (spell head arguments spacing true) declared declaredVariadic =
        rest ++ brackets (toWord declared) ++ ellipsis := by
  rw [← noBlank_pairs_iff] at hloose
  obtain ⟨front, b, rest, hpairs, hb, hrest⟩ := exists_last_blank hloose
  have hsquare : ∀ c ∈ rest, c = '[' ∨ c = ']' := by
    intro c hc
    have hmem : c ∈ pairs spacing.gaps := by simp [hpairs, hc]
    simpa [hrest c hc] using mem_pairs hmem
  have hne : rest ≠ [] := by
    rintro rfl
    -- the pairs end with a bracket, not with white space
    obtain ⟨c, hlast, hc, -, -⟩ := h.exists_getLast?
    have hbracket := getLast?_append_pairs hlast spacing.gaps
    rw [hpairs, ← List.append_assoc, List.getLast?_concat, Option.some_inj, Option.some_inj]
      at hbracket
    rcases hbracket with rfl | rfl
    · exact ne_of_isBlank hb hc rfl
    · exact ne_of_isBlank hb isBlank_close rfl
  have hword : isTypeWord rest = true := by
    obtain ⟨c, tail, rfl⟩ := List.exists_cons_of_ne_nil hne
    rcases hsquare c List.mem_cons_self with rfl | rfl <;> simp [isTypeWord]
  have hdot : '.' ∉ rest := by
    intro hmem
    have hchar := hsquare '.' hmem
    revert hchar
    decide
  have hwords : words (head ++ pairs spacing.gaps) = words (head ++ front) ++ [rest] := by
    rw [hpairs, ← List.append_assoc, words_append_blank hb, words_of_noBlank hrest hne]
  have hlength : rest.length ≤ 2 * spacing.gaps.length := by
    have hall : rest.countP (fun c => !isBlank c) = rest.length := by
      rw [List.countP_eq_length]
      intro c hc
      simp [hrest c hc]
    have hcount := countP_pairs spacing.gaps
    rw [hpairs, List.countP_append, List.countP_cons, hall] at hcount
    omega
  refine ⟨rest, hsquare, hlength, ?_⟩
  rw [render_spell_variadic h harguments spacing declared declaredVariadic hwords hword,
    afterLastDot_of_noDot hdot]

end Render

end ClassLayout.TypeText
