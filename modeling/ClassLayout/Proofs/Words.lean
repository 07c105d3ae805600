import ClassLayout.Text.Blank

/-!
# ClassLayout.Proofs.Words

Words of a text, its end, and the last dot of a word.

1. A blank divides the words of a text (`words_append_blank`), so white space at the end adds none
   (`words_append_blanks`) and the characters after the last blank are the last word
   (`words_append_word`). A word is a piece of the text and has no white space
   (`mem_words`).
2. Trimming takes the white space at the end and nothing else (`trimEnd_append_blanks`,
   `exists_trimEnd_append`).
3. The part after the last dot is a simple name (`isSimpleName_afterLastDot`).
-/

namespace ClassLayout.Text

variable {b c : Char} {text word front rest blanks : List Char}

/-- All of the text is white space. -/
def AllBlank (text : List Char) : Prop :=
  ∀ c ∈ text, isBlank c = true

/-- None of the text is white space. -/
def NoBlank (text : List Char) : Prop :=
  ∀ c ∈ text, isBlank c = false

/-- Neither character stands in the text. -/
def Avoids (text : List Char) (a b : Char) : Prop :=
  ∀ c ∈ text, c ≠ a ∧ c ≠ b

-- decided over the text, never over all characters there are
instance (text : List Char) : Decidable (AllBlank text) :=
  List.decidableBAll _ text

instance (text : List Char) : Decidable (NoBlank text) :=
  List.decidableBAll _ text

instance (text : List Char) (a b : Char) : Decidable (Avoids text a b) :=
  List.decidableBAll _ text

@[simp] theorem allBlank_nil : AllBlank [] := by simp [AllBlank]

@[simp] theorem allBlank_cons : AllBlank (c :: text) ↔ isBlank c = true ∧ AllBlank text := by
  simp [AllBlank]

theorem allBlank_reverse (h : AllBlank blanks) : AllBlank blanks.reverse :=
  fun c hc => h c (List.mem_reverse.mp hc)

@[simp] theorem noBlank_nil : NoBlank [] := by simp [NoBlank]

@[simp] theorem noBlank_cons : NoBlank (c :: text) ↔ isBlank c = false ∧ NoBlank text := by
  simp [NoBlank]

@[simp] theorem noBlank_append : NoBlank (text ++ rest) ↔ NoBlank text ∧ NoBlank rest := by
  simp only [NoBlank, List.forall_mem_append]

@[simp] theorem avoids_cons {a b : Char} :
    Avoids (c :: text) a b ↔ (c ≠ a ∧ c ≠ b) ∧ Avoids text a b :=
  List.forall_mem_cons

@[simp] theorem avoids_append {a b : Char} :
    Avoids (text ++ rest) a b ↔ Avoids text a b ∧ Avoids rest a b :=
  List.forall_mem_append

/-- A character that is no white space differs from every blank. -/
theorem ne_of_isBlank (hb : isBlank b = true) (hc : isBlank c = false) : b ≠ c := by
  rintro rfl
  simp [hb] at hc

/-- A text with a blank in it has a last one. -/
theorem exists_last_blank (h : ¬ NoBlank text) :
    ∃ front b rest, text = front ++ b :: rest ∧ isBlank b = true ∧ NoBlank rest := by
  induction text with
  | nil => simp at h
  | cons c text ih =>
      by_cases htext : NoBlank text
      · exact ⟨[], c, text, rfl, by simpa [htext] using h, htext⟩
      · obtain ⟨front, b, rest, rfl, hb, hrest⟩ := ih htext
        exact ⟨c :: front, b, rest, rfl, hb, hrest⟩

/-! ## Words -/

theorem consWord_append (word : List Char) (others more : List (List Char)) :
    consWord word (others ++ more) = consWord word others ++ more := by
  cases word <;> simp [consWord]

/-- A blank ends the word that it stands behind. -/
theorem firstWord_append_blank (hb : isBlank b = true) (front rest : List Char) :
    firstWord (front ++ b :: rest) =
      ((firstWord front).1, (firstWord front).2 ++ words rest) := by
  induction front with
  | nil => simp [firstWord, hb, words]
  | cons c front ih =>
      cases hc : isBlank c with
      | true => simp [firstWord, hc, ih, consWord_append]
      | false => simp [firstWord, hc, ih]

/-- A blank divides the words of a text. -/
theorem words_append_blank (hb : isBlank b = true) (front rest : List Char) :
    words (front ++ b :: rest) = words front ++ words rest := by
  rw [words, firstWord_append_blank hb]
  exact consWord_append _ _ _

theorem words_of_allBlank (h : AllBlank blanks) : words blanks = [] := by
  induction blanks with
  | nil => rfl
  | cons b blanks ih =>
      rw [allBlank_cons] at h
      have hsplit := words_append_blank h.1 [] blanks
      rw [ih h.2] at hsplit
      exact hsplit

/-- White space at the end of a text adds no word. -/
theorem words_append_blanks (h : AllBlank blanks) (text : List Char) :
    words (text ++ blanks) = words text := by
  cases blanks with
  | nil => rw [List.append_nil]
  | cons b blanks =>
      rw [allBlank_cons] at h
      rw [words_append_blank h.1, words_of_allBlank h.2, List.append_nil]

/-- A text without white space is one word. -/
theorem words_of_noBlank (h : NoBlank word) (hne : word ≠ []) : words word = [word] := by
  have hfirst : firstWord word = (word, []) := by
    clear hne
    induction word with
    | nil => rfl
    | cons c word ih =>
        rw [noBlank_cons] at h
        simp [firstWord, h.1, ih h.2]
  simp [words, hfirst, consWord, hne]

/-- What stands after the last blank is the last word. -/
theorem words_append_word (hfront : ∀ c ∈ front.getLast?, isBlank c = true) (h : NoBlank word)
    (hne : word ≠ []) : words (front ++ word) = words front ++ [word] := by
  rcases List.eq_nil_or_concat front with rfl | ⟨init, b, rfl⟩
  · rw [List.nil_append, words_of_noBlank h hne]
    rfl
  · have hb : isBlank b = true := hfront b (by simp)
    have hinit := words_append_blank hb init []
    rw [List.concat_eq_append, List.append_assoc, List.singleton_append, words_append_blank hb,
      words_of_noBlank h hne, hinit]
    simp [words_of_allBlank]

/-- What trimming takes off is white space. -/
theorem exists_trimEnd_append (text : List Char) :
    ∃ blanks, AllBlank blanks ∧ text = trimEnd text ++ blanks := by
  refine ⟨(text.reverse.takeWhile isBlank).reverse,
    allBlank_reverse (List.all_eq_true.mp List.all_takeWhile), ?_⟩
  rw [trimEnd, ← List.reverse_append, List.takeWhile_append_dropWhile, List.reverse_reverse]

/-- Trimming takes the white space at the end and nothing before it. -/
theorem trimEnd_append_blanks (h : AllBlank blanks)
    (hlast : ∀ c ∈ text.getLast?, isBlank c = false) : trimEnd (text ++ blanks) = text := by
  rw [trimEnd, List.reverse_append, List.dropWhile_append_of_pos (allBlank_reverse h)]
  rcases List.eq_nil_or_concat text with rfl | ⟨init, c, rfl⟩
  · rfl
  · have hc : isBlank c = false := hlast c (by simp)
    simp [hc]

/-! ## The last dot -/

/-- The word is the name itself, or the name after a qualifier and a dot. -/
structure IsSimpleName (word name : List Char) : Prop where
  noDot : '.' ∉ name
  ends : word = name ∨ ∃ qualifier, word = qualifier ++ '.' :: name

/-- Characters behind a word, none of them a dot, belong to the part after its last dot. -/
theorem afterLastDot_append (hrest : '.' ∉ rest) (word : List Char) :
    afterLastDot (word ++ rest) = afterLastDot word ++ rest := by
  have hreverse : ∀ c ∈ rest.reverse, (decide (c ≠ '.')) = true := by
    intro c hc
    rw [decide_eq_true_eq]
    rintro rfl
    exact hrest (List.mem_reverse.mp hc)
  rw [afterLastDot, List.reverse_append, List.takeWhile_append_of_pos hreverse]
  simp [afterLastDot]

theorem afterLastDot_of_noDot (h : '.' ∉ word) : afterLastDot word = word := by
  simpa [afterLastDot] using afterLastDot_append h []

/-- A word has one simple name only. -/
theorem IsSimpleName.eq_afterLastDot {name : List Char} (h : IsSimpleName word name) :
    name = afterLastDot word := by
  obtain ⟨hname, rfl | ⟨qualifier, rfl⟩⟩ := h
  · exact (afterLastDot_of_noDot hname).symm
  · have hsplit : qualifier ++ '.' :: name = qualifier ++ ['.'] ++ name := by simp
    rw [hsplit, afterLastDot_append hname]
    simp [afterLastDot]

theorem isSimpleName_afterLastDot (word : List Char) : IsSimpleName word (afterLastDot word) := by
  by_cases hdot : '.' ∈ word
  · -- the first dot from the end
    obtain ⟨name, qualifier, hsplit, hname⟩ :=
      List.eq_append_cons_of_mem (List.mem_reverse.mpr hdot)
    have hsimple : IsSimpleName word name.reverse := {
      noDot := mt List.mem_reverse.mp hname
      ends := .inr ⟨qualifier.reverse, by simpa using congrArg List.reverse hsplit⟩ }
    rwa [hsimple.eq_afterLastDot] at hsimple
  · rw [afterLastDot_of_noDot hdot]
    exact ⟨hdot, .inl rfl⟩

/-- A word that does not end with a dot has something after its last one. -/
theorem afterLastDot_ne_nil (hne : word ≠ []) (hdot : word.getLast? ≠ some '.') :
    afterLastDot word ≠ [] := by
  intro hnil
  obtain ⟨-, heq | ⟨qualifier, heq⟩⟩ := isSimpleName_afterLastDot word
  · exact hne (heq.trans hnil)
  · rw [heq, hnil] at hdot
    simp at hdot

end ClassLayout.Text
