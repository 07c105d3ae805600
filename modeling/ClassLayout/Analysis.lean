import ClassLayout.Finding

/-!
# ClassLayout.Analysis

The analysis of classes. Each class is turned into its graph of calls, which is handed to a consumer; the
consumer that reports findings searches for a better order. Classes do not depend on each other: a class
with a flaw has an error for its report, and the others have theirs.
-/

namespace ClassLayout

namespace Analysis

end Analysis

end ClassLayout
