import Verdict.Proofs.Json.Sorting

/-!
# Canonical texts

The canonical text of a value that was read from a text is read as the same value. So documents with
different values have different canonical texts, and how a document was written makes no difference:
neither the order of its members nor blanks nor escapes are left in the value. Values are the same here
only if they are written alike: zero and minus zero are two values.
-/

namespace Verdict

open Results

namespace Json

/-! ## Sorted values -/

end Json
end Verdict
