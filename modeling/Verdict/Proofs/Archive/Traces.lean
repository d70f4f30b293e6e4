import Verdict.Proofs.Archive.Refusal
import Verdict.Proofs.Source.Order

/-!
# Traces of an emission

An emission into an output directory whose names files can have changes nothing if it fails, and if it
succeeds it changes what stands at the place of the archive and makes the directories above it. There
are two ways to fail too late. A path that goes on with `.` behind its last name has its directories
made one by one, and fails at the last; and the path of the archive can be too long where that of its
directory is not.
-/

namespace Verdict

open FileTree (EndsInDot Legal joined)
open Results

/-! ## The place of the archive -/

section Place

variable {tree tree' : FileTree} {output : String}

end Place

/-! ## Failures -/

section Failures

variable {tree tree' : FileTree} {output : String} {o : Outcome}

end Failures

/-! ## Changes -/

namespace FileTree

end FileTree

end Verdict
