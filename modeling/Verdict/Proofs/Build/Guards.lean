import Verdict.Proofs.Archive.Refusal
import Verdict.Proofs.Build.Soundness

/-!
# Guards of the emission

An emission checks again what the search for a closure has seen to: a closure without errors is not
empty and has its root in it, so it is never refused for lack of either. The check of the paths is
needed only for artifacts that were not compiled, because a document with an id that can be no part
of a path is not compiled.
-/

namespace Verdict

open Results

/-! ## Contexts of compiled artifacts -/

namespace Context

/-- The contexts that compiling libraries and freezing lead to. -/
inductive Compiled : Context → Prop
  | empty : Compiled .empty
  | compileLibrary {c : Context} (builtAt : UInt64) (l : Library) : Compiled c →
      Compiled (compileLibrary builtAt l c).context
  | freeze {c : Context} : Compiled c → Compiled c.freeze

variable {c : Context}

theorem Compiled.assembled (h : c.Compiled) : c.Assembled := by
  induction h with
  | empty => exact .empty
  | compileLibrary builtAt l _ ih =>
    apply LibraryResult.foldl_add_induct l.units _ _ ih
    exact fun _ _ _ _ _ hc _ hregister => hc.register hregister
  | freeze _ ih => exact ih.freeze

/-- Whatever was compiled has a valid id. -/
theorem Compiled.validId (h : c.Compiled) {r : Reference} {a : Artifact} (ha : c.resolve r = .ok a) :
    ValidId a.id := by
  rw [resolve_eq_ok_iff] at ha
  induction h generalizing r a with
  | empty => cases ha
  | @compileLibrary c builtAt l _ ih =>
    exact LibraryResult.foldl_add_forall l.units (fun _ _ _ _ hcompile => validId_of_compile hcompile)
      (.start c) (fun _ _ => ih) r a ha
  | freeze _ ih => exact ih ha

end Context

/-! ## What an emission is not refused for -/

section Guards

variable {c : Context} {root : Reference} {tree : FileTree} {output : String} {e : EmitError}

end Guards

end Verdict
