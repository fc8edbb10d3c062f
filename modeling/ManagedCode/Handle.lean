import ManagedCode.Text.Numeral

/-!
# Handles

A handle names a heap object by the index of its entry and the generation of that entry. The
generation changes when the entry is emptied, so a handle to a reclaimed object is recognised as
stale instead of naming the next object in the same entry.
-/

namespace ManagedCode

/-- A reference to a heap object. -/
structure Handle where
  /-- The index of the entry. -/
  index : UInt32
  /-- How often the entry had been emptied when the handle was given out, modulo `2 ^ 32`. -/
  generation : UInt32
  deriving DecidableEq, Repr, Inhabited

/-- The written form, such as `@3.0`. -/
def Handle.text (h : Handle) : String :=
  "@" ++ Text.natText h.index.toNat ++ "." ++ Text.natText h.generation.toNat

end ManagedCode
