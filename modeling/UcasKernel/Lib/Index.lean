/-
Numerals of the index types.

A numeral of `Fin n` rests on `NeZero n`.  The tables of a system have a few fixed
sizes; with an instance for each of them a numeral is the same term in every
module, whatever else that module imports.
-/
import Mathlib.Algebra.GroupWithZero.Nat

namespace UcasKernel

instance neZero_2 : NeZero 2 := ⟨by decide⟩
instance neZero_16 : NeZero 16 := ⟨by decide⟩
instance neZero_64 : NeZero 64 := ⟨by decide⟩
instance neZero_512 : NeZero 512 := ⟨by decide⟩

end UcasKernel
