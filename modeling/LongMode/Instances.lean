/-!
# Preferred instances

Other libraries bring instances of their own for powers, sums, numerals below a bound and the equality of byte arrays.
Here those of the core language are preferred, so that a definition means the same whatever is imported beside it.
-/

namespace LongMode

@[default_instance 20000]
instance (priority := 2000) powNat : Pow Nat Nat := @instPowNat Nat instNatPowNat

@[default_instance 15000]
instance (priority := 2000) powInt : Pow Int Nat := @instPowNat Int Int.instNatPow

instance (priority := 2000) zeroNat : Zero Nat := ⟨0⟩

instance (priority := 2000) zeroInt : Zero Int := ⟨0⟩

instance (priority := 2000) neZero_four : NeZero 4 := ⟨by decide⟩

instance (priority := 2000) neZero_eight : NeZero 8 := ⟨by decide⟩

instance (priority := 2000) neZero_sixteen : NeZero 16 := ⟨by decide⟩

instance (priority := 2000) decidableEqByteArray : DecidableEq ByteArray := ByteArray.instDecidableEq

end LongMode
