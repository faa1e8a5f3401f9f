import Mathlib.Algebra.GroupWithZero.Nat

/-!
# Kurul.Numerals

The instances that the numerals of code units and of two parties rest on, and comparing texts, once for
all modules.
-/

instance instNeZeroCodeUnits : NeZero 65536 := ⟨by decide⟩

instance instNeZeroTwo : NeZero 2 := ⟨by decide⟩

instance instLawfulBEqText : LawfulBEq (List (Fin 65536)) := inferInstance
