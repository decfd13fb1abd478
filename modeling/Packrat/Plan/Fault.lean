import Packrat.Plan.Basic

/-!
# Faults

A run can fault instead of failing to match: where the input is read at a position that is not
between two of its characters, where a plan writes a register that does not exist, and where a
number is too large to be stored or added up.
-/

namespace Packrat

/-- What stops a run. -/
inductive Fault where
  /-- The input was read at a position that is not between two of its characters. -/
  | badPosition (pos : Nat)
  /-- A register was written that no plan has. -/
  | badRegister (reg : Reg)
  /-- No set of expectations is large enough for an index. -/
  | badIndex (index : Nat)
  /-- A sum does not fit 32 bits. -/
  | overflow
  deriving DecidableEq, Repr

/-- The text of a fault that has one. -/
def Fault.message? : Fault → Option String
  | badPosition _ | badIndex _ | overflow => none
  | badRegister reg => some s!"plan register {reg.name} out of bounds"

/-- A sum that is kept in 32 bits. -/
def fit (sum : Nat) : Except Fault Nat :=
  if sum < UInt32.size then .ok sum else .error .overflow

theorem fit_of_lt {sum : Nat} (h : sum < UInt32.size) : fit sum = .ok sum :=
  if_pos h

theorem fit_of_not_lt {sum : Nat} (h : ¬ sum < UInt32.size) : fit sum = .error .overflow :=
  if_neg h

end Packrat
