import ConstFold.Decimal

/-!
# Faults

What goes wrong when an operation is called outside its domain.  A fault is kept as its cause; `message`
alone knows the wording.  One cause is a value that is absent: `Perhaps α` is a value or the way in which it is
absent, and requiring a value turns its absence into a fault.
-/

namespace ConstFold

/-- The two ways in which a value can be absent: given as nothing, or not given. -/
inductive Absence where
  | null
  | missing
deriving DecidableEq, Repr, Inhabited

def Absence.text : Absence → Text
  | .null => "null"
  | .missing => "undefined"

inductive Fault where
  /-- A number was expected to be an integer of safe size. -/
  | unsafeInteger (value : Binary64)
  | negativeExponent (exponent : Int)
  | absentValue (absence : Absence)
  /-- A fault with a text of its own. -/
  | stated (text : Text := "")
deriving DecidableEq, Repr, Inhabited

def Fault.message : Fault → Text
  | .unsafeInteger value => value.text ++ " is not a safe integer."
  | .negativeExponent e => "Negative exponent " ++ toString e ++ " is not supported."
  | .absentValue a => "Value is asserted to be not null, but it is " ++ a.text ++ "."
  | .stated text => text

/-! ## Values that may be absent -/

abbrev Perhaps (α : Type) := Except Absence α

namespace Perhaps

variable {α β : Type}

def isPresent : Perhaps α → Bool
  | .ok _ => true
  | .error _ => false

def require : Perhaps α → Except Fault α
  | .ok a => .ok a
  | .error absence => .error (.absentValue absence)

/-- The pairs of two lists up to the end of the shorter one.  Both members of each pair are required; the first
absent one decides the fault. -/
def zipPresent : List (Perhaps α) → List (Perhaps β) → Except Fault (List (α × β))
  | a? :: as, b? :: bs => do
    let a ← a?.require
    let b ← b?.require
    let rest ← zipPresent as bs
    return (a, b) :: rest
  | _, _ => .ok []

end Perhaps

end ConstFold
