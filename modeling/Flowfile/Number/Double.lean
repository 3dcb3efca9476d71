/-!
Binary floating-point numbers of 64 bits, as exact data.

A finite number is a sign and a rank: its place in the increasing sequence of the finite numbers
that are not negative. The rank fixes significand and exponent, so every operation here is
arithmetic on natural numbers and integers.
-/

namespace Flowfile

/-- How many numbers there are from one power of two to the next: `2 ^ 52`. -/
abbrev Double.binade : Nat := 0x10000000000000

/-- How many finite numbers of one sign there are; this rank stands for infinity. -/
def Double.limit : Nat := 2047 * Double.binade

inductive Double
  | nan
  | infinite (negative : Bool)
  | finite (negative : Bool) (rank : Fin Double.limit)
  deriving DecidableEq

namespace Double

def zero (negative : Bool) : Double := .finite negative ⟨0, by decide⟩

/-- A finite number of rank `rank` has the magnitude `significand * 2 ^ exponent`. -/
def significand (rank : Nat) : Nat :=
  if rank / binade = 0 then rank else binade + rank % binade

def exponent (rank : Nat) : Int :=
  if rank / binade = 0 then -1074 else (rank / binade : Nat) - 1075

/-- Numerator and denominator of `num / den * base ^ power`. -/
def scale (base num den : Nat) (power : Int) : Nat × Nat :=
  if 0 ≤ power then (num * Nat.pow base power.toNat, den)
  else (num, den * Nat.pow base (-power).toNat)

/-- The quotient rounded to the nearest natural number, a half to the even one. -/
def roundDiv (num den : Nat) : Nat :=
  let quotient := num / den
  let twice := 2 * (num % den)
  if den < twice || (twice = den && quotient % 2 = 1) then quotient + 1 else quotient

def leadingBit (num den : Nat) : Int :=
  let guess : Int := (Nat.log2 num : Int) - Nat.log2 den
  let (n, d) := scale 2 num den (-guess)
  if d ≤ n then guess else guess - 1

/-- The number nearest to `num / den`; a tie goes to the even significand, and what is nearest to
the first power of two beyond the range is infinite. -/
def ofRatio (negative : Bool) (num den : Nat) : Double :=
  if num = 0 then zero negative
  else
    let power : Int := max (-1074) (leadingBit num den - 52)
    let (n, d) := scale 2 num den (-power)
    let rank := (power + 1074).toNat * binade + roundDiv n d
    if inRange : rank < limit then .finite negative ⟨rank, inRange⟩ else .infinite negative

def ofInt (i : Int) : Double := ofRatio (i < 0) i.natAbs 1

/-- The number nearest to `digits * 10 ^ power`. A power far outside the range decides by itself and
is not computed; a number below `2 ^ -1076` is nearest to zero. -/
def ofDecimal (negative : Bool) (digits : Nat) (power : Int) : Double :=
  if digits = 0 then zero negative
  else if 310 < power then .infinite negative
  else if (Nat.log2 digits : Int) + 1077 < -3 * power then zero negative
  else
    let (n, d) := scale 10 digits 1 power
    ofRatio negative n d

def isNan : Double → Bool
  | .nan => true
  | _ => false

def isFinite : Double → Bool
  | .finite _ _ => true
  | _ => false

/-- Place in the order of the numbers; both zeros have one place and NaN has none. -/
def place : Double → Option Int
  | .nan => none
  | .infinite negative => some (if negative then -(limit : Int) else limit)
  | .finite negative rank => some (if negative then -(rank.val : Int) else rank.val)

/-- Whether both numbers have a place and `rel` holds of the two. -/
def related (rel : Int → Int → Bool) (left right : Double) : Bool :=
  match left.place, right.place with
  | some a, some b => rel a b
  | _, _ => false

def eq (left right : Double) : Bool := related (· == ·) left right

def lt (left right : Double) : Bool := related (fun a b => a < b) left right

def le (left right : Double) : Bool := related (fun a b => a ≤ b) left right

def toInt? : Double → Option Int
  | .finite negative rank =>
    let (n, d) := scale 2 (significand rank) 1 (exponent rank)
    if n % d = 0 then some (if negative then -((n / d : Nat) : Int) else (n / d : Nat)) else none
  | _ => none

end Double

end Flowfile
