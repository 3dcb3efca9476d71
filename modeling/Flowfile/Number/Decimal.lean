import Flowfile.Number.Double
import Flowfile.Text.Basic

/-!
Decimal numbers and their texts: reading a decimal literal, the shortest decimal that reads back as
a given binary number, and the layouts in which decimals are written.
-/

namespace Flowfile

/-- The number `digits * 10 ^ power`. -/
structure Decimal where
  digits : Nat
  power : Int
  deriving DecidableEq

namespace Decimal

def toDouble (negative : Bool) (d : Decimal) : Double := .ofDecimal negative d.digits d.power

/-- Drops zeros at the end of the digits, at most `fuel` of them. -/
def trim : Nat → Decimal → Decimal
  | 0, d => d
  | fuel + 1, d =>
    if d.digits ≠ 0 && d.digits % 10 = 0 then trim fuel ⟨d.digits / 10, d.power + 1⟩ else d

/-- Splits `[digits][.digits][e[sign]digits]` into the digits and the power of ten they are scaled
by; the caller has checked the form. -/
def ofLiteral (text : Text) : Decimal :=
  let whole := text.takeWhile Text.isAsciiDigit
  let afterWhole := text.dropWhile Text.isAsciiDigit
  let fraction :=
    match afterWhole with
    | '.' :: rest => rest.takeWhile Text.isAsciiDigit
    | _ => []
  let afterFraction :=
    match afterWhole with
    | '.' :: rest => rest.dropWhile Text.isAsciiDigit
    | rest => rest
  let power : Int :=
    match afterFraction with
    | _ :: '-' :: rest => -(Text.readDigits 10 rest : Int)
    | _ :: '+' :: rest => Text.readDigits 10 rest
    | _ :: rest => Text.readDigits 10 rest
    | [] => 0
  ⟨Text.readDigits 10 (whole ++ fraction), power - fraction.length⟩

def decimalLength (n : Nat) : Nat := (Nat.toDigits 10 n).length

/-- The exponent `k` with `10 ^ (k - 1) ≤ num / den < 10 ^ k`. -/
def size (num den : Nat) : Int :=
  let guess : Int := (decimalLength num : Int) - decimalLength den
  let (n, d) := Double.scale 10 num den (-guess)
  if d ≤ n then guess + 1 else guess

/-- Of the two decimals with `count` digits around `num / den`, the one that reads back as `rank`;
of two, the nearer, and the even one of two equally near. -/
def readingBack? (rank num den : Nat) (count : Nat) : Option Decimal :=
  let power : Int := size num den - count
  let (n, d) := Double.scale 10 num den (-power)
  let low : Decimal := ⟨n / d, power⟩
  let high : Decimal := ⟨n / d + 1, power⟩
  let reads (candidate : Decimal) : Bool :=
    (candidate.toDouble false).place = some (rank : Int)
  let nearest := if Double.roundDiv n d = n / d then low else high
  if reads low && reads high then some nearest
  else if reads low then some low
  else if reads high then some high
  else none

/-- The shortest decimal that reads back as the finite number of rank `rank`. Seventeen digits
always do. -/
def shortest (rank : Nat) : Decimal :=
  let (num, den) := Double.scale 2 (Double.significand rank) 1 (Double.exponent rank)
  match (List.range 17).findSome? (fun count => readingBack? rank num den (count + 1)) with
  | some d => trim 17 d
  | none => ⟨0, 0⟩

end Decimal

structure Layout where
  /-- Least position of the decimal point, relative to the first digit, that is written out. -/
  leastPoint : Int
  greatestPoint : Int
  /-- Whether a whole number keeps `.0`. -/
  keepsPoint : Bool
  exponentWidth : Nat

namespace Layout

/-- Positional from `1e-6` to below `1e21`, whole numbers without a point. -/
def expression : Layout := ⟨-5, 21, false, 1⟩

/-- Positional from `1e-4` to below `1e16`, whole numbers with `.0`. -/
def json : Layout := ⟨-3, 16, true, 2⟩

/-- Writes a decimal whose digits do not end in zero. -/
def write (layout : Layout) (d : Decimal) : Text :=
  let digits := Text.ofNat d.digits
  let count : Int := digits.length
  let point := d.power + count
  if point < layout.leastPoint || layout.greatestPoint < point then
    let power := point - 1
    let mantissa :=
      match digits with
      | first :: second :: rest => first :: '.' :: second :: rest
      | short => short
    let exponent := Text.ofNat power.natAbs
    mantissa ++ ['e', if 0 ≤ power then '+' else '-'] ++
      List.replicate (layout.exponentWidth - exponent.length) '0' ++ exponent
  else if count ≤ point then
    digits ++ List.replicate (point - count).toNat '0' ++
      (if layout.keepsPoint then ['.', '0'] else [])
  else if 0 < point then
    digits.take point.toNat ++ '.' :: digits.drop point.toNat
  else
    '0' :: '.' :: List.replicate (-point).toNat '0' ++ digits

/-- The text of a number; `zero` is written for either zero, with the sign if `signedZero`. -/
def writeDouble (layout : Layout) (zero : Text) (signedZero : Bool) : Double → Text
  | .nan => Text.of "NaN"
  | .infinite negative => Text.of (if negative then "-Infinity" else "Infinity")
  | .finite negative rank =>
    if rank.val = 0 then
      if negative && signedZero then '-' :: zero else zero
    else
      let body := layout.write (Decimal.shortest rank)
      if negative then '-' :: body else body

end Layout

def Double.toText (d : Double) : Text := Layout.expression.writeDouble ['0'] false d

def Double.toJson (d : Double) : Text := Layout.json.writeDouble (Text.of "0.0") true d

end Flowfile
