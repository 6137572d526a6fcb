/-!
# Binary floating-point numbers

Numbers with a fixed count of binary digits, and the rounding of quotients to them. All of it is
exact arithmetic on natural numbers.

## Main definitions

* `Binary`: a number with its sign, mantissa and exponent, an infinity, or no number.
* `Binary.Format`: how many digits a number has and how far its exponent goes.
* `Binary.ofQuotient`: the number of a format nearest to a quotient.
* `Binary.ofDecimal`, `Binary.ofInt`, `Binary.convert`: numbers from other numbers.
-/

namespace DocBlocks

/-- A binary floating-point number. A finite one is its mantissa times the power of two with its
exponent. -/
inductive Binary where
  | finite (negative : Bool) (mantissa : Nat) (exponent : Int)
  | infinite (negative : Bool)
  | nan
  deriving DecidableEq, Repr, Inhabited

namespace Binary

/-- The digits of a mantissa and the range of the exponent. -/
structure Format where
  digits : Nat
  least : Int
  greatest : Int

/-- Numbers of 64 bits. -/
def double : Format := ⟨53, -1074, 971⟩

/-- Numbers of 32 bits. -/
def single : Format := ⟨24, -149, 104⟩

/-- The whole number nearest to a quotient. Of two equally near ones it is the even one. -/
def roundQuotient (num den : Nat) : Nat :=
  let q := num / den
  let r := num % den
  if den < 2 * r ∨ (2 * r = den ∧ q % 2 = 1) then q + 1 else q

/-- A power of a base, 1 if the exponent is negative. -/
def power (base : Nat) (exponent : Int) : Nat := Nat.pow base exponent.toNat

/-- The two terms of a quotient that is `num / den` divided by a power of two. -/
def scaled (num den : Nat) (exponent : Int) : Nat × Nat :=
  (num * power 2 (-exponent), den * power 2 exponent)

/-- The number of a format nearest to a quotient. -/
def ofQuotient (f : Format) (negative : Bool) (num den : Nat) : Binary :=
  if num = 0 then finite negative 0 f.least
  else
    let e : Int := max f.least ((num.log2 : Int) - den.log2 - f.digits)
    let (n, d) := scaled num den e
    let e := if Nat.pow 2 f.digits ≤ n / d then e + 1 else e
    let (n, d) := scaled num den e
    let m := roundQuotient n d
    let (m, e) := if m = Nat.pow 2 f.digits then (Nat.pow 2 (f.digits - 1), e + 1) else (m, e)
    if f.greatest < e then infinite negative else finite negative m e

/-- The number of a format nearest to `digits` times the power of ten with the given exponent.
Beyond the four hundredth power of ten every format is at its end. -/
def ofDecimal (f : Format) (negative : Bool) (digits : Nat) (exponent : Int) : Binary :=
  let leading := exponent + (Nat.toDigits 10 digits).length
  if digits = 0 ∨ leading < -400 then finite negative 0 f.least
  else if 400 < leading then infinite negative
  else ofQuotient f negative (digits * power 10 exponent) (power 10 (-exponent))

/-- The number of a format nearest to a whole number. -/
def ofInt (f : Format) (i : Int) : Binary := ofQuotient f (i < 0) i.natAbs 1

/-- The number of a format nearest to a number. -/
def convert (f : Format) : Binary → Binary
  | finite negative m e => ofQuotient f negative (m * power 2 e) (power 2 (-e))
  | x => x

end Binary

end DocBlocks
