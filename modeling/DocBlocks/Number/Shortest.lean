import DocBlocks.Number.Binary
import DocBlocks.Text.Basic

/-!
# Shortest decimals

A number of 64 bits is written with the fewest decimal digits that read back as the same number. Of
two such decimals the nearer one is taken, and the greater one if both are equally near. The digits
are laid out with a decimal point and without an exponent.

## Main definitions

* `Shortest.readsBack`: whether a decimal is rounded to a number.
* `Shortest.digits`: the shortest decimal of a number.
* `Binary.text`: a number written out.
-/

namespace DocBlocks

namespace Shortest

/-- The mantissa and the exponent of a number with as many digits of the format as it can have. -/
def normal (m : Nat) (e : Int) : Nat × Int :=
  let spare := Binary.double.digits - (m.log2 + 1)
  let k := min spare (e - Binary.double.least).toNat
  (m * Nat.pow 2 k, e - k)

/-- Whether `num / den` lies among the numbers that are rounded to `m` times the power of two with
exponent `e`. The neighbour below a power of two is only half as far away as the one above. -/
def readsBack (m : Nat) (e : Int) (num den : Nat) : Bool :=
  let narrow := m = Nat.pow 2 (Binary.double.digits - 1) ∧ Binary.double.least < e
  let (n, d) := Binary.scaled num den (e - 2)
  let low := (if narrow then 4 * m - 1 else 4 * m - 2) * d
  let high := (4 * m + 2) * d
  (low < n && n < high) || (m % 2 = 0 && (n = low || n = high))

/-- The two terms of `d` times the power of ten with exponent `g`. -/
def decimal (d : Nat) (g : Int) : Nat × Nat := (d * Binary.power 10 g, Binary.power 10 (-g))

/-- The exponent of the leading decimal digit of a positive quotient. -/
def leading (num den : Nat) : Int :=
  if den ≤ num then ((Nat.toDigits 10 (num / den)).length : Int) - 1
  else -((Nat.toDigits 10 ((den - 1) / num)).length : Int)

/-- The decimal with `count` digits that reads back as `num / den`, if there is one. -/
def withDigits? (m : Nat) (e : Int) (num den : Nat) (count : Nat) : Option (Nat × Int) :=
  let g := leading num den - count + 1
  let (n, d) := (num * Binary.power 10 (-g), den * Binary.power 10 g)
  let below := n / d
  let fits (k : Nat) : Bool := readsBack m e (decimal k g).1 (decimal k g).2
  let nearer := if n % d * 2 < d then [below, below + 1] else [below + 1, below]
  (nearer.find? fits).map (·, g)

/-- The shortest decimal of a positive number, as its digits and an exponent of ten. Seventeen
digits always suffice. -/
def digits (m : Nat) (e : Int) : Nat × Int :=
  let (m, e) := normal m e
  let (num, den) := (m * Binary.power 2 e, Binary.power 2 (-e))
  ((List.range 17).findSome? fun i => withDigits? m e num den (i + 1)).getD (num, 0)

/-- Digits laid out with a decimal point that stands `-g` digits from their end. -/
def layout (d : Nat) (g : Int) : Text :=
  let ds := Nat.toDigits 10 d
  if 0 ≤ g then ds ++ List.replicate g.toNat '0' ++ ['.', '0']
  else
    let places := (-g).toNat
    let ds := List.replicate (places + 1 - ds.length) '0' ++ ds
    ds.take (ds.length - places) ++ ['.'] ++ ds.drop (ds.length - places)

end Shortest

/-- A number written out: the shortest decimal, `inf` or `nan`. -/
def Binary.text : Binary → Text
  | finite negative m e =>
    let (d, g) := if m = 0 then (0, 0) else Shortest.digits m e
    (if negative then ['-'] else []) ++ Shortest.layout d g
  | infinite negative => (if negative then ['-'] else []) ++ "inf".toList
  | nan => "nan".toList

end DocBlocks
