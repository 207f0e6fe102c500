/-!
# Shortest decimals

The shortest decimal that reads back as a floating-point number: of all decimals that round to it, those on the coarsest
grid, and of these the nearest. Arithmetic is exact.
-/

namespace StyleHoist

/-! ## Numbers -/

/-- A positive binary number, `mantissa` times two to the power `exponent`. -/
structure Binary where
  mantissa : Nat
  exponent : Int
deriving DecidableEq, Repr

/-- A decimal number, `digits` times ten to the power `exponent`. -/
structure Decimal where
  digits : Nat
  exponent : Int
deriving DecidableEq, Repr

namespace Binary

/-- The least mantissa of a normal double: a one before the 52 bits of its fraction. -/
def leastNormal : Nat :=
  0x10000000000000

/-- The magnitude of the finite double with these bits: a sign, 11 bits of exponent, and the fraction. -/
def ofBits (bits : Nat) : Binary :=
  let fraction : Nat := bits % leastNormal
  let exponent : Nat := bits / leastNormal % 0x800
  if exponent = 0 then ⟨fraction, -1074⟩ else ⟨leastNormal + fraction, Int.ofNat exponent - 1075⟩

/-- How far the numbers that round to this one reach down, in quarters of the last place. At a power of two the doubles
below lie closer. -/
def reachDown (b : Binary) : Nat :=
  if b.mantissa = leastNormal && -1074 < b.exponent then 1 else 2

/-- Whether the ends of the interval of numbers that round to this one belong to it. -/
def endsCount (b : Binary) : Bool :=
  b.mantissa % 2 == 0

/-- Two raised to a quarter of the last place, over ten to the power `k`, as a quotient of whole numbers. -/
def quarterOver (b : Binary) (k : Int) : Nat × Nat :=
  (Nat.pow 2 (b.exponent - 2).toNat * Nat.pow 10 (-k).toNat, Nat.pow 2 (2 - b.exponent).toNat * Nat.pow 10 k.toNat)

/-- Whether `d` times ten to the power `k` rounds to this number. -/
def admits (b : Binary) (k : Int) (d : Nat) : Bool :=
  let (num, den) := b.quarterOver k
  let low := (4 * b.mantissa - b.reachDown) * num
  let high := (4 * b.mantissa + 2) * num
  if b.endsCount then low ≤ d * den && d * den ≤ high else low < d * den && d * den < high

/-- The number on the grid of ten to the power `k` that is nearest of those that round to this one. -/
def nearest? (b : Binary) (k : Int) : Option Decimal :=
  let (num, den) := b.quarterOver k
  let scaled := 4 * b.mantissa * num
  let below := scaled / den
  match b.admits k below, b.admits k (below + 1) with
  | false, false => none
  | true, false => some ⟨below, k⟩
  | false, true => some ⟨below + 1, k⟩
  | true, true =>
    let rest := 2 * (scaled % den)
    if rest < den || (rest = den && below % 2 = 0) then some ⟨below, k⟩ else some ⟨below + 1, k⟩

/-- The shortest decimal that reads back, zero for zero. -/
def shortest (b : Binary) : Decimal :=
  if b.mantissa = 0 then ⟨0, 0⟩
  else ((List.range 700).findSome? fun i => b.nearest? (310 - Int.ofNat i)).getD ⟨0, 0⟩

end Binary

/-! ## Text -/

/-- Where positional notation ends: numbers with at most `wholeDigits` digits before the point and fewer than `zeros`
zeros behind it are written in full. -/
structure DecimalLayout where
  wholeDigits : Nat
  zeros : Nat

/-- `n` zeros. -/
def zeros (n : Nat) : List Char :=
  List.replicate n '0'

/-- A whole number as text. -/
def integerText (n : Int) : List Char :=
  if n < 0 then '-' :: Nat.toDigits 10 n.natAbs else Nat.toDigits 10 n.natAbs

/-- A decimal as text. -/
def Decimal.text (layout : DecimalLayout) (d : Decimal) : List Char :=
  let digits := Nat.toDigits 10 d.digits
  let point := (digits.length : Int) + d.exponent
  if 0 < point && point ≤ layout.wholeDigits then
    if 0 ≤ d.exponent then digits ++ zeros d.exponent.toNat ++ ['.', '0']
    else digits.take point.toNat ++ '.' :: digits.drop point.toNat
  else if point ≤ 0 && -(layout.zeros : Int) < point then '0' :: '.' :: zeros (-point).toNat ++ digits
  else
    match digits with
    | [] => []
    | [d] => d :: 'e' :: integerText (point - 1)
    | d :: ds => d :: '.' :: ds ++ 'e' :: integerText (point - 1)

/-- The text of a finite double. -/
def floatText (layout : DecimalLayout) (f : Float) : List Char :=
  let bits := f.toBits.toNat
  (if 0x8000000000000000 ≤ bits then ['-'] else []) ++ (Binary.ofBits bits).shortest.text layout

end StyleHoist
