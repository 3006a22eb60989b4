/-!
# The shortest decimal that reads back

A finite double is `m * 2 ^ q`.  All reals that are nearer to it than to its neighbours form an
interval around it; the ends belong to the interval exactly if `m` is even, because a tie is read
as the even neighbour.  The shortest decimal is the point of the coarsest grid `n * 10 ^ e` with a
point in that interval.  At most two points of that grid lie next to the double; the nearer one is
taken, and of two equally near ones the upper.
-/

namespace FilterEncoding.Number

/-- A positive double `significand * 2 ^ exponent`. -/
structure Binary where
  significand : Nat
  exponent : Int
  deriving Repr, DecidableEq

/-- A positive decimal `digits * 10 ^ exponent`. -/
structure Decimal where
  digits : Nat
  exponent : Int
  deriving Repr, DecidableEq

namespace Binary

/-- The least exponent of a double. -/
def leastExponent : Int := -1074

/-- The double with these bits, without its sign, for bits of a finite double. -/
def ofBits (bits : Nat) : Binary :=
  let fraction : Nat := bits % Nat.pow 2 52
  let biased : Nat := bits / Nat.pow 2 52 % Nat.pow 2 11
  if biased = 0 then ⟨fraction, leastExponent⟩
  else ⟨fraction + Nat.pow 2 52, (biased : Int) + leastExponent - 1⟩

/-- A double with the ends of its interval, all as multiples of one common unit
`numerator / denominator`. -/
structure Scaled where
  lower : Nat
  middle : Nat
  upper : Nat
  /-- Whether the ends belong to the interval. -/
  closed : Bool
  deriving Repr, DecidableEq

/-- The interval of a double in quarters of `2 ^ exponent`.  Below a power of two the neighbour
is only half as far away. -/
def interval (x : Binary) : Scaled where
  lower :=
    4 * x.significand - (if x.significand = Nat.pow 2 52 ∧ leastExponent < x.exponent then 1 else 2)
  middle := 4 * x.significand
  upper := 4 * x.significand + 2
  closed := x.significand % 2 == 0

/-- The factor of the interval and the grid step of `10 ^ e`, as integers with the ratio
`2 ^ (exponent - 2) : 10 ^ e`. -/
def ratio (x : Binary) (e : Int) : Nat × Nat :=
  let q := x.exponent - 2
  (Nat.pow 2 q.toNat * Nat.pow 10 (-e).toNat, Nat.pow 2 (-q).toNat * Nat.pow 10 e.toNat)

/-- Whether `n` steps of the grid lie in the interval of the double. -/
def holds (i : Scaled) (factor step n : Nat) : Bool :=
  if i.closed then i.lower * factor ≤ n * step && n * step ≤ i.upper * factor
  else i.lower * factor < n * step && n * step < i.upper * factor

/-- The grid point of `10 ^ e` next to a double, if it lies in its interval: the nearer one of the
two neighbours, the upper one of two equally near. -/
def onGrid? (x : Binary) (e : Int) : Option Nat :=
  let (factor, step) := x.ratio e
  let i := x.interval
  let below := i.middle * factor / step
  let above := below + 1
  match holds i factor step below, holds i factor step above with
  | true, true =>
      if 2 * (i.middle * factor) < (below + above) * step then some below else some above
  | true, false => some below
  | false, true => some above
  | false, false => none

/-- An exponent of ten above the leading digit of a double. -/
def topExponent (x : Binary) : Int :=
  (x.significand.log2 + 1 + x.exponent) * 30103 / 100000 + 1

/-- Try the grids from `10 ^ e` downwards, at most `tries` of them before the last. -/
def search (x : Binary) : Nat → Int → Decimal
  | 0, e => ⟨(x.onGrid? e).getD 0, e⟩
  | tries + 1, e =>
      match x.onGrid? e with
      | some n => ⟨n, e⟩
      | none => search x tries (e - 1)

/-- The shortest decimal of a double.  Seventeen digits always suffice, and `topExponent` is at
most three grids above the first of them. -/
def shortest (x : Binary) : Decimal :=
  x.search 20 x.topExponent

end Binary

end FilterEncoding.Number
