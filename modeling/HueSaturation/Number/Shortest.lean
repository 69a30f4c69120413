import HueSaturation.Number.Binary32

/-!
# The fewest digits that read back

A finite binary32 float is a dyadic number `m * 2 ^ q`. A decimal reads back as that float when it
lies between the midpoints to its two neighbours, the midpoints included if `m` is even. Among all
decimals that read back, the text of a float takes one on the coarsest power-of-ten grid, and there
the one nearest to the float; two can be equally near. All of it is exact arithmetic on natural
numbers.

* `Tie`          which of two equally near neighbours is taken;
* `Dyadic`       a magnitude `m * 2 ^ q` with the width of the gap below it;
* `Decimal`      a magnitude `digits * 10 ^ exponent`;
* `Dyadic.onGrid?`    the point of one grid that reads back, if there is one;
* `Dyadic.shortest`   the decimal on the coarsest such grid.
-/

namespace HueSaturation

inductive Tie where
  /-- the even one -/
  | toEven
  /-- the larger magnitude -/
  | up
deriving DecidableEq, Repr

/-- Of the equally near neighbours `d` and `d + 1` the upper one is taken. -/
def Tie.takesUpper : Tie → (d : Nat) → Bool
  | toEven, d => d % 2 = 1
  | up, _ => true

/-- The magnitude `mantissa * 2 ^ exponent` of a float. -/
structure Dyadic where
  mantissa : Nat
  exponent : Int
  /-- the next smaller float is only half as far away as the next larger one -/
  narrowBelow : Bool
deriving DecidableEq, Repr

structure Decimal where
  digits : Nat
  exponent : Int
deriving DecidableEq, Repr

def Dyadic.ofFloat32 (x : Float32) : Dyadic :=
  let bits := x.toBits.toNat
  let e := bits / 0x800000 % 0x100
  let f := bits % 0x800000
  if e = 0 then ⟨f, -149, false⟩ else ⟨0x800000 + f, Int.ofNat e - 150, f = 0 && 1 < e⟩

namespace Dyadic

/-- A quarter of the last place of `x` and the grid `10 ^ k` over a common unit: how many units one
quarter and one grid step have. -/
def units (x : Dyadic) (k : Int) : Nat × Nat :=
  (Nat.pow 2 (x.exponent - 2).toNat * Nat.pow 10 (-k).toNat,
    Nat.pow 2 (2 - x.exponent).toNat * Nat.pow 10 k.toNat)

/-- The decimal `d * 10 ^ k` reads back as `x`. -/
def readsBack (x : Dyadic) (k : Int) (d : Nat) : Bool :=
  let (quarter, step) := x.units k
  let low := (4 * x.mantissa - if x.narrowBelow then 1 else 2) * quarter
  let high := (4 * x.mantissa + 2) * quarter
  if x.mantissa % 2 = 0 then low ≤ d * step && d * step ≤ high
  else low < d * step && d * step < high

/-- The point of the grid `10 ^ k` that reads back as `x`: of two such points the nearer, of two
equally near ones that of `tie`. -/
def onGrid? (tie : Tie) (x : Dyadic) (k : Int) : Option Nat :=
  let (quarter, step) := x.units k
  let value := 4 * x.mantissa * quarter
  let d := value / step
  match x.readsBack k d, x.readsBack k (d + 1) with
  | false, false => none
  | true, false => some d
  | false, true => some (d + 1)
  | true, true =>
    let below := value - d * step
    let above := (d + 1) * step - value
    some (if above < below || (below = above && tie.takesUpper d) then d + 1 else d)

/-- The shortest decimal that reads back as `x`. Grids are tried from `10 ^ 38` downwards; binary32
floats need none below `10 ^ -50`. -/
def shortest (tie : Tie) (x : Dyadic) : Decimal :=
  if x.mantissa = 0 then ⟨0, 0⟩
  else
    ((List.range 90).findSome? fun i =>
      let k := 38 - Int.ofNat i
      (x.onGrid? tie k).map fun d => Decimal.mk d k).getD ⟨0, 0⟩

end Dyadic
end HueSaturation
