import FlowGraph.Number.Precision

/-!
# Decimal text of a double

`shortest` finds the fewest decimal digits that still read back as the same double.  A finite
double is `m · 2^q`; the reals that round to it form an interval around it whose ends belong to it
exactly when `m` is even.  On the grid of the multiples of `10^k` only the two neighbours of the
number can be the best choice, so the search goes from coarse grids to fine ones and stops at the
first grid with a neighbour inside the interval.  Everything is compared in whole numbers.

The two layouts at the end (`positional`, `scientific`) are the ones the formats of this library
use: saved documents write every number positionally; messages, printed values and the log switch
to the scientific layout for very small and very large numbers.
-/

namespace FlowGraph

/-- The number `digits · 10 ^ exponent`. -/
structure Decimal where
  digits : Nat
  exponent : Int
deriving DecidableEq, Repr

namespace Decimal

/-- What is chosen when both neighbours on the grid are equally near. -/
inductive Tie
  | even
  | up
deriving DecidableEq, Repr

/-- The reals that round to one double, all scaled by the same positive factor: the value itself
    and the two ends, which belong to the interval when `closed`. -/
structure Interval where
  low : Nat
  value : Nat
  high : Nat
  closed : Bool

namespace Interval

def contains (i : Interval) (x : Nat) : Bool :=
  if i.closed then i.low ≤ x && x ≤ i.high else i.low < x && x < i.high

/-- The best multiple of `step` inside the interval, if a neighbour of the value is inside. -/
def pick? (i : Interval) (tie : Tie) (step : Nat) : Option Nat :=
  let below := i.value / step
  let gapBelow := i.value - below * step
  let gapAbove := (below + 1) * step - i.value
  match i.contains (below * step), i.contains ((below + 1) * step) with
  | false, false => none
  | true, false => some below
  | false, true => some (below + 1)
  | true, true =>
    if gapBelow < gapAbove then some below
    else if gapAbove < gapBelow then some (below + 1)
    else match tie with
      | .up => some (below + 1)
      | .even => some (if below % 2 = 0 then below else below + 1)

end Interval

/-- The double `m · 2^q` with its rounding interval, and the grid step `10^k`, in common whole
    units.  Below a power of two the doubles lie twice as dense, so the lower end is nearer. -/
def onGrid (m : Nat) (q k : Int) : Interval × Nat :=
  let binary := Nat.pow 2 (q - 2).toNat * Nat.pow 10 (-k).toNat
  let below := if m = 0x10000000000000 && q > -1074 then 1 else 2
  (⟨(4 * m - below) * binary, 4 * m * binary, (4 * m + 2) * binary, m % 2 = 0⟩,
    Nat.pow 10 k.toNat * Nat.pow 2 (2 - q).toNat)

/-- Searches the grids `10^k`, `10^(k-1)`, … for the first with a hit. -/
def search (tie : Tie) (m : Nat) (q : Int) : Nat → Int → Decimal
  | 0, k => ⟨m, k⟩
  | steps + 1, k =>
    let (interval, step) := onGrid m q k
    match interval.pick? tie step with
    | some digits => ⟨digits, k⟩
    | none => search tie m q steps (k - 1)

/-- The fewest digits that read back as `m · 2^q`, nearest to it among those.  Seventeen digits
    always suffice, and the first grid tried is coarser than the number itself. -/
def shortest (tie : Tie) (m : Nat) (q : Int) : Decimal :=
  let magnitude := (m.log2 + q) * 30103 / 100000
  search tie m q 22 (magnitude + 2)

/-- The digits of the decimal, most significant first. -/
def figures (d : Decimal) : List Char :=
  Nat.toDigits 10 d.digits

/-- The same decimal for the purpose of rounding: an exponent so large or so small that the result
    is an infinity or zero anyway is brought nearer, so that no power of ten becomes huge. -/
def tamed (d : Decimal) : Decimal :=
  { d with exponent := max (-400 - d.figures.length) (min 400 d.exponent) }

/-- The double nearest to the decimal, ties to even. -/
def toFloat (d : Decimal) (negative : Bool) : Float :=
  let t := d.tamed
  let x := Float.ofScientific t.digits (t.exponent < 0) t.exponent.natAbs
  if negative then -x else x

/-- The single nearest to the decimal, rounded once. -/
def toFloat32 (d : Decimal) (negative : Bool) : Float32 :=
  let t := d.tamed
  let x := Float32.ofScientific t.digits (t.exponent < 0) t.exponent.natAbs
  if negative then -x else x

/-- The exponent of the first digit: `3` for `1234`. -/
def leading (d : Decimal) : Int :=
  d.figures.length - 1 + d.exponent

/-- All digits before and after the point, with at least one on each side. -/
def positional (d : Decimal) : String :=
  let cs := d.figures
  if d.exponent ≥ 0 then
    String.ofList (cs ++ List.replicate d.exponent.toNat '0') ++ ".0"
  else
    let whole := cs.length - d.exponent.natAbs
    if whole = 0 then
      String.ofList ("0.".toList ++ List.replicate (d.exponent.natAbs - cs.length) '0' ++ cs)
    else
      String.ofList (cs.take whole ++ '.' :: cs.drop whole)

/-- One digit before the point, the rest after it if there are any, and the exponent, which has
    `plus` before it where it is not negative. -/
def scientific (plus : String) (d : Decimal) : String :=
  let fraction := match d.figures.drop 1 with
    | [] => ""
    | cs => String.ofList ('.' :: cs)
  let sign := if d.leading < 0 then "-" else plus
  String.ofList (d.figures.take 1) ++ fraction ++ "e" ++ sign ++ toString d.leading.natAbs

end Decimal

namespace Number

/-- Lays out a double: its sign, then its shortest digits as `layout` writes them. -/
def write (tie : Decimal.Tie) (layout : Decimal → String) (x : Float) : String :=
  let signed (sign : Float.Model.UnpackedFloat.Sign) (s : String) :=
    match sign with
    | .negative => "-" ++ s
    | .positive => s
  match x.toModel.unpack with
  | .notANumber => "NaN"
  | .infinity sign => signed sign "inf"
  | .zero sign => signed sign "0.0"
  | .finite sign m q _ => signed sign (layout (Decimal.shortest tie m q))

/-- Text of a double in messages and printed values: positional from `1e-5` up to `1e16`, and
    scientific outside. -/
def text : Float → String :=
  write .even fun d =>
    if -5 ≤ d.leading && d.leading < 16 then d.positional else d.scientific "+"

/-- Text of a double in the log: positional from `1e-4` up to `1e16`, and outside scientific with
    no sign before a positive exponent.  A tie goes up. -/
def logText : Float → String :=
  write .up fun d =>
    if -4 ≤ d.leading && d.leading < 16 then d.positional else d.scientific ""

/-- Text of a double in a saved document: always positional. -/
def documentText : Float → String :=
  write .up Decimal.positional

end Number

end FlowGraph
