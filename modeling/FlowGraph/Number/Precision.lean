/-!
# Two precisions

A pin carries single-precision numbers and a document carries double-precision ones.  The two
conversions are written on the logical form of a float (`toModel.unpack`: a sign, a mantissa and an
exponent), because the built-in conversions have no equations a proof could use.  `widen` loses
nothing, since every single is a double; `narrow` rounds to nearest, ties to even, and gives an
infinity beyond the largest single.
-/

namespace FlowGraph.Number

open Float.Model (Format UnpackedFloat)

/-- The number of the given format nearest to `x`; infinities, zeros and NaN stay what they are. -/
def refit (format : Format) : UnpackedFloat → UnpackedFloat
  | .finite sign mantissa exponent _ => UnpackedFloat.round format sign mantissa exponent
  | x => x

/-- The double with the value of `x`. -/
def widen (x : Float32) : Float :=
  .ofModel (.pack (refit .binary64 x.toModel.unpack))

/-- The single nearest to `x`. -/
def narrow (x : Float) : Float32 :=
  .ofModel (.pack (refit .binary32 x.toModel.unpack))

/-- Whether `x` is neither infinite nor NaN. -/
def isFinite (x : Float) : Bool :=
  match x.toModel.unpack with
  | .finite .. | .zero _ => true
  | .infinity _ | .notANumber => false

end FlowGraph.Number
