/-
Feature ids (include/project_features.h) and the compile-time selection
of them (dt_features.h, written by main.py).

# What a macro is worth

Every id is a chain of left shifts of the literal `1`: `(1 << k)` for a
packet feature, `((1 << k) << 32)` for a flow feature. The header's own
comments declare the ids as bits of a 64-bit vector, packet features in
the low half and flow features in the high half; `Feature.value 64`
evaluates the chains at that width (`Feature.value_declared`). C's own
rules give the literal 32 bits, and a shift by 32 or more of a 32-bit
`int` is undefined: `Feature.value 32` is `none` on every flow feature.

# A build

`Build` is what the preprocessor hands the kernel program: the value of
`FEATURES`, the value of each `F_` macro and `FEATURE_NB`. The values are
integers; the program converts them to `__u64` and `__u128` where it
uses them (`Build.features64`, `Build.id128` and so on), which
sign-extends a negative `int`.
-/
import Mathlib.Data.Nat.Count
import Mathlib.Data.List.Basic
import Mathlib.Algebra.Order.Ring.Int

namespace XdpIds

-- ======================================================= the feature ids

/-- The features project_features.h defines. -/
inductive Feature where
  | sPort
  | dPort
  | protocol
  | pktSize
  | dIp
  | sIp
  | iatMean
  | iatTot
  | iatStd
  | sizeMean
  | sizeTot
  | sizeStd
  | pktNb
  | iat
deriving DecidableEq, Repr

namespace Feature

/-- The shift counts of the feature's macro, applied to `1` in order. -/
def shifts : Feature → List Nat
  | .sPort => [0]
  | .dPort => [1]
  | .protocol => [2]
  | .pktSize => [3]
  | .dIp => [4]
  | .sIp => [5]
  | .iatMean => [0, 32]
  | .iatTot => [1, 32]
  | .iatStd => [2, 32]
  | .sizeMean => [3, 32]
  | .sizeTot => [4, 32]
  | .sizeStd => [5, 32]
  | .pktNb => [6, 32]
  | .iat => [7, 32]

/-- The bit of the 64-bit feature vector the header declares for the
feature. -/
def bit (f : Feature) : Nat := f.shifts.sum

/-- The features of the high half of the vector. -/
def isFlow (f : Feature) : Bool := 32 ≤ f.bit

/-- The flow features parse_update computes; the two STD features are
declared but not implemented. -/
def implementedFlow : List Feature :=
  [.sizeMean, .sizeTot, .pktNb, .iat, .iatTot, .iatMean]

/-- dt_features.h as the repository ships it. -/
def shipped : List Feature := [.sPort, .dPort, .protocol, .pktSize]

theorem bit_lt (f : Feature) : f.bit < 64 := by
  cases f <;> decide

/-- No two features share a bit. -/
theorem bit_injective : Function.Injective bit := by
  intro f g h
  cases f <;> cases g <;> first | rfl | exact absurd h (by decide)

end Feature

-- ==================================================== evaluating a macro

/-- `x << k` on signed `w`-bit integers: defined when the count is below
the width and the result is representable. -/
def shl (w : Nat) (x : Int) (k : Nat) : Option Int :=
  if k < w ∧ 0 ≤ x ∧ x * 2 ^ k < 2 ^ (w - 1) then some (x * 2 ^ k) else none

/-- The value of the feature's macro when the literal `1` has `w` bits;
`none` is undefined behaviour. -/
def Feature.value (w : Nat) (f : Feature) : Option Int :=
  f.shifts.foldlM (shl w) 1

/-- At 64 bits every macro is the id the header declares. -/
theorem Feature.value_declared (f : Feature) :
    f.value 64 = some (2 ^ f.bit) := by
  cases f <;> rfl

/-- By C's rules the packet macros are defined, and the same. -/
theorem Feature.value_packet {f : Feature} (hf : f.isFlow = false) :
    f.value 32 = some (2 ^ f.bit) := by
  cases f <;> first | rfl | exact absurd hf (by decide)

/-- By C's rules no flow macro has a value. -/
theorem Feature.value_flow {f : Feature} (hf : f.isFlow = true) :
    f.value 32 = none := by
  cases f <;> first | rfl | exact absurd hf (by decide)

-- ================================================================ builds

/-- `F_RANGE_FLOW`: the 32 most significant bits. -/
def fRangeFlow : BitVec 64 := 0xFFFFFFFF00000000#64

/-- What the preprocessor hands the kernel program. -/
structure Build where
  features : Int
  id : Feature → Int
  featureNb : Nat

namespace Build

/-- `FEATURES` converted to `__u64`. -/
def features64 (b : Build) : BitVec 64 := BitVec.ofInt 64 b.features

/-- `FEATURES` converted to `__u128`. -/
def features128 (b : Build) : BitVec 128 := BitVec.ofInt 128 b.features

/-- A feature macro converted to `__u64`. -/
def id64 (b : Build) (f : Feature) : BitVec 64 := BitVec.ofInt 64 (b.id f)

/-- A feature macro passed as a `__u128` argument. -/
def id128 (b : Build) (f : Feature) : BitVec 128 :=
  BitVec.ofInt 128 (b.id f)

/-- `(FEATURES & (F_S_PORT | F_D_PORT)) != 0`. -/
def portsSelected (b : Build) : Bool :=
  b.features64 &&& (b.id64 .sPort ||| b.id64 .dPort) != 0

/-- `(FEATURES & F_RANGE_FLOW) != 0`. -/
def flowSelected (b : Build) : Bool :=
  b.features64 &&& fRangeFlow != 0

end Build

/-- The number of features a mask selects. -/
def popcount (mask : BitVec 64) : Nat := Nat.count (fun i => mask.getLsbD i) 64

/-- The build for a mask of declared ids, with a slot for each selected
feature. -/
def Build.ofMask (mask : BitVec 64) : Build where
  features := mask.toNat
  id f := 2 ^ f.bit
  featureNb := popcount mask

/-- The `|` of the declared ids of a list of features. -/
def maskOf : List Feature → BitVec 64
  | [] => 0
  | f :: names => BitVec.twoPow 64 f.bit ||| maskOf names

/-- dt_features.h: `FEATURE_NB` is the number of names and `FEATURES`
their `|`. -/
def Build.ofNames (names : List Feature) : Build where
  features := (maskOf names).toNat
  id f := 2 ^ f.bit
  featureNb := names.length

-- ================================================ dt_features.h by C's rules

/-- `|` on two `int`s. -/
def intOr (x y : Int) : Int :=
  (BitVec.ofInt 32 x ||| BitVec.ofInt 32 y).toInt

/-- `FEATURES` by C's rules: the `|` of the selected macros, if each of
them has a value. -/
def featuresByRules (names : List Feature) : Option Int :=
  names.foldlM (fun acc f => (f.value 32).map (intOr acc)) 0

/-- The `int`s a compiler may end up with: C's value where there is one,
any `int` where the shift is undefined. -/
structure Resolution where
  value : Feature → Int
  range : ∀ f, -2 ^ 31 ≤ value f ∧ value f < 2 ^ 31
  rules : ∀ f x, f.value 32 = some x → value f = x

/-- dt_features.h with the macros so resolved. -/
def Build.ofResolution (v : Resolution) (names : List Feature) : Build where
  features := names.foldl (fun acc f => intOr acc (v.value f)) 0
  id := v.value
  featureNb := names.length

end XdpIds
