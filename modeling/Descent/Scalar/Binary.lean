import Descent.Scalar

/-!
The two machine formats. A count enters binary32 through binary64, so it is rounded twice.
-/

namespace Descent

instance : Scalar Float where
  zero := 0.0
  one := 1.0
  natCast := Float.ofNat
  lessDecidable := inferInstance
  atMostDecidable := inferInstance
  abs := Float.abs
  sqrt := Float.sqrt
  isFinite := Float.isFinite
  epsilon := Float.ofBits 0x3cb0000000000000

instance : Unbounded Float where
  infinity := Float.ofBits 0x7ff0000000000000
  bytes := 8

instance : Scalar Float32 where
  zero := 0.0
  one := 1.0
  natCast count := (Float.ofNat count).toFloat32
  lessDecidable := inferInstance
  atMostDecidable := inferInstance
  abs := Float32.abs
  sqrt := Float32.sqrt
  isFinite := Float32.isFinite
  epsilon := Float32.ofBits 0x34000000

instance : Unbounded Float32 where
  infinity := Float32.ofBits 0x7f800000
  bytes := 4

end Descent
