namespace PocketConsole

/-- A 16-bit index as a big-endian pair of bytes. -/
structure Address where
  high : UInt8
  low : UInt8
deriving DecidableEq, Inhabited, Repr

namespace Address

/-- The index that a pair names. -/
def toUInt16 (a : Address) : UInt16 :=
  a.high.toUInt16 * 256 + a.low.toUInt16

/-- The pair that names an index. -/
def ofUInt16 (v : UInt16) : Address :=
  ⟨(v / 256).toUInt8, v.toUInt8⟩

/-- The first token. -/
def origin : Address :=
  ⟨0, 0⟩

theorem toNat_toUInt16 (a : Address) :
    a.toUInt16.toNat = 256 * a.high.toNat + a.low.toNat := by
  have h := a.high.toNat_lt
  have l := a.low.toNat_lt
  simp only [toUInt16, UInt16.toNat_add, UInt16.toNat_mul, UInt8.toNat_toUInt16, UInt16.reduceToNat]
  omega

theorem toNat_high_ofUInt16 (v : UInt16) : (ofUInt16 v).high.toNat = v.toNat / 256 := by
  have h := v.toNat_lt
  simp only [ofUInt16, UInt16.toNat_toUInt8, UInt16.toNat_div, UInt16.reduceToNat]
  omega

theorem toNat_low_ofUInt16 (v : UInt16) : (ofUInt16 v).low.toNat = v.toNat % 256 := by
  simp only [ofUInt16, UInt16.toNat_toUInt8]

/-- Splitting and joining are inverse. -/
theorem toUInt16_ofUInt16 (v : UInt16) : (ofUInt16 v).toUInt16 = v := by
  apply UInt16.toNat_inj.1
  rw [toNat_toUInt16, toNat_high_ofUInt16, toNat_low_ofUInt16]
  omega

end Address

end PocketConsole
