namespace PocketConsole

/-- The byte a set flag is written as. -/
def high : UInt8 := 255

/-- The byte a clear flag is written as. -/
def low : UInt8 := 0

/-- Any byte but zero counts as a set flag. -/
def isHigh (v : UInt8) : Bool :=
  1 ≤ v

end PocketConsole
