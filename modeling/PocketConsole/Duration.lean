import PocketConsole.Binary64

namespace PocketConsole

/-- A span of time: whole seconds, and nanoseconds that do not make up a second. -/
structure Duration where
  seconds : UInt64
  nanoseconds : Fin 1000000000
deriving DecidableEq, Repr

namespace Duration

/-- No time. -/
def zero : Duration :=
  ⟨0, 0⟩

/-- The span of a number of nanoseconds. -/
def ofNanoseconds (n : Nat) : Duration :=
  ⟨UInt64.ofNat (n / 1000000000), ⟨n % 1000000000, Nat.mod_lt _ (by decide)⟩⟩

/-- The span of a number of seconds, to the nearest nanosecond; none from 2 ^ 64 seconds on. -/
def ofSeconds? (x : Binary64) : Option Duration :=
  if x.units < UInt64.size * Binary64.oneUnits then
    some (ofNanoseconds (nearestNat (x.units * 1000000000) Binary64.oneUnits))
  else none

/-- The span in seconds, each of the two sums rounded. -/
def toSeconds (d : Duration) : Binary64 :=
  .ofNat d.seconds.toNat + .ofNat d.nanoseconds / .ofNat 1000000000

end Duration

end PocketConsole
