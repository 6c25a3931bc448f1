import PocketConsole.Duration

namespace PocketConsole

/-- Nominal cycles a second. -/
def clockSpeed : Nat :=
  96000

/-- Ticks a second. -/
def tickRate : Nat :=
  30

/-- Cycles a tick at most. -/
def cyclesPerTick : Nat :=
  (clockSpeed * tickRate + 500) / 1000

/-- The length of a tick in milliseconds. -/
def tickLength : Binary64 :=
  .ofNat 1000 / .ofNat tickRate

/-- Time that has passed and has not been turned into ticks yet, in milliseconds. -/
structure Scheduler where
  pending : Binary64
deriving DecidableEq, Repr

namespace Scheduler

/-- No time has passed. -/
def fresh : Scheduler :=
  ⟨.zero⟩

/-- Takes ticks off a time while it is longer than one, and counts them. A time so long that the
rounded difference is no shorter has no count: taking ticks off it never ends. -/
def drain (pending : Binary64) (ticks : Nat) : Option (Nat × Binary64) :=
  if tickLength < pending then drain.uncurry (pending - tickLength, ticks + 1) else some (ticks, pending)
partial_fixpoint monotonicity by
  intro first second below pending ticks
  dsimp only [Function.uncurry]
  split
  · exact below _ _
  · constructor

/-- Adds a span of time and takes off the ticks that are due. -/
def advance (s : Scheduler) (elapsed : Duration) : Option (Nat × Scheduler) :=
  (drain (s.pending + elapsed.toSeconds * .ofNat 1000) 0).map fun (ticks, rest) => (ticks, ⟨rest⟩)

end Scheduler

end PocketConsole
