namespace PocketConsole

/-- What stops an operation of the host: a sum that does not fit its word. -/
inductive Fault
  | addOverflow
deriving DecidableEq, Repr

/-- The wording of a fault. -/
def Fault.message : Fault → String
  | .addOverflow => "attempt to add with overflow"

end PocketConsole
