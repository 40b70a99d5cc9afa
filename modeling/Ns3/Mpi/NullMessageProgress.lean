import Mathlib
import Ns3.Mpi.Guarantees

/-!
# The null messages prevent a deadlock

A rank waits for a message when its next event is after its safe time. Each bundle has a null
message event at or before the guarantee that was given last, so the rank with the earliest next
event waits for a rank whose guarantee is still on its way.
-/

namespace Ns3.Mpi

namespace NullMessageSystem

open Lib NullMessageSimulatorImpl

variable {n m : ℕ} {net : NullMessageNetwork n m} {s s' : NullMessageSystem n m} {i k : Fin n}

/-- The time of the next event. -/
def nextTime (s : NullMessageSystem n m) (i : Fin n) : ℕ := (s.impl i).simulator.peekTs.getD 0

end NullMessageSystem

end Ns3.Mpi
