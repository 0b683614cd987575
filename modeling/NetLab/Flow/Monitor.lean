/-
  What FlowMonitor gives the programs of Assignment6 and Assignment8: the five-tuple of a flow and
  its statistics.

  The map of statistics is the list of its entries in the order of the loops. `GetSeconds` is a
  `double` in the source and a rational number here, and so is everything computed from the
  statistics: the arithmetic is exact. The counters are exact integers.
-/
import Mathlib

namespace NetLab.Flow

abbrev FlowId := UInt32

/-- An IPv4 address, by its octets. -/
structure Ipv4Address where
  a : UInt8
  b : UInt8
  c : UInt8
  d : UInt8
deriving DecidableEq, Repr

/-- What the programs read of `Ipv4FlowClassifier::FiveTuple`. -/
structure FiveTuple where
  sourceAddress : Ipv4Address
  destinationAddress : Ipv4Address
  destinationPort : UInt16
deriving DecidableEq, Repr

/-- What they read of `FlowMonitor::FlowStats`. Times are in nanoseconds. -/
structure FlowStats where
  timeFirstTxPacket : Int64
  timeLastRxPacket : Int64
  rxBytes : Nat
  rxPackets : Nat
  lostPackets : Nat
deriving DecidableEq, Repr

/-- `GetSeconds ()`. -/
def getSeconds (t : Int64) : ℚ := t.toInt / 1000000000

end NetLab.Flow
