import DeviceLock.WireName

namespace DeviceLock

inductive FinalizationState
  | unfinalized | unreported | finalized
  deriving DecidableEq, Repr, Inhabited

inductive FinalizationEvent
  | restrictionsCleared | reportAcknowledged
  deriving DecidableEq, Repr

namespace FinalizationState

def name : FinalizationState → String
  | unfinalized => "UNFINALIZED"
  | unreported => "FINALIZED_UNREPORTED"
  | finalized => "FINALIZED"

instance : WireName FinalizationState where
  kind := "finalization state"
  all := [unfinalized, unreported, finalized]
  name := name

end FinalizationState

namespace FinalizationEvent

def name : FinalizationEvent → String
  | restrictionsCleared => "RESTRICTIONS_CLEARED"
  | reportAcknowledged => "REPORT_ACKNOWLEDGED"

instance : WireName FinalizationEvent where
  kind := "finalization event"
  all := [restrictionsCleared, reportAcknowledged]
  name := name

end FinalizationEvent

namespace FinalizationState

def next : FinalizationState → FinalizationEvent → Option FinalizationState
  | unfinalized, .restrictionsCleared => some unreported
  | unreported, .restrictionsCleared => some unreported
  | finalized, .restrictionsCleared => some finalized
  | unreported, .reportAcknowledged => some finalized
  | _, .reportAcknowledged => none

def rank : FinalizationState → Nat
  | unfinalized => 0
  | unreported => 1
  | finalized => 2

end FinalizationState

end DeviceLock
