import DeviceLock.WireName

namespace DeviceLock

inductive Alarm
  | setupCompletionTimeout | criticalEnforcementRetry | finalizationReportRetry
  deriving DecidableEq, Repr

namespace Alarm

def name : Alarm → String
  | setupCompletionTimeout => "SETUP_COMPLETION_TIMEOUT"
  | criticalEnforcementRetry => "CRITICAL_ENFORCEMENT_RETRY"
  | finalizationReportRetry => "FINALIZATION_REPORT_RETRY"

instance : WireName Alarm where
  kind := "recovery alarm"
  all := [setupCompletionTimeout, criticalEnforcementRetry, finalizationReportRetry]
  name := name

end Alarm

end DeviceLock
