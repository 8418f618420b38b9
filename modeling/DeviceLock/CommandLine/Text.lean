import DeviceLock.CommandLine.Run
import DeviceLock.Engine.StatusJson
import DeviceLock.Json.Printer
import DeviceLock.Json.Sorted

namespace DeviceLock.CommandLine

def usage : String :=
  "Usage: devlock [OPTIONS] <COMMAND>\n\n" ++
  "Commands:\n" ++
  "  status          Print provision, device, and finalization state\n" ++
  "  event <EVENT>   Raise a provisioning event\n" ++
  "  lock            Lock the device\n" ++
  "  unlock          Unlock the device\n" ++
  "  clear           Clear all restrictions and finalize\n" ++
  "  enforce         Re-enforce policy for the current state\n" ++
  "  setup-complete  Out-of-box setup finished\n" ++
  "  user-unlocked   The active user unlocked the device\n" ++
  "  ready           The check-in service allows provisioning\n" ++
  "  alarm <ALARM>   Fire a recovery alarm\n" ++
  "  help            Print this message\n\n" ++
  "Options:\n" ++
  "      --config <CONFIG>   Engine configuration (YAML)\n" ++
  "      --store <STORE>     JSON state document\n" ++
  "      --json              Emit logs as JSON\n" ++
  "      --setup-incomplete  Report out-of-box setup as incomplete\n" ++
  "      --user-locked       Report the active user as locked\n" ++
  "  -h, --help              Print help\n" ++
  "  -V, --version           Print version"

def version : String := "devlock 0.1.0"

namespace Outcome

def printed? : Outcome → Option String
  | help => some usage
  | version => some CommandLine.version
  | done s => some s.toJson.sorted.pretty
  | misuse | failed _ | terminated => none

def complaint? : Outcome → Option String
  | misuse => some usage
  | failed text => some text
  | help | version | done _ | terminated => none

end Outcome

end DeviceLock.CommandLine
