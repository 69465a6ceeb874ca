import BleHost.Console.Arguments

/-!
# How the console is used

What the console says instead of carrying out a command line.
-/

namespace BleHost.Console

/-- The name of the program. -/
def programName : String := "bgapi-console"

/-- The forms that a command line takes. -/
def synopsis : String := "Usage: " ++ programName ++ " [OPTIONS] --port <PORT> <COMMAND>\n"

/-- The list of commands and options. -/
def helpText : String :=
  "bgapi console -- talks to a BGAPI module from the command line\n\n" ++ synopsis ++ "\n" ++
  "Commands:\n" ++
  "  hello        Check that the module answers\n" ++
  "  info         Print firmware version and device address\n" ++
  "  counters     Read and reset the packet counters\n" ++
  "  connections  Print the number of connections the module supports\n" ++
  "  discover     Scan for advertising devices\n" ++
  "  help         Print this message or the help of the given subcommand(s)\n\n" ++
  "Options:\n" ++
  "      --port <PORT>      Serial port path (e.g. /dev/ttyACM0, COM3)\n" ++
  "      --baud <BAUD>      Baud rate. Ignored by USB CDC dongles [default: 115200]\n" ++
  "      --no-flow-control  Disable RTS/CTS flow control\n" ++
  "  -v, --verbose...       Increase log verbosity (-v debug, -vv trace)\n" ++
  "  -h, --help             Print help\n" ++
  "  -V, --version          Print version\n"

/-- Whether nothing is wrong with a command line that is not carried out. -/
def UsageError.isWish : UsageError → Bool
  | .help | .version => true
  | _ => false

/-- What is wrong with a command line. -/
def UsageError.complaint : UsageError → String
  | .missingRequired => "the following required arguments were not provided: --port <PORT>"
  | .missingCommand => "a subcommand is required but one was not provided"
  | .unknownCommand => "unrecognized subcommand"
  | .unknownArgument => "unexpected argument found"
  | .missingValue => "a value is required for an option but none was supplied"
  | .badValue => "invalid value for an option"
  | .repeated => "an argument cannot be used multiple times"
  | .unwantedValue => "unexpected value for an option that takes none"
  | .nothingGiven | .help | .version => ""

/-- What the console says about a command line. -/
def UsageError.text : UsageError → String
  | .help | .nothingGiven => helpText
  | .version => programName ++ " 0.1.0\n"
  | e => "error: " ++ e.complaint ++ "\n\n" ++ synopsis

end BleHost.Console
