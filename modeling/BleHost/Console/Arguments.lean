import BleHost.Console.Options

/-!
# The command line of the console

The options of the console and of its commands, and what a command line asks for.
-/

namespace BleHost.Console

/-- What the console is to do. -/
inductive Task
  | hello | info | counters | connections
  /-- Scan for some seconds, asking advertisers for more unless only listening. -/
  | discover (seconds : Nat) (passive : Bool)
deriving DecidableEq, Repr

/-- What a command line asks for. -/
structure Arguments where
  port : String
  baud : Nat
  noFlowControl : Bool
  /-- How often more detail was asked for; there is nothing beyond 255 times. -/
  verbosity : Nat
  task : Task
deriving DecidableEq, Repr

/-! ### Numbers -/

/-- The value of a string of decimal digits, of which there must be one. -/
def digits? (text : List Char) : Option Nat :=
  if text.isEmpty || text.any (fun c => !c.isDigit) then none
  else some (text.foldl (fun n c => 10 * n + (c.toNat - '0'.toNat)) 0)

/-- A number with an optional plus sign. -/
def natural? (text : String) : Option Nat :=
  match text.toList with
  | '+' :: rest => digits? rest
  | rest => digits? rest

/-- A number with an optional sign of either kind. -/
def integer? (text : String) : Option Int :=
  match text.toList with
  | '-' :: rest => (digits? rest).map fun n => -(n : Int)
  | _ => (natural? text).map Int.ofNat

/-- A baud rate: a number that 32 bits hold. -/
def baud? (text : String) : Option Nat :=
  match integer? text with
  | some n => if 0 ≤ n ∧ n < UInt32.size then some n.toNat else none
  | none => none

/-- A length of time in seconds: a number that 64 bits hold. -/
def seconds? (text : String) : Option Nat :=
  match natural? text with
  | some n => if n < UInt64.size then some n else none
  | none => none

/-! ### Options and commands -/

/-- The option that asks for help. -/
def helpOption : OptionSpec := { name := "help", letter := some 'h', kind := .help }

/-- The commands of the console. -/
def commandNames : List String := ["hello", "info", "counters", "connections", "discover"]

/-- What may be given in front of a command, and the commands. -/
def outer : OptionSet :=
  { options :=
      [{ name := "port", kind := .valued fun _ => true },
        { name := "baud", kind := .valued fun text => (baud? text).isSome },
        { name := "no-flow-control", kind := .flag },
        { name := "verbose", letter := some 'v', kind := .counted },
        helpOption,
        { name := "version", letter := some 'V', kind := .version }]
    commands := commandNames ++ ["help"] }

/-- What may be given behind a command. -/
def inner (command : String) : OptionSet :=
  if command = "discover" then
    { options :=
        [{ name := "duration", kind := .valued fun text => (seconds? text).isSome },
          { name := "passive", kind := .flag },
          helpOption] }
  else { options := [helpOption] }

/-- The names behind the command `help` must lead to a command; `help` itself is one. -/
def askHelp : List String → UsageError
  | [] => .help
  | [command] => if outer.commands.contains command then .help else .unknownCommand
  | _ :: _ :: _ => .unknownCommand

/-- The value given for an option. -/
def Given.value? (g : Given) (name : String) : Option String :=
  (g.values.find? (·.1 == name)).map (·.2)

/-- The task that a command and the options behind it stand for. -/
def Task.ofCommand (command : String) (g : Given) : Task :=
  match command with
  | "hello" => .hello
  | "info" => .info
  | "counters" => .counters
  | "connections" => .connections
  | _ => .discover (((g.value? "duration").bind seconds?).getD 10) (g.flags.contains "passive")

/-- Read a command line. What is wrong behind the command is found before what is wrong with the
last option in front of it, and what is missing last of all. -/
def Arguments.parse (words : List String) : Except UsageError Arguments := do
  let (given, command) ← scan outer {} words
  let task ← match command with
    | none => pure none
    | some ("help", rest) => throw (askHelp rest)
    | some (command, rest) => do
      let (behind, _) ← scan (inner command) {} rest
      pure (some (Task.ofCommand command (← behind.settle)))
  let given ← given.settle
  match task, given.value? "port" with
  | none, _ => throw (if given.isEmpty then .nothingGiven else .missingCommand)
  | some _, none => throw .missingRequired
  | some task, some port =>
    return {
      port
      baud := ((given.value? "baud").bind baud?).getD 115200
      noFlowControl := given.flags.contains "no-flow-control"
      verbosity := min (given.counts.count "verbose") 255
      task }

end BleHost.Console
