/-!
# Command-line options

How a list of words is taken apart into options and a command. An option is `--name`, with its value
in the next word or behind an equals sign, or a single letter; letters may be run together. A value
is looked at only when the next option comes, or at the end, so that a mistake further on may be
found before a bad value. After a word `--` nothing is an option or a command any more.
-/

namespace BleHost.Console

/-- Why a command line is not carried out. -/
inductive UsageError
  /-- An option that has to be given is not. -/
  | missingRequired
  /-- No command is given. -/
  | missingCommand
  /-- Nothing is given at all. -/
  | nothingGiven
  /-- A word stands where only a command can, and is none. -/
  | unknownCommand
  /-- A word is neither an option nor expected in its place. -/
  | unknownArgument
  /-- An option comes without its value. -/
  | missingValue
  /-- A value is not of its option's kind. -/
  | badValue
  /-- An option that may be given once is given again. -/
  | repeated
  /-- An option that takes no value is given one. -/
  | unwantedValue
  /-- The list of options is asked for. -/
  | help
  /-- The version is asked for. -/
  | version
deriving DecidableEq, Repr

/-- What giving an option means. -/
inductive OptionKind
  /-- It has a value, of which only some texts are good. -/
  | valued (isGood : String → Bool)
  | flag
  /-- It may be given any number of times. -/
  | counted
  | help
  | version

/-- An option. -/
structure OptionSpec where
  name : String
  letter : Option Char := none
  kind : OptionKind

/-- The options and the commands that may be given in one place. -/
structure OptionSet where
  options : List OptionSpec
  commands : List String := []

namespace OptionSet

/-- The mistake that a word makes that is neither an option nor a command. -/
def stray (v : OptionSet) : UsageError :=
  if v.commands.isEmpty then .unknownArgument else .unknownCommand

/-- The option with a name. -/
def byName? (v : OptionSet) (name : String) : Option OptionSpec :=
  v.options.find? (·.name == name)

/-- The option with a letter. -/
def byLetter? (v : OptionSet) (letter : Char) : Option OptionSpec :=
  v.options.find? (·.letter == some letter)

end OptionSet

/-- An option that has been named but not yet looked at, with its value once that has come. -/
structure Pending where
  name : String
  isGood : String → Bool
  value : Option String := none

/-- What has been given so far: options with their values, how often each counted option was given,
and the option still to be looked at. -/
structure Given where
  values : List (String × String) := []
  flags : List String := []
  counts : List String := []
  pending : Option Pending := none

namespace Given

/-- Whether anything has been given. -/
def isEmpty (g : Given) : Bool := g.values.isEmpty && g.flags.isEmpty && g.counts.isEmpty

/-- Whether the next word may be the value of an option. -/
def owesValue (g : Given) : Bool := g.pending.any (·.value.isNone)

/-- Take the next word for the value that is owed. -/
def supply (g : Given) (word : String) : Given :=
  { g with pending := g.pending.map fun p => { p with value := some word } }

/-- Look at an option and its value. -/
def enter (g : Given) (p : Pending) : Except UsageError Given :=
  match p.value with
  | none => .error .missingValue
  | some value =>
    if g.values.any (·.1 == p.name) then .error .repeated
    else if p.isGood value then .ok { g with values := g.values ++ [(p.name, value)] }
    else .error .badValue

/-- Look at the option that has not been looked at yet. -/
def settle (g : Given) : Except UsageError Given :=
  match g.pending with
  | none => .ok g
  | some p => { g with pending := none }.enter p

/-- Take in an option that comes without a value. -/
def occur (g : Given) (o : OptionSpec) : Except UsageError Given := do
  let g ← g.settle
  match o.kind with
  | .valued isGood => return { g with pending := some { name := o.name, isGood } }
  | .flag =>
    if g.flags.contains o.name then throw .repeated
    else return { g with flags := g.flags ++ [o.name] }
  | .counted => return { g with counts := g.counts ++ [o.name] }
  | .help => throw .help
  | .version => throw .version

/-- Take in an option that comes with a value behind an equals sign. -/
def assign (g : Given) (o : OptionSpec) (value : String) : Except UsageError Given :=
  match o.kind with
  | .valued isGood => do (← g.settle).enter { name := o.name, isGood, value := some value }
  | _ => .error .unwantedValue

/-- Take in options run together, letter by letter. -/
def letters (v : OptionSet) (g : Given) : List Char → Except UsageError Given
  | [] => .ok g
  | letter :: rest => do
    match v.byLetter? letter with
    | some o => letters v (← g.occur o) rest
    | none => throw .unknownArgument

end Given

/-- A word as it looks, whatever it means in its place. -/
inductive Word
  | dashes
  | named (name : String) (value : Option String)
  | lettered (letters : List Char)
  | plain

/-- How a word looks. A single dash is a plain word. -/
def Word.ofString (word : String) : Word :=
  match word.toList with
  | ['-', '-'] => .dashes
  | '-' :: '-' :: rest =>
    match rest.dropWhile (· != '=') with
    | [] => .named (String.ofList rest) none
    | _ :: value =>
      .named (String.ofList (rest.takeWhile (· != '='))) (some (String.ofList value))
  | '-' :: letter :: rest => .lettered (letter :: rest)
  | _ => .plain

/-- Take words in up to a command, and give what was found: the options, the command if there is
one, and the words behind it. -/
def scan (v : OptionSet) (g : Given) :
    List String → Except UsageError (Given × Option (String × List String))
  | [] => .ok (g, none)
  | word :: rest =>
    if !g.owesValue && v.commands.contains word then .ok (g, some (word, rest))
    else match Word.ofString word with
      | .dashes =>
        match rest with
        | [] => .ok (g, none)
        | next :: _ => .error (if v.commands.contains next then .unknownArgument else v.stray)
      | .named name value =>
        match v.byName? name, value with
        | none, _ => .error .unknownArgument
        | some o, some value => do scan v (← g.assign o value) rest
        | some o, none => do scan v (← g.occur o) rest
      | .lettered letters => do scan v (← g.letters v letters) rest
      | .plain => if g.owesValue then scan v (g.supply word) rest else .error v.stray

end BleHost.Console
