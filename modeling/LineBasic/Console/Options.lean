import LineBasic.Console.Plain
import LineBasic.Display.Screen
import LineBasic.Session

/-!
# Command line

The arguments are read from left to right, and the first problem or the request
for help decides. A value may follow its option after an equals sign, in the same
argument, or as the next argument. In the second case it is looked at only when
the next option is reached, or at the end; an argument that fits nowhere is the
more urgent problem.
-/

namespace LineBasic

/-- How the console is set up. -/
structure Options where
  columns : Nat := Screen.defaultColumns
  rows : Nat := Screen.defaultRows
  /-- How many statements are executed between looks at the keyboard. -/
  cycles : Nat := Session.defaultBudget
  /-- Whether pictures are drawn. -/
  graphics : Bool := false
  /-- Whether text is styled in its colors. -/
  color : Bool := true
  deriving DecidableEq, Repr

namespace Options

/-- An option that takes a number. -/
inductive Setting where
  | columns
  | rows
  | cycles
  deriving DecidableEq, Repr

/-- Whatever an argument may switch. -/
inductive Switch where
  | setting (s : Setting)
  | graphics
  | noColor
  | help
  deriving DecidableEq, Repr

namespace Switch

def all : List Switch :=
  [setting .columns, setting .rows, setting .cycles, graphics, noColor, help]

/-- The name, which two hyphens precede. -/
def name : Switch → String
  | setting .columns => "columns"
  | setting .rows => "rows"
  | setting .cycles => "cycles"
  | graphics => "graphics"
  | noColor => "no-color"
  | help => "help"

/-- The switch as messages show it, with the name of its value. -/
def usage : Switch → String
  | setting .columns => "--columns <COLUMNS>"
  | setting .rows => "--rows <ROWS>"
  | setting .cycles => "--cycles <CYCLES>"
  | graphics => "--graphics"
  | noColor => "--no-color"
  | help => "--help"

def ofName? (t : Text) : Option Switch := all.find? (·.name.toList == t)

end Switch

/-- Why a value is no number. -/
inductive BadNumber where
  | empty
  | digit
  | tooLarge
  deriving DecidableEq, Repr

def BadNumber.reason : BadNumber → String
  | empty => "cannot parse integer from empty string"
  | digit => "invalid digit found in string"
  | tooLarge => "number too large to fit in target type"

/-- Why the arguments cannot be followed. -/
inductive UsageError where
  | unexpected (argument : Text)
  | missingValue (s : Setting)
  | invalidValue (s : Setting) (value : Text) (why : BadNumber)
  | unexpectedValue (s : Switch) (value : Text)
  | repeated (s : Switch)
  deriving DecidableEq, Repr

/-- A part of the command line as a message quotes it. -/
def quoted (t : Text) : String := "'" ++ String.ofList (Plain.ofText t) ++ "'"

def UsageError.message : UsageError → String
  | unexpected argument => "error: unexpected argument " ++ quoted argument ++ " found"
  | missingValue s =>
    "error: a value is required for '" ++ (Switch.setting s).usage ++ "' but none was supplied"
  | invalidValue s value why =>
    "error: invalid value " ++ quoted value ++ " for '" ++ (Switch.setting s).usage ++ "': " ++
      why.reason
  | unexpectedValue s value =>
    "error: unexpected value " ++ quoted value ++ " for '" ++ s.usage ++
      "' found; no more were expected"
  | repeated s => "error: the argument '" ++ s.usage ++ "' cannot be used multiple times"

inductive Request where
  | start (o : Options)
  | help
  deriving DecidableEq, Repr

/-- Reads digits onto a number, as long as it stays below `2 ^ 64`. -/
def readDigits (n : Nat) : Text → Except BadNumber Nat
  | [] => .ok n
  | c :: t =>
    if c.isDigit then
      if 10 * n + (c.toNat - '0'.toNat) < 2 ^ 64 then readDigits (10 * n + (c.toNat - '0'.toNat)) t
      else .error .tooLarge
    else .error .digit

/-- Reads a number, with a plus sign before it or none. -/
def readNumber : Text → Except BadNumber Nat
  | [] => .error .empty
  | ['+'] => .error .digit
  | '+' :: t => readDigits 0 t
  | t => readDigits 0 t

def set (o : Options) (n : Nat) : Setting → Options
  | .columns => { o with columns := n }
  | .rows => { o with rows := n }
  | .cycles => { o with cycles := n }

/-- What was read of the arguments so far. -/
structure Reading where
  options : Options := {}
  /-- The switches that were taken. -/
  given : List Switch := []
  /-- The last option, if it is still to be taken, with its value, if it has one. -/
  pending : Option (Setting × Option Text) := none
  deriving DecidableEq, Repr

namespace Reading

/-- Notes that a switch is taken, which it may be once. -/
def take (r : Reading) (s : Switch) : Except UsageError Reading :=
  if s ∈ r.given then .error (.repeated s) else .ok { r with given := s :: r.given }

/-- Takes an option with its value. -/
def assign (r : Reading) (s : Setting) (value : Text) : Except UsageError Reading := do
  let r ← r.take (.setting s)
  match readNumber value with
  | .error why => .error (.invalidValue s value why)
  | .ok n => .ok { r with options := r.options.set n s }

/-- Takes the pending option. -/
def settle (r : Reading) : Except UsageError Reading :=
  match r.pending with
  | none => .ok r
  | some (s, none) => .error (.missingValue s)
  | some (s, some value) => assign { r with pending := none } s value

def parse (r : Reading) : List Text → Except UsageError Request
  | [] => do return .start (← r.settle).options
  | ['-', '-'] :: rest =>
    match rest with
    | [] => do return .start (← r.settle).options
    | argument :: _ => .error (.unexpected argument)
  | ('-' :: '-' :: long) :: rest =>
    let name := long.takeWhile (· != '=')
    match Switch.ofName? name, (long.dropWhile (· != '=')).tail? with
    | none, _ => .error (.unexpected ('-' :: '-' :: name))
    | some (.setting s), none => do parse { ← r.settle with pending := some (s, none) } rest
    | some (.setting s), some value => do parse (← (← r.settle).assign s value) rest
    | some s, some value => .error (.unexpectedValue s value)
    | some .help, none => do
      let _ ← r.settle
      return .help
    | some .graphics, none => do
      let r ← (← r.settle).take .graphics
      parse { r with options := { r.options with graphics := true } } rest
    | some .noColor, none => do
      let r ← (← r.settle).take .noColor
      parse { r with options := { r.options with color := false } } rest
  | ('-' :: c :: _) :: _ =>
    if c = 'h' then do
      let _ ← r.settle
      return .help
    else .error (.unexpected ['-', c])
  | value :: rest =>
    -- a value belongs to the option right before it, and each option has one only
    match r.pending with
    | some (s, none) => parse { r with pending := some (s, some value) } rest
    | _ => .error (.unexpected value)

end Reading

/-- Reads the command line. -/
def parse (arguments : List Text) : Except UsageError Request := Reading.parse {} arguments

def help : String :=
  "A line-numbered BASIC with text and pixel graphics\n\n" ++
  "Usage: retro [OPTIONS]\n\n" ++
  "Options:\n" ++
  "      --columns <COLUMNS>  Text grid width in characters [default: 40]\n" ++
  "      --rows <ROWS>        Text grid height in characters [default: 20]\n" ++
  "      --cycles <CYCLES>    Statements executed between checks for Ctrl-C [default: 5000]\n" ++
  "      --graphics           Draw the pixel surface after a command changes it\n" ++
  "      --no-color           Ignore COLOR when styling terminal text\n" ++
  "  -h, --help               Print help\n"

end Options

end LineBasic
