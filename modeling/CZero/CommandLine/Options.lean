import CZero.Text.Quoted

/-!
# Options

Arguments that start with a dash are options, up to the first other argument or a
double dash; a dash alone is no option. One dash is as good as two. A value follows
after an equals sign, or, for options that need one, as the next argument. Switches
are on unless a value says otherwise.
-/

namespace CZero.CommandLine

/-- What the options ask for. -/
structure Options where
  /-- The configuration file; if empty, the nearest one. -/
  config : Bytes := []
  /-- Whether to write an image of the program. -/
  writeImage : Bool := false
  /-- Whether to print the result. -/
  printResult : Bool := false
  /-- How much more to log. -/
  verbosity : Nat := 0
deriving DecidableEq, Repr

/-- The switches. -/
inductive Switch where
  /-- Write an image of the program. -/
  | cache
  /-- Print the result. -/
  | printResult
  /-- Log more; it can be given several times. -/
  | verbose
deriving DecidableEq, Repr

/-- The name of a switch. -/
def Switch.name : Switch → Bytes
  | .cache => utf8 "cache"
  | .printResult => utf8 "print-result"
  | .verbose => utf8 "v"

/-- The switch with a name. -/
def Switch.ofName? (name : Bytes) : Option Switch :=
  [Switch.cache, .printResult, .verbose].find? (·.name == name)

/-- Set a switch. Asking to log more counts; asking not to changes nothing. -/
def Switch.set (o : Options) : Switch → Bool → Options
  | .cache, b => { o with writeImage := b }
  | .printResult, b => { o with printResult := b }
  | .verbose, b => if b then { o with verbosity := o.verbosity + 1 } else o

/-- Why arguments are refused. -/
inductive OptionError where
  /-- The options are asked for. -/
  | help
  /-- An argument with three dashes, or without a name. -/
  | badForm (arg : Bytes)
  /-- There is no such option. -/
  | undefined (name : Bytes)
  /-- A value is missing. -/
  | needsValue (name : Bytes)
  /-- A value that is no truth value. -/
  | badSwitch (s : Switch) (value : Bytes)
deriving DecidableEq, Repr

/-- What is wrong with a value that is no truth value. -/
def Switch.complaint (value : Bytes) : Switch → Bytes
  | .verbose => utf8 "strconv.ParseBool: parsing " ++ Text.quote value ++ utf8 ": invalid syntax"
  | _ => utf8 "parse error"

/-- The text of an error, as a line of its own. -/
def OptionError.message : OptionError → Bytes
  | .help => []
  | .badForm arg => utf8 "bad flag syntax: " ++ arg ++ utf8 "\n"
  | .undefined name => utf8 "flag provided but not defined: -" ++ name ++ utf8 "\n"
  | .needsValue name => utf8 "flag needs an argument: -" ++ name ++ utf8 "\n"
  | .badSwitch s value =>
    utf8 "invalid boolean value " ++ Text.quote value ++ utf8 " for -" ++ s.name ++ utf8 ": "
      ++ s.complaint value ++ utf8 "\n"

/-- How to use the program. -/
def usage : Bytes :=
  utf8 ("Usage: c0vm [options] <program.bc0|program.bc0c>\n\nOptions:\n"
    ++ "  -cache\n    \tWrite a .bc0c image next to the loaded .bc0 file\n"
    ++ "  -config string\n    \tConfiguration file (default: nearest c0vm.toml)\n"
    ++ "  -print-result\n    \tPrint the value returned by main\n"
    ++ "  -v\tIncrease log verbosity (repeatable)\n")

/-- A truth value. -/
def truth? (value : Bytes) : Option Bool :=
  if (["1", "t", "T", "true", "TRUE", "True"].map utf8).contains value then some true
  else if (["0", "f", "F", "false", "FALSE", "False"].map utf8).contains value then some false
  else none

/-- The dash. -/
def dash : UInt8 := 0x2D

/-- The equals sign. -/
def equals : UInt8 := 0x3D

/-- The name of an option and its value, if it has one. The first byte belongs to the
    name in any case. -/
def splitValue (body : Bytes) : Bytes × Option Bytes :=
  let name := body.take 1 ++ (body.drop 1).takeWhile (· != equals)
  match body.drop name.length with
  | [] => (name, none)
  | _ :: value => (name, some value)

/-- What an argument is. -/
inductive Arg where
  /-- No option. -/
  | plain
  /-- The end of the options. -/
  | stop
  /-- An option without a proper name. -/
  | badForm
  /-- An option, perhaps with a value. -/
  | option (name : Bytes) (value : Option Bytes)
deriving DecidableEq, Repr

/-- Tell what an argument is. -/
def Arg.ofBytes (arg : Bytes) : Arg :=
  if arg.length < 2 || arg.head? != some dash then .plain
  else if arg == [dash, dash] then .stop
  else
    let body := if arg.take 2 == [dash, dash] then arg.drop 2 else arg.drop 1
    if body.head? == some dash || body.head? == some equals then .badForm
    else
      let (name, value) := splitValue body
      .option name value

/-- Set a switch, with a value if one is given. -/
def setSwitch (o : Options) (s : Switch) (value : Option Bytes) : Except OptionError Options :=
  match value with
  | none => .ok (s.set o true)
  | some v => match truth? v with
    | some b => .ok (s.set o b)
    | none => .error (.badSwitch s v)

/-- The options in arguments, after those already read, and the other arguments. -/
def parseFrom (o : Options) : List Bytes → Except OptionError (Options × List Bytes)
  | [] => .ok (o, [])
  | arg :: args => match Arg.ofBytes arg with
    | .plain => .ok (o, arg :: args)
    | .stop => .ok (o, args)
    | .badForm => .error (.badForm arg)
    | .option name value => match Switch.ofName? name with
      | some s => match setSwitch o s value with
        | .error e => .error e
        | .ok o => parseFrom o args
      | none =>
        if name == utf8 "config" then match value with
          | some v => parseFrom { o with config := v } args
          | none => match args with
            | v :: args => parseFrom { o with config := v } args
            | [] => .error (.needsValue name)
        else if name == utf8 "help" || name == utf8 "h" then .error .help
        else .error (.undefined name)

/-- The options in arguments, and the other arguments. -/
def parse (args : List Bytes) : Except OptionError (Options × List Bytes) :=
  parseFrom {} args

end CZero.CommandLine
