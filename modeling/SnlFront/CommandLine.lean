import SnlFront.Text.DecimalDigit
import SnlFront.Text.Quoted

/-!
# The command line

The compiler takes one file and three flags. Flags may stand before or behind the file; a flag may
be shortened to any beginning that fits one flag only; behind a lone `--` nothing is a flag. What
looks like a flag and is none is collected and refused at the end, after a missing file.

## Main definitions

* `Flag`: the flags.
* `Argument`, `Argument.classify`: what an argument is.
* `Request`: what the compiler is asked for.
* `Request.ofArguments`: read the arguments.
* `Refusal.message`: why arguments are refused.
-/

namespace SnlFront.CommandLine

/-- The flags. -/
inductive Flag
  | help
  | tokens
  | ast
deriving DecidableEq, Repr

namespace Flag

/-- All flags. -/
def all : List Flag := [.help, .tokens, .ast]

/-- The long name of a flag. -/
def name : Flag → String
  | .help => "--help"
  | .tokens => "--tokens"
  | .ast => "--ast"

/-- All names of a flag, as messages give them. -/
def names : Flag → String
  | .help => "-h/--help"
  | .tokens => "--tokens"
  | .ast => "--ast"

end Flag

/-- What an argument is. -/
inductive Argument
  /-- A value: the file. -/
  | value
  | flag (flag : Flag)
  /-- A flag with a value, which no flag takes. -/
  | overfull (flag : Flag) (text : String)
  /-- The beginning of several flags. -/
  | ambiguous (flags : List Flag)
  /-- What looks like a flag and is none. -/
  | unknown
deriving DecidableEq, Repr

/-- Why arguments are refused. -/
inductive Refusal
  | ambiguous (argument : String) (flags : List Flag)
  | overfull (flag : Flag) (text : String)
  | noInput
  | unrecognized (arguments : List String)
  | wrongExtension
deriving DecidableEq, Repr

/-- The wording of a refusal. -/
def Refusal.message : Refusal → String
  | .ambiguous argument flags =>
    "ambiguous option: " ++ argument ++ " could match " ++ ", ".intercalate (flags.map Flag.name)
  | .overfull flag text =>
    "argument " ++ flag.names ++ ": ignored explicit argument " ++ Text.quoted text
  | .noInput => "the following arguments are required: input"
  | .unrecognized arguments => "unrecognized arguments: " ++ " ".intercalate arguments
  | .wrongExtension => "input filename must end with the .snl extension"

namespace Argument

/-- Whether some characters are digits only, and at least one. -/
def isNumeral (cs : List Char) : Bool := !cs.isEmpty && cs.all Text.isDigit

/-- Whether what follows a minus sign makes a number: digits, or a decimal point with digits behind
it. A line feed at the end does not count. -/
def isNumber (cs : List Char) : Bool :=
  let cs := if cs.getLast? = some '\n' then cs.dropLast else cs
  isNumeral cs ||
    (match cs.dropWhile Text.isDigit with
      | '.' :: fraction => isNumeral fraction
      | _ => false)

/-- An argument that starts with a minus sign but names no flag: negative numbers and texts with a
blank are values. -/
def classifyStranger (cs : List Char) : Argument :=
  if isNumber cs || cs.contains ' ' then .value else .unknown

/-- Letters behind `-h` are taken for further short flags. Of these only `h` exists; anything else
is a value, and help takes none. -/
def classifyCluster : List Char → Argument
  | [] => .flag .help
  | 'h' :: cs => classifyCluster cs
  | cs => .overfull .help (String.ofList cs)

/-- What follows `-h`. An equals sign sets off what follows from the flag, be it empty. -/
def classifyShort : List Char → Argument
  | ['='] => .overfull .help ""
  | '=' :: cs => classifyCluster cs
  | cs => classifyCluster cs

/-- What follows `--`. -/
def classifyLong (cs : List Char) : Argument :=
  let stem := '-' :: '-' :: cs.takeWhile (· != '=')
  match Flag.all.filter fun f => stem.isPrefixOf f.name.toList with
  | [] => classifyStranger ('-' :: cs)
  | [f] =>
    match cs.dropWhile (· != '=') with
    | [] => .flag f
    | _ :: text => .overfull f (String.ofList text)
  | flags => .ambiguous flags

/-- What an argument is; the lone `--` is dealt with before. -/
def classify (argument : String) : Argument :=
  match argument.toList with
  | ['-'] => .value
  | '-' :: '-' :: cs => classifyLong cs
  | '-' :: 'h' :: cs => classifyShort cs
  | '-' :: cs => classifyStranger cs
  | _ => .value

end Argument

/-- What has been gathered from the arguments. -/
structure Gathered where
  tokens : Bool
  ast : Bool
  input : Option String
  strangers : List String
deriving DecidableEq, Repr

/-- Why reading the arguments ends early. -/
inductive Stop
  | help
  | refused (refusal : Refusal)
deriving DecidableEq, Repr

namespace Gathered

/-- Before the first argument. -/
def start : Gathered := ⟨false, false, none, []⟩

/-- Add arguments that belong nowhere. -/
def addStrangers (g : Gathered) (arguments : List String) : Gathered :=
  { g with strangers := g.strangers ++ arguments }

/-- Add what follows the lone `--`. If there is no file yet, the next argument is the file, and
otherwise the `--` itself belongs nowhere. -/
def addRest (g : Gathered) (arguments : List String) : Gathered :=
  match g.input, arguments with
  | none, input :: others => { g with input := some input }.addStrangers others
  | _, _ => g.addStrangers ("--" :: arguments)

/-- Add arguments one after the other. A lone `--` right behind the file belongs to it. -/
def addAll (g : Gathered) : List String → Except Stop Gathered
  | [] => .ok g
  | argument :: arguments =>
    if argument = "--" then .ok (g.addRest arguments)
    else
      match Argument.classify argument with
      | .value =>
        match g.input with
        | some _ => (g.addStrangers [argument]).addAll arguments
        | none =>
          let g := { g with input := some argument }
          match arguments with
          | "--" :: others => .ok (g.addStrangers others)
          | arguments => g.addAll arguments
      | .flag .help => .error .help
      | .flag .tokens => { g with tokens := true }.addAll arguments
      | .flag .ast => { g with ast := true }.addAll arguments
      | .overfull flag text => .error (.refused (.overfull flag text))
      | .ambiguous flags => .error (.refused (.ambiguous argument flags))
      | .unknown => (g.addStrangers [argument]).addAll arguments

end Gathered

/-- What the compiler is asked for. -/
structure Request where
  tokens : Bool
  ast : Bool
  input : String
deriving DecidableEq, Repr

/-- The part of a path behind its last slash. -/
def baseName (cs : List Char) : List Char := (cs.reverse.takeWhile (· != '/')).reverse

/-- The extension of a path, with its dot. Dots at the start of a name belong to no extension. -/
def extension (cs : List Char) : List Char :=
  let name := baseName cs
  let ending := (name.reverse.takeWhile (· != '.')).reverse
  let stem := name.take (name.length - ending.length - 1)
  if name.contains '.' && stem.any (· != '.') then '.' :: ending else []

/-- Whether a path has the extension of source files, in letters of any case. -/
def isSource (path : String) : Bool :=
  (extension path.toList).map Char.toLower = ".snl".toList

/-- The first argument that is the beginning of several flags. -/
def ambiguity? (arguments : List String) : Option Refusal :=
  (arguments.takeWhile (· != "--")).findSome? fun argument =>
    match Argument.classify argument with
    | .ambiguous flags => some (.ambiguous argument flags)
    | _ => none

/-- Read the arguments. -/
def Request.ofArguments (arguments : List String) : Except Stop Request :=
  match ambiguity? arguments with
  | some refusal => .error (.refused refusal)
  | none => do
    let g ← Gathered.start.addAll arguments
    match g.input with
    | none => .error (.refused .noInput)
    | some input =>
      if !g.strangers.isEmpty then .error (.refused (.unrecognized g.strangers))
      else if isSource input then .ok ⟨g.tokens, g.ast, input⟩
      else .error (.refused .wrongExtension)

example : Argument.classify "--tok" = .flag .tokens := by decide +kernel
example : Argument.classify "-help" = .overfull .help "elp" := by decide +kernel
example : isSource "a/.b.SNL" = true ∧ isSource ".snl" = false := by decide +kernel

/-! ## Texts -/

/-- How the compiler is called. -/
def usage (program : String) : String :=
  "usage: " ++ program ++ " [-h] [--tokens] [--ast] input\n"

/-- What the arguments mean. -/
def help (program : String) : String :=
  usage program ++
    "\n" ++
    "positional arguments:\n" ++
    "  input       input file (.snl)\n" ++
    "\n" ++
    "options:\n" ++
    "  -h, --help  show this help message and exit\n" ++
    "  --tokens    print the token stream\n" ++
    "  --ast       print the syntax tree as JSON\n"

/-- What is said about refused arguments. -/
def complaint (program : String) (r : Refusal) : String :=
  usage program ++ program ++ ": error: " ++ r.message ++ "\n"

end SnlFront.CommandLine
