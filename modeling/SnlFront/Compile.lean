import SnlFront.Backlog
import SnlFront.CommandLine
import SnlFront.Source
import SnlFront.Syntax.Encoding
import SnlFront.Text.Newline
import SnlFront.Text.Utf8

/-!
# Running the compiler

The compiler goes through phases: it reads its arguments and the file, lists the tokens if asked to,
reads the program, shows the tree if asked to, and analyses it. A phase that leaves something in
the backlog ends the run at the next checkpoint.

## Main definitions

* `Execution`: what a run prints and how it ends.
* `ReadFailure`: why a file cannot be read.
* `compile`: the phases behind the reading of the file.
* `execute`: what comes of a file, or of the failure to read it.
* `prepare`: what comes of the arguments.
-/

namespace SnlFront

/-- How a run ends. -/
inductive Ending
  /-- With a status: zero if the program is valid. -/
  | status (code : Nat)
  /-- At a number with too many digits. -/
  | overlong (number : OverlongNumber)
  /-- At octets that are no text. -/
  | undecodable (fault : Text.Utf8.Fault)
  /-- At a path that no file can have. -/
  | impossiblePath
  /-- At a tree that cannot be analysed; trees that were read from a text never end so. -/
  | fault (fault : Fault)
deriving DecidableEq, Repr

/-- What a run prints, on the two streams, and how it ends. -/
structure Execution where
  out : String
  err : String
  ending : Ending
deriving DecidableEq, Repr

/-- Why a file cannot be read. -/
inductive ReadFailure
  | missing
  | notDirectory
  | isDirectory
  | nameTooLong
  /-- Any other failure the system reports, by its number and wording. -/
  | other (code : Nat) (wording : String)
deriving DecidableEq, Repr

namespace ReadFailure

/-- The number the system gives a failure. -/
def code : ReadFailure → Nat
  | .missing => 2
  | .notDirectory => 20
  | .isDirectory => 21
  | .nameTooLong => 36
  | .other code _ => code

/-- The wording the system gives a failure. -/
def wording : ReadFailure → String
  | .missing => "No such file or directory"
  | .notDirectory => "Not a directory"
  | .isDirectory => "Is a directory"
  | .nameTooLong => "File name too long"
  | .other _ wording => wording

/-- What is said about a file that cannot be read. -/
def message (path : String) (f : ReadFailure) : String :=
  "cannot read input file " ++ path ++ ": [Errno " ++ toString f.code ++ "] " ++ f.wording ++ ": "
    ++ Text.quoted path

end ReadFailure

/-- Lines of text, each with its end. -/
def unlines (lines : List String) : String := String.join (lines.map (· ++ "\n"))

/-- Go on with an open phase, unless the checkpoint before it ends the run. -/
def Backlog.proceed (b : Backlog) (phase : String) (out : String) (next : Backlog → Execution) :
    Execution :=
  match b.checkpoint (some phase) with
  | (_, some printed) => ⟨out, printed, .status 1⟩
  | (opened, none) => next opened

/-- Analyse a program and print the diagnostics. -/
def analysePhase (p : Program) (out : String) : Execution :=
  match p.analyze with
  | .error fault => ⟨out, "", .fault fault⟩
  | .ok [] => ⟨out ++ unlines ["No semantic error!"], "", .status 0⟩
  | .ok ds => ⟨out ++ unlines (ds.map Diagnostic.line), "", .status 1⟩

/-- Show the tree if asked to, and go on to the analysis. -/
def treePhase (ast : Bool) (p : Located Program) (out : String) (b : Backlog) : Execution :=
  b.proceed "ast" out fun b =>
    let out := if ast then out ++ unlines [(Program.locatedToDatum p).render] else out
    b.proceed "semantic" out fun _ => analysePhase p.value out

/-- Read the program, and go on to its tree. -/
def parsePhase (ast : Bool) (text : String) (out : String) (b : Backlog) : Execution :=
  b.proceed "parsing" out fun b =>
    let reading := readProgram text
    let b := b.noteAll reading.notices
    match reading.program with
    | .error number => ⟨out, "", .overlong number⟩
    | .ok none => ⟨out, b.crash "no syntax tree produced", .status 1⟩
    | .ok (some program) => treePhase ast program out b

/-- List the tokens, and go on to the program. -/
def tokenPhase (ast : Bool) (text : String) (b : Backlog) : Execution :=
  b.proceed "lexing" "" fun b =>
    let listing := listTokens text none
    let out := unlines (listing.tokens.map Token.listing)
    match listing.broken with
    | some number => ⟨out, "", .overlong number⟩
    | none => parsePhase ast text out (b.noteAll listing.notices)

/-- Compile a text, listing its tokens and showing its tree if asked to. -/
def compile (tokens ast : Bool) (text : String) : Execution :=
  let b : Backlog := ⟨some "args", []⟩
  if tokens then tokenPhase ast text b else parsePhase ast text "" b

open CommandLine

/-- What comes of a request, given what reading the file came to. -/
def execute (r : Request) (content : Except ReadFailure (List UInt8)) : Execution :=
  if r.input.toList.contains '\x00' then ⟨"", "", .impossiblePath⟩
  else
    match content with
    | .error failure =>
      ⟨"", Backlog.crash ⟨some "args", []⟩ (failure.message r.input), .status 1⟩
    | .ok octets =>
      match Text.Utf8.decode octets with
      | .error fault => ⟨"", "", .undecodable fault⟩
      | .ok cs => compile r.tokens r.ast (String.ofList (Text.unifyNewlines cs))

/-- What comes of the arguments: a request, or an execution that is over. -/
def prepare (program : String) (arguments : List String) : Except Execution Request :=
  match Request.ofArguments arguments with
  | .ok request => .ok request
  | .error .help => .error ⟨help program, "", .status 0⟩
  | .error (.refused refusal) => .error ⟨"", complaint program refusal, .status 2⟩

/-- Run the compiler in a system of files. -/
def run (program : String) (arguments : List String)
    (read : String → Except ReadFailure (List UInt8)) : Execution :=
  match prepare program arguments with
  | .error execution => execution
  | .ok request => execute request (read request.input)

end SnlFront
