import SnlFront.Compile

/-!
# The program

The compiler as a program: it takes its arguments, reads the file and prints what `execute` says.
-/

namespace SnlFront

/-- The name by which the program speaks of itself. -/
def programName : String := "snlc"

/-- The failure with a number and a wording. Some systems give the number with a minus sign. -/
def ReadFailure.ofCode (code : UInt32) (wording : String) : ReadFailure :=
  let number := code.toInt32.toInt.natAbs
  if number = 2 then .missing
  else if number = 20 then .notDirectory
  else if number = 21 then .isDirectory
  else if number = 36 then .nameTooLong
  else .other number wording

/-- Why the system could not read a file. -/
def ReadFailure.ofError (e : IO.Error) : ReadFailure :=
  match e with
  | .noFileOrDirectory _ code wording => .ofCode code wording
  | .inappropriateType _ code wording => .ofCode code wording
  | .permissionDenied _ code wording => .ofCode code wording
  | .invalidArgument _ code wording => .ofCode code wording
  | .otherError code wording => .ofCode code wording
  | e => .other 5 (toString e)

/-- The octets of a file, or why it cannot be read. -/
def readOctets (path : String) : IO (Except ReadFailure (List UInt8)) := do
  try
    let octets ← IO.FS.readBinFile path
    return .ok octets.toList
  catch e =>
    return .error (.ofError e)

/-- The status of a run, and what is still to be said about its end. -/
def Ending.outcome : Ending → UInt32 × String
  | .status code => (code.toUInt32, "")
  | .overlong number => (1, "a number of " ++ toString number.digits ++ " digits is too long\n")
  | .undecodable f => (1, f.message ++ "\n")
  | .impossiblePath => (1, "no file can have this name\n")
  | .fault f => (1, f.message ++ "\n")

/-- Print what a run has to say, and end with its status. -/
def Execution.present (e : Execution) : IO UInt32 := do
  let (code, remark) := e.ending.outcome
  IO.print e.out
  IO.eprint (e.err ++ remark)
  return code

end SnlFront

/-- Run the compiler on the arguments of the command line. -/
def main (arguments : List String) : IO UInt32 :=
  match SnlFront.prepare SnlFront.programName arguments with
  | .error execution => execution.present
  | .ok request => do
    let content ← SnlFront.readOctets request.input
    (SnlFront.execute request content).present
