import TypedXml.CommandLine

/-!
# The program

Reads the file that a command names, carries the command out and prints what it answers.
-/

set_option autoImplicit false

namespace TypedXml.CommandLine

/-- The fault that a system error stands for; its number may come with its sign turned. -/
def faultOfNumber (code : UInt32) (words : String) : FileFault :=
  let number := if code < 0x80000000 then code else 0 - code
  match number.toNat with
  | 2 => .missing
  | 20 => .notDirectory
  | 21 => .directory
  | 36 => .nameTooLong
  | n => .reported s!"{words} (os error {n})"

/-- The fault that an error of the input and output layer stands for. -/
def fileFault : IO.Error → FileFault
  | .noFileOrDirectory _ code words => faultOfNumber code words
  | .permissionDenied _ code words | .inappropriateType _ code words
  | .invalidArgument _ code words | .resourceExhausted _ code words => faultOfNumber code words
  | error => .reported (toString error)

/-- The octets of a file. -/
def readFile (file : String) : IO (Except FileFault Octets) := do
  try
    let bytes ← IO.FS.readBinFile file
    pure (.ok bytes.toList)
  catch error => pure (.error (fileFault error))

/-- Print an outcome and give its exit code. -/
def report (outcome : Outcome) : IO UInt32 := do
  (← IO.getStdout).putStr outcome.out
  (← IO.getStderr).putStr outcome.err
  pure outcome.exit.toUInt32

end TypedXml.CommandLine

open TypedXml.CommandLine in
/-- Carry out the command that the arguments give. -/
def main (arguments : List String) : IO UInt32 := do
  match Command.parse? arguments with
  | none => report Outcome.badUsage
  | some command =>
    let contents ← match command.file? with
      | some file => readFile file
      | none => pure (.error .missing)
    report (command.run contents)
