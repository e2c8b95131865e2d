/-
  OUTCOMES: what a program leaves behind when it ends.
-/

namespace ByteTokenizer.Program

/-- The exit code of a program and all that it has written. -/
structure Outcome where
  code : UInt32
  stdout : String
  stderr : String
deriving DecidableEq

namespace Outcome

/-- A program that did its work and wrote the text. -/
def success (stdout : String) : Outcome := { code := 0, stdout, stderr := "" }

/-- A program that gave up with the message on a line. -/
def failure (message : String) : Outcome := { code := 1, stdout := "", stderr := message ++ "\n" }

end Outcome

end ByteTokenizer.Program
