/-
  The command line.

      numbers [TEXT]     lists the numbers of the text
      language [FILE]    lists the tokens of the source text in the file
-/
import ByteTokenizer.Program.Language
import ByteTokenizer.Program.Numbers

open ByteTokenizer.Program

/-- Writes what the program has left behind. -/
def ByteTokenizer.Program.Outcome.emit (outcome : Outcome) : IO UInt32 := do
  IO.print outcome.stdout
  IO.eprint outcome.stderr
  return outcome.code

/-- Why the system could not read a file. -/
def ByteTokenizer.Program.ReadFailure.ofError : IO.Error → ReadFailure
  | .noFileOrDirectory _ _ _ => .notFound
  | .permissionDenied _ _ _ => .denied
  | .inappropriateType _ 21 _ => .isDirectory
  | .inappropriateType _ _ _ => .notDirectory
  | .invalidArgument _ _ "name too long" => .nameTooLong
  | .invalidArgument _ _ "too many symbolic links encountered" => .tooManyLinks
  | .noSuchThing _ 6 _ => .noDevice
  | .hardwareFault 5 _ => .inputOutput
  | e => .other (toString e)

/-- The source text in the file, if it can be read. -/
def ByteTokenizer.Program.Language.Source.read (path : String) : IO Language.Source := do
  let content ← try
      pure (Except.ok (← IO.FS.readBinFile path).toList)
    catch e =>
      pure (Except.error (ReadFailure.ofError e))
  return .ofRead path content

def main (args : List String) : IO UInt32 := do
  match args with
  | "numbers" :: rest => (Numbers.run rest.head?).emit
  | ["language"] => (Language.run .sample).emit
  | "language" :: path :: _ => (Language.run (← Language.Source.read path)).emit
  | _ => (Outcome.failure "usage: numbers [TEXT] | language [FILE]").emit
