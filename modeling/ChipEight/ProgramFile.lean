/-
Reading a program from a file.  A program has no header: all bytes of the file belong to it.
-/
import ChipEight.Files
import ChipEight.Notice

namespace ChipEight

/-- Why a program cannot be read. -/
inductive ProgramError
  /-- no path holds the character that ends a path -/
  | nulInPath
  | unreadable (path : String) (cause : FileError)
  deriving DecidableEq, Repr

def ProgramError.message : ProgramError → String
  | nulInPath => "embedded null byte"
  | unreadable path cause =>
    "Unable to load ROM " ++ Text.quoted path ++ ": " ++ cause.message

/-- Read a program, given a way to read files. -/
def readProgramWith (read : String → Except FileError (Array UInt8)) (path : String) :
    Except ProgramError (Array UInt8) :=
  if path.toList.contains '\x00' then .error .nulInPath
  else (read path).mapError (.unreadable path)

/-- Read a program from the working directory. -/
def Files.readProgram (fs : Files) (path : String) : Except ProgramError (Array UInt8) :=
  readProgramWith fs.read path

end ChipEight
