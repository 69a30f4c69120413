import HueSaturation.Command.Run
import HueSaturation.Png.File

/-!
# The program

`main` runs a command line on the files of the system. The text of a command goes to the output and
an error to the error output; the exit code is that of the run.
-/

namespace HueSaturation

/-- An action on the file system, whose failure is the given error. -/
def orError {α : Type} (error : CommandError) (action : IO α) :
    ExceptT (Failure CommandError) IO α :=
  ExceptT.mk (try return .ok (← action) catch _ => return .error (.refused error))

/-- The files of the system. A file cannot hold an image without pixels. -/
def systemFiles : Files (ExceptT (Failure CommandError) IO) where
  read path := do
    let handle ← orError (.openFailed path) (IO.FS.Handle.mk path .read)
    let bytes ← orError (.decodeFailed path) handle.readBinToEnd
    match (Sheet.ofFile? bytes).bind Sheet.expand? with
    | some bitmap => return bitmap
    | none => throw (.refused (.decodeFailed path))
  create path := discard <| orError (.createFailed path) (IO.FS.Handle.mk path .write)
  write path bitmap := do
    if bitmap.size.area = 0 then throw (.refused (.writeFailed path))
    orError (.writeFailed path) (IO.FS.writeBinFile path bitmap.file)

end HueSaturation

open HueSaturation in
def main (args : List String) : IO UInt32 := do
  let exit ← match ← (runArguments .binary32 systemFiles args).run with
    | .ok exit => pure exit
    | .error e => pure (.ofFailure e)
  match exit with
  | .done text => IO.print text
  | .failed e => IO.eprintln e.report
  | .stopped => IO.eprintln "the program stopped"
  | .usage => IO.eprintln helpText
  | .help => IO.println helpText
  return exit.code
