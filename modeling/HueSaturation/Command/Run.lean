import HueSaturation.Command.Arguments
import HueSaturation.Command.Listing
import HueSaturation.Command.Matrices

/-!
# Running a command line

* `Exit`            what a run ends with: output, an error, or a wrong command line;
* `Command.run`     the text that a command prints;
* `runArguments`    a command line, read and run.
-/

namespace HueSaturation

inductive Exit where
  /-- success, with the text that is printed -/
  | done (output : String)
  | failed (error : CommandError)
  /-- the program stopped on the way -/
  | stopped
  /-- the command line is wrong -/
  | usage
  /-- help was asked for -/
  | help

def Exit.code : Exit → UInt32
  | done _ | help => 0
  | failed _ => 1
  | usage => 2
  | stopped => 101

/-- What a run without a result ends with. -/
def Exit.ofFailure : Failure CommandError → Exit
  | .refused e => failed e
  | .panic | .torn => stopped

def versionLine : String :=
  "tonekit 0.1.0\n"

def helpText : String :=
  joined "\n"
    [ "Hue/saturation adjustment CLI",
      "",
      "Usage: tonekit [-v] [-j N] <COMMAND>",
      "",
      "Commands:",
      "  apply <INPUT> -o <OUTPUT> [VALUES] [--opacity X] [--mode M] [--tile N]",
      "  params [--op-version V] [--json]",
      "  matrix [VALUES]",
      "",
      "Values:",
      "  [--op-version V] [--hue X] [--saturation X] [--vibrance X] [--luminosity X]",
      "  [--contrast X]" ]

section
variable {m : Type → Type} [Monad m] [MonadExceptOf (Failure CommandError) m]

def Command.run (fns : Library Float32) (files : Files m) : Command → m String
  | apply arguments => do
    arguments.run fns files
    return ""
  | params version json => return if json then Listing.json version else Listing.text version
  | matrix request => MonadExcept.ofExcept ((Matrices.text fns request).mapError Failure.refused)

def runArguments (fns : Library Float32) (files : Files m) (args : List String) : m Exit :=
  match Command.read args with
  | .error .usage => return .usage
  | .error .help => return .help
  | .error .version => return .done versionLine
  | .ok command =>
    tryCatchThe (Failure CommandError) (do return .done (← command.run fns files)) fun e =>
      return .ofFailure e

end

end HueSaturation
