import HueSaturation.Command.Apply
import HueSaturation.Command.Options

/-!
# The command line

    [-v] [-j N] apply INPUT -o OUTPUT [VALUES] [--opacity X] [--mode M] [--tile N]
    [-v] [-j N] params [--op-version V] [--json]
    [-v] [-j N] matrix [VALUES]

* `Command`         the three commands;
* `Command.read`    the command of a command line.
-/

namespace HueSaturation

/-- A command with its arguments. -/
inductive Command where
  | apply (arguments : Apply)
  /-- the controls of a version -/
  | params (version : Version) (json : Bool)
  /-- the matrices of an edit -/
  | matrix (request : Request)

namespace Command

/-- The options of every command: more log output, and the number of threads. -/
def commonRules : List OptionRule :=
  [ { long := "verbose", short := some 'v', kind := .counter },
    { long := "threads", short := some 'j', kind := .value false,
      accepts := fun s => (countOfText? 0x10000000000000000 s).isSome },
    { long := "help", short := some 'h', kind := .help } ]

def outerRules : List OptionRule :=
  { long := "version", short := some 'V', kind := .version } :: commonRules

def versionRule : OptionRule :=
  { long := "op-version", kind := .value false, accepts := fun s => (Version.ofName? s).isSome }

def requestRules : List OptionRule :=
  versionRule :: Control.all.map fun k =>
    { long := k.key, kind := .value true, accepts := fun s => (floatOfText? s).isSome }

def applyRules : List OptionRule :=
  [ { long := "output", short := some 'o', kind := .value false, accepts := (· ≠ "") },
    { long := "opacity", kind := .value false, accepts := fun s => (floatOfText? s).isSome },
    { long := "mode", kind := .value false, accepts := fun s => (BlendMode.ofName? s).isSome },
    { long := "tile", kind := .value false,
      accepts := fun s => (wordOfText? s).isSome } ]
    ++ requestRules ++ commonRules

def paramsRules : List OptionRule :=
  { long := "json", kind := .flag } :: versionRule :: commonRules

def matrixRules : List OptionRule :=
  requestRules ++ commonRules

def versionOf (g : Given) : Version :=
  ((g.value? "op-version").bind Version.ofName?).getD .latest

def requestOf (g : Given) : Request where
  version := versionOf g
  values := Control.all.foldl (fun values k => values.set k ((g.value? k.key).bind floatOfText?))
    (.const none)

/-- The arguments of `apply`. Input and output have to be there. -/
def applyOf (g : Given) : Except Stop Command :=
  match g.words, g.value? "output" with
  | [input], some output =>
    .ok <| .apply
      { input, output, request := requestOf g
        opacity := ((g.value? "opacity").bind floatOfText?).getD 1.0
        mode := ((g.value? "mode").bind BlendMode.ofName?).getD .normal
        tile := ((g.value? "tile").bind wordOfText?).getD defaultTile }
  | _, _ => .error .usage

/-- The options and words of one command, with nothing behind them. -/
def arguments (rules : List OptionRule) (room : Nat) (args : List String) : Except Stop Given := do
  match ← Given.read rules room {} args with
  | (g, []) => return g
  | (_, _ :: _) => throw .usage

def topics : List String :=
  ["apply", "a", "params", "p", "matrix", "m", "help"]

/-- A request for help: with all commands or with one of them. -/
def helpOn : List String → Stop
  | [] => .help
  | [topic] => if topics.contains topic then .help else .usage
  | _ => .usage

def named (name : String) (args : List String) : Except Stop Command := do
  match name with
  | "apply" | "a" => applyOf (← arguments applyRules 1 args)
  | "params" | "p" =>
    let g ← arguments paramsRules 0 args
    return .params (versionOf g) (g.flags.contains "json")
  | "matrix" | "m" => return .matrix (requestOf (← arguments matrixRules 0 args))
  | "help" => throw (helpOn args)
  | _ => throw .usage

def read (args : List String) : Except Stop Command := do
  match ← Given.read outerRules 0 {} args with
  | (_, name :: rest) => named name rest
  | (_, []) => throw .usage

end Command
end HueSaturation
