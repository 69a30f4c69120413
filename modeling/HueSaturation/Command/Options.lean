import HueSaturation.Number.Numeral

/-!
# Options on a command line

A word that starts with two dashes is a long option, one that starts with a single dash a run of
short options. An option may take a value: behind an equals sign, for a short option also right
behind its letter, or as the next word, unless that looks like an option itself. Behind the word
`--` nothing is an option.

* `OptionKind`, `OptionRule`   what an option does, and how it is written;
* `Given`                      the options and the words that were given;
* `Stop`                       why reading stopped early;
* `Given.read`                 the options and words of a command line, up to the first word for
                               which there is no room.
-/

namespace HueSaturation

/-- What an option does. -/
inductive OptionKind where
  /-- it is there or not -/
  | flag
  /-- it may be given repeatedly -/
  | counter
  /-- it takes a value; `negative` lets a number with a minus stand as the next word -/
  | value (negative : Bool)
  /-- it asks for the help text -/
  | help
  /-- it asks for the version -/
  | version
deriving DecidableEq, Repr

/-- How an option is written, and which values it takes. -/
structure OptionRule where
  long : String
  short : Option Char := none
  kind : OptionKind
  /-- the values that are understood -/
  accepts : String → Bool := fun _ => true

inductive Stop where
  /-- the command line is wrong -/
  | usage
  /-- help was asked for -/
  | help
  /-- the version was asked for -/
  | version
deriving DecidableEq, Repr

/-- The options, by their long names, and the other words of a command line. -/
structure Given where
  flags : List String := []
  values : List (String × String) := []
  words : List String := []

/-- The text after a minus looks like a number: digits, a point behind the first, and an exponent
without sign that has digits. -/
def looksNumeric (s : List Char) : Bool :=
  let (whole, rest) := leadingDigits s
  let (fraction, rest) := match rest with
    | '.' :: r => if whole.isEmpty then ([], '.' :: r) else leadingDigits r
    | r => ([], r)
  match rest with
  | [] => true
  | e :: r =>
    let (exponent, tail) := leadingDigits r
    (e = 'e' || e = 'E') && !(whole.isEmpty && fraction.isEmpty) && !exponent.isEmpty
      && tail.isEmpty

def isShortRun : List Char → Bool
  | '-' :: c :: _ => c ≠ '-'
  | _ => false

def isLong : List Char → Bool
  | '-' :: '-' :: _ => true
  | _ => false

namespace Given

/-- The option without value is given. Only counters may be given twice. -/
def addFlag (g : Given) (rule : OptionRule) : Except Stop Given :=
  match rule.kind with
  | .help => .error .help
  | .version => .error .version
  | .counter => .ok { g with flags := rule.long :: g.flags }
  | .flag =>
    if g.flags.contains rule.long then .error .usage
    else .ok { g with flags := rule.long :: g.flags }
  | .value _ => .error .usage

/-- The option is given with a value. It may be given once, with a value that it understands. -/
def addValue (g : Given) (rule : OptionRule) (v : String) : Except Stop Given :=
  if rule.accepts v && (g.values.lookup rule.long).isNone then
    .ok { g with values := (rule.long, v) :: g.values }
  else .error .usage

/-- One word of options. The answer holds an option that still needs its value. -/
structure Pending where
  given : Given
  waiting : Option OptionRule := none

/-- A run of short options: the first one that takes a value takes the rest of the word. -/
def shortRun (rules : List OptionRule) (g : Given) : List Char → Except Stop Pending
  | [] => .ok { given := g }
  | c :: rest =>
    match rules.find? fun r => r.short = some c with
    | none => .error .usage
    | some rule =>
      match rule.kind, rest with
      | .value _, [] => .ok { given := g, waiting := some rule }
      | .value _, '=' :: v => return { given := ← g.addValue rule (String.ofList v) }
      | .value _, v => return { given := ← g.addValue rule (String.ofList v) }
      | _, rest => do shortRun rules (← g.addFlag rule) rest

def longOption (rules : List OptionRule) (g : Given) (s : List Char) : Except Stop Pending :=
  let name := s.takeWhile (· ≠ '=')
  match rules.find? fun r => r.long = String.ofList name with
  | none => .error .usage
  | some rule =>
    match rule.kind, s.drop name.length with
    | .value _, [] => .ok { given := g, waiting := some rule }
    | .value _, _ :: v => return { given := ← g.addValue rule (String.ofList v) }
    | _, [] => return { given := ← g.addFlag rule }
    | _, _ :: _ => .error .usage

def canBeValue (rule : OptionRule) (word : String) : Bool :=
  let cs := word.toList
  if isLong cs then false
  else if isShortRun cs then rule.kind = .value true && looksNumeric (cs.drop 1)
  else true

/-- The options and words of a command line with room for `room` words. A word beyond them ends the
reading and is given back with all that stands behind it; behind the word `--` it is an error, as is
an empty word anywhere. -/
def read (rules : List OptionRule) (room : Nat) :
    Given → List String → Except Stop (Given × List String)
  | g, [] => .ok (g, [])
  | g, word :: rest => do
    let cs := word.toList
    if cs = ['-', '-'] then
      if g.words.length + rest.length ≤ room && rest.all (· ≠ "") then
        return ({ g with words := g.words ++ rest }, [])
      else throw .usage
    else if isLong cs || isShortRun cs then
      let pending ←
        if isLong cs then longOption rules g (cs.drop 2) else shortRun rules g (cs.drop 1)
      match pending.waiting, rest with
      | none, rest => read rules room pending.given rest
      | some _, [] => throw .usage
      | some rule, v :: rest =>
        if canBeValue rule v then read rules room (← pending.given.addValue rule v) rest
        else throw .usage
    else if room ≤ g.words.length then return (g, word :: rest)
    else if word = "" then throw .usage
    else read rules room { g with words := g.words ++ [word] } rest

def value? (g : Given) (long : String) : Option String :=
  g.values.lookup long

end Given
end HueSaturation
