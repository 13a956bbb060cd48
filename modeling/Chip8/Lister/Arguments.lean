import Chip8.Log

/-!
# The command line of the lister

Arguments are read from left to right. Options may stand before and behind the file, flags of one
letter may be joined, and `--` ends the options. Asking for help or for the version is answered at
once; so is an unknown option or a second file. Whether an option was given twice, or lacks its
value, is looked at only when all arguments have been read.

## Main definitions

* `Settings` — what a listing is to look like and where it goes
* `Request` — what the lister is asked for
* `Misuse` — why arguments are refused
* `Arguments.read` — the request of a row of arguments
-/

namespace Chip8.Lister

/-- What a listing is to look like, what it is of and where it goes. -/
structure Settings where
  /-- Whether addresses are those of a loaded program. -/
  absolute : Bool := false
  /-- How many times more messages were asked for. -/
  verbosity : Nat := 0
  /-- The file that the listing is written to; without one, standard output. -/
  output : Option String := none
  /-- The file that is listed; without one, standard input. -/
  file : Option String := none
  deriving DecidableEq, Repr

/-- The least level of the messages that are shown. -/
def Settings.threshold (s : Settings) : Log.Level :=
  match s.verbosity with
  | 0 => .warn
  | 1 => .info
  | 2 => .debug
  | _ => .trace

/-- What the lister is asked for. -/
inductive Request where
  | help
  | version
  | list (s : Settings)
  deriving DecidableEq, Repr

/-- Why arguments are refused. -/
inductive Misuse where
  | unknownOption (name : String)
  | secondFile (name : String)
  | missingValue
  | repeatedOption (name : String)
  deriving DecidableEq, Repr

def Misuse.message : Misuse → String
  | unknownOption name => "there is no option '" ++ name ++ "'"
  | secondFile name => "a second file '" ++ name ++ "' was given"
  | missingValue => "the option '--output' needs a value"
  | repeatedOption name => "the option '" ++ name ++ "' was given more than once"

namespace Arguments

/-- What the arguments so far said. -/
structure Seen where
  /-- How many times absolute addresses were asked for. -/
  absolutes : Nat := 0
  /-- How many times more messages were asked for. -/
  verbosity : Nat := 0
  /-- How many times an output file was asked for. -/
  outputs : Nat := 0
  /-- The last output file named. -/
  output : Option String := none
  file : Option String := none
  /-- Whether the argument before was an output option without its value. -/
  waiting : Bool := false
  deriving DecidableEq, Repr

/-- What ends the reading of arguments before their end. -/
inductive Stop where
  | answered (r : Request)
  | refused (e : Misuse)
  deriving DecidableEq, Repr

namespace Seen

/-- An output option without its value, which may be the next argument. -/
def expectOutput (s : Seen) : Seen := { s with outputs := s.outputs + 1, waiting := true }

/-- The value of an output option. -/
def takeOutput (s : Seen) (value : String) : Seen :=
  { s with output := some value, waiting := false }

/-- An output option with its value behind it; equals signs before the value do not count. -/
def giveOutput (s : Seen) (value : List Char) : Seen :=
  s.expectOutput.takeOutput (String.ofList (value.dropWhile (· = '=')))

/-- A file to list. -/
def giveFile (s : Seen) (name : String) : Except Stop Seen :=
  match s.file with
  | none => .ok { s with file := some name }
  | some _ => .error (.refused (.secondFile name))

/-- What the arguments ask for, when all have been read. -/
def finish (s : Seen) : Except Misuse Settings :=
  -- an option without a value outranks one that was repeated
  if 0 < s.outputs ∧ s.output = none then .error .missingValue
  else if 1 < s.absolutes then .error (.repeatedOption "--absolute")
  else if 1 < s.outputs then .error (.repeatedOption "--output")
  else .ok {
    absolute := s.absolutes = 1
    verbosity := s.verbosity
    output := s.output
    file := if s.file = some "-" then none else s.file }

end Seen

/-- Reads the letters behind a single dash; what follows the letter of the output option is its
value. -/
def readLetters (s : Seen) : List Char → Except Stop Seen
  | [] => .ok s
  | 'a' :: rest => readLetters { s with absolutes := s.absolutes + 1 } rest
  | 'v' :: rest => readLetters { s with verbosity := s.verbosity + 1 } rest
  | 'o' :: rest => .ok (if rest.isEmpty then s.expectOutput else s.giveOutput rest)
  | 'h' :: _ => .error (.answered .help)
  | 'V' :: _ => .error (.answered .version)
  | c :: _ => .error (.refused (.unknownOption (String.ofList ['-', c])))

/-- Reads an option written out, without its dashes; flags do not look at a value. -/
def readName (s : Seen) (option : List Char) : Except Stop Seen :=
  let name := String.ofList (option.takeWhile (· ≠ '='))
  let value := option.dropWhile (· ≠ '=')
  match name with
  | "absolute" => .ok { s with absolutes := s.absolutes + 1 }
  | "verbose" => .ok { s with verbosity := s.verbosity + 1 }
  | "output" => .ok (if value.isEmpty then s.expectOutput else s.giveOutput value)
  | "help" => .error (.answered .help)
  | "version" => .error (.answered .version)
  | _ => .error (.refused (.unknownOption ("--" ++ name)))

/-- Reads arguments behind `--`: each is a file. -/
def readFiles (s : Seen) : List String → Except Stop Seen
  | [] => .ok s
  | name :: rest => do readFiles (← s.giveFile name) rest

/-- Reads arguments. What starts with a dash and is more than a dash is an option, even behind an
option that waits for its value. -/
def readAll (s : Seen) : List String → Except Stop Seen
  | [] => .ok s
  | argument :: rest =>
    match argument.toList with
    | ['-', '-'] => readFiles s rest
    -- more than two dashes count as two
    | '-' :: '-' :: option => do
      readAll (← readName { s with waiting := false } (option.dropWhile (· = '-'))) rest
    | '-' :: c :: letters => do
      readAll (← readLetters { s with waiting := false } (c :: letters)) rest
    -- a lone dash is no option, so it can be a file or a value
    | _ =>
      if s.waiting then readAll (s.takeOutput argument) rest
      else do readAll (← s.giveFile argument) rest

/-- The request of a row of arguments. -/
def read (arguments : List String) : Except Misuse Request :=
  match readAll {} arguments with
  | .ok s => s.finish.map .list
  | .error (.answered r) => .ok r
  | .error (.refused e) => .error e

end Arguments

end Chip8.Lister
