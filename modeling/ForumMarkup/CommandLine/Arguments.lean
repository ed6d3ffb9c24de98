import ForumMarkup.Format

/-!
Contract: the arguments of the command line.

Owns:
- `Job`, a conversion as it is asked for, and `Request`, what the program is to do;
- `Request.ofArguments?`, which takes exactly the arguments that make sense.

Options stand before or after the input, short ones may share a dash, and a value may
be joined to its option.  An option given twice, an unknown one, a missing value or an
argument too many makes no request.
-/

set_option autoImplicit false

namespace ForumMarkup.CommandLine

structure Job where
  input : String
  output? : Option String := none
  format? : Option Format := none
  config? : Option String := none
  inlineCode : Bool := false
  traditionalBreaks : Bool := false
  deriving DecidableEq, Repr

inductive Request where
  | version
  | tags
  | convert (job : Job)
  deriving DecidableEq, Repr

/-- The options of the command line. -/
inductive Switch where
  | verbose
  | version
  | output
  | format
  | config
  | inlineCode
  | traditionalBreaks
  deriving DecidableEq, Repr

namespace Switch

def name : Switch → String
  | verbose => "verbose"
  | version => "version"
  | output => "output"
  | format => "format"
  | config => "config"
  | inlineCode => "inline-code"
  | traditionalBreaks => "traditional-linebreaks"

def letter? : Switch → Option Char
  | verbose => some 'v'
  | version => some 'V'
  | output => some 'o'
  | format => some 'f'
  | config | inlineCode | traditionalBreaks => none

def takesValue : Switch → Bool
  | output | format | config => true
  | verbose | version | inlineCode | traditionalBreaks => false

def ofConversion : List Switch :=
  [verbose, output, format, config, inlineCode, traditionalBreaks]

def ofListing : List Switch := [verbose]

end Switch

structure Given where
  /-- The options, each with its value, the last one first. -/
  switches : List (Switch × String) := []
  /-- The arguments that belong to no option, in order. -/
  words : List String := []

namespace Given

def value? (given : Given) (switch : Switch) : Option String :=
  given.switches.lookup switch

def has (given : Given) (switch : Switch) : Bool :=
  (given.value? switch).isSome

/-- Gives an option that was not given before. Only a value that is not empty counts
as one. -/
def add? (given : Given) (switch : Switch) (value : String) : Option Given :=
  if given.has switch || (switch.takesValue && value.isEmpty) then none
  else some { given with switches := (switch, value) :: given.switches }

end Given

/-- Whether an argument is an option, or the dashes that end the options. A single
dash is none. -/
def isSwitch (argument : Text) : Bool :=
  match argument with
  | '-' :: _ :: _ => true
  | _ => false

/-- Gives an option with the value joined to it or, if there is none, the argument
behind it; what remains are the arguments behind that. -/
def giveValue? (given : Given) (switch : Switch) (joined? : Option Text)
    (rest : List String) : Option (Given × List String) :=
  match joined?, rest with
  | some value, _ => (given.add? switch (String.ofList value)).map fun next => (next, rest)
  | none, [] => none
  | none, value :: more =>
      if isSwitch value.toList then none
      else (given.add? switch value).map fun next => (next, more)

def giveLong? (allowed : List Switch) (given : Given) (argument : Text) (rest : List String) :
    Option (Given × List String) := do
  let name := argument.takeWhile (· != '=')
  let joined? := (argument.dropWhile (· != '=')).tail?
  let switch ← allowed.find? fun switch => switch.name == String.ofList name
  if switch.takesValue then giveValue? given switch joined? rest
  else if joined?.isSome then none
  else (given.add? switch "").map fun next => (next, rest)

/-- Gives the options behind one dash. A value takes what follows its letter, without
an equals sign. -/
def giveShort? (allowed : List Switch) (rest : List String) :
    Text → Given → Option (Given × List String)
  | [], given => some (given, rest)
  | letter :: more, given => do
      let switch ← allowed.find? fun switch => switch.letter? == some letter
      if switch.takesValue then
        let joined? :=
          match more with
          | [] => none
          | '=' :: value => some value
          | value => some value
        giveValue? given switch joined? rest
      else giveShort? allowed rest more (← given.add? switch "")

/-- What the arguments of a command give. -/
def give? (allowed : List Switch) : (fuel : Nat) → Given → List String → Option Given
  | 0, _, _ => none
  | _ + 1, given, [] => some given
  | fuel + 1, given, argument :: rest =>
      match argument.toList with
      | ['-', '-'] => some { given with words := given.words ++ rest }
      | '-' :: '-' :: name => do
          let (next, more) ← giveLong? allowed given name rest
          give? allowed fuel next more
      | '-' :: letter :: letters => do
          let (next, more) ← giveShort? allowed rest (letter :: letters) given
          give? allowed fuel next more
      | _ => give? allowed fuel { given with words := given.words ++ [argument] } rest

/-- The format of a name on the command line. -/
def formatNamed? (name : String) : Option Format :=
  match name with
  | "xml" => some .xml
  | "bbcode" => some .bbcode
  | _ => none

/-- The conversion that the arguments behind its command ask for. -/
def Job.ofArguments? (arguments : List String) : Option Job := do
  let given ← give? Switch.ofConversion (arguments.length + 1) {} arguments
  match given.words with
  | [input] =>
      if input.isEmpty then none
      else
        let format? ←
          match given.value? .format with
          | none => some none
          | some name => (formatNamed? name).map some
        return {
          input, format?
          output? := given.value? .output
          config? := given.value? .config
          inlineCode := given.has .inlineCode
          traditionalBreaks := given.has .traditionalBreaks }
  | _ => none

/-- The request of a command and the arguments behind it. -/
def Request.ofCommand? (command : String) (arguments : List String) : Option Request :=
  match command with
  | "convert" => (Job.ofArguments? arguments).map .convert
  | "tags" => do
      let given ← give? Switch.ofListing (arguments.length + 1) {} arguments
      if given.words.isEmpty then return .tags else none
  | _ => none

/-- What letters behind one dash ask of the program itself: its version, or to go on;
`verbose` says whether it is to log more. -/
def programLetters? (verbose : Bool) : Text → Option (Option Request × Bool)
  | [] => some (none, verbose)
  | 'V' :: _ => some (some .version, verbose)
  | 'v' :: rest => if verbose then none else programLetters? true rest
  | _ => none

/-- What all arguments ask for; options of the program itself come first. -/
def requestFrom? (verbose : Bool) : List String → Option Request
  | [] => none
  | argument :: rest =>
      match argument.toList with
      | '-' :: '-' :: name =>
          if name = Switch.version.name.toList then some .version
          else if name = Switch.verbose.name.toList ∧ !verbose then requestFrom? true rest
          else none
      | '-' :: letter :: letters =>
          match programLetters? verbose (letter :: letters) with
          | some (some request, _) => some request
          | some (none, verbose) => requestFrom? verbose rest
          | none => none
      | _ => Request.ofCommand? argument rest

def Request.ofArguments? (arguments : List String) : Option Request :=
  requestFrom? false arguments

end ForumMarkup.CommandLine
