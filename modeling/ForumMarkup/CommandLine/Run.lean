import ForumMarkup.CommandLine.Arguments
import ForumMarkup.Config.Decode
import ForumMarkup.Config.Json
import ForumMarkup.Config.Toml
import ForumMarkup.Markdown

/-!
Contract: what the command line does with files it was given the contents of.

Owns:
- `FileFault` and `Failure`, what can go wrong, with their messages;
- `Sources`, the contents of files and of the standard input;
- `Job.run`, the text that a conversion writes, and `Job.target?`, where to;
- `listing`, the table of tags, and `version`.

The configuration is read before the input, and what comes first fails first.
-/

set_option autoImplicit false

namespace ForumMarkup.CommandLine

/-- Why a file cannot be read or written. -/
inductive FileFault where
  | notFound
  | notUtf8
  | refused (message : String)
  deriving DecidableEq, Repr

def FileFault.message : FileFault → String
  | notFound => "No such file or directory (os error 2)"
  | notUtf8 => "stream did not contain valid UTF-8"
  | refused message => message

/-- Why a conversion ends without a text. -/
inductive Failure where
  | cannotRead (path : String) (fault : FileFault)
  | cannotWrite (path : String) (fault : FileFault)
  | stdin (fault : FileFault)
  | invalidConfig (path : String)
  | unreadable (error : ReadError)
  deriving DecidableEq, Repr

def Failure.message : Failure → String
  | cannotRead path fault => "cannot read " ++ path ++ ": " ++ fault.message
  | cannotWrite path fault => "cannot write " ++ path ++ ": " ++ fault.message
  | stdin fault => "io error: " ++ fault.message
  | invalidConfig path => "invalid config " ++ path
  | unreadable error => error.message

def decodeFile (bytes : ByteArray) : Except FileFault Text :=
  match String.fromUTF8? bytes with
  | some text => .ok text.toList
  | none => .error .notUtf8

/-- The contents of files, by path, and of the standard input. -/
structure Sources where
  file : String → Except FileFault Text
  stdin : Except FileFault Text

/-- The extension of the file at a path: what follows the last dot of its name, unless
that dot comes first. -/
def extension? (path : String) : Option Text :=
  let reversed := (path.toList.reverse.dropWhile (· == '/')).takeWhile (· != '/')
  match reversed.dropWhile (· != '.') with
  | '.' :: _ :: _ => some (reversed.takeWhile (· != '.')).reverse
  | _ => none

def version : String := "bbmark 0.1.0\n"

/-- A line of the listing, its first column twelve characters wide. -/
def listingLine (first second : String) : String :=
  "  " ++ first ++ String.ofList (List.replicate (12 - first.length) ' ') ++ " " ++ second ++ "\n"

def listing : String :=
  listingLine "TAG" "OUTPUT" ++ listingLine "---" "------"
    ++ String.join (Rule.all.map fun rule => listingLine rule.tag rule.description)

/-- The configuration in a text, in JSON if the path says so and otherwise in TOML. -/
def configOf? (path : String) (text : Text) : Option Config :=
  let json := (extension? path).map Text.lower == some "json".toList
  (if json then Json.parse? text else Toml.parse? text).bind Config.ofDatum?

/-- The configuration at a path; without a path every part has its default. -/
def loadConfig (sources : Sources) : Option String → Except Failure Config
  | none => .ok {}
  | some path =>
      match sources.file path with
      | .error fault => .error (.cannotRead path fault)
      | .ok text =>
          match configOf? path text with
          | some config => .ok config
          | none => .error (.invalidConfig path)

def readInput (sources : Sources) (path : String) : Except Failure Text :=
  if path = "-" then sources.stdin.mapError .stdin
  else (sources.file path).mapError (.cannotRead path)

namespace Job

def options (job : Job) (config : Config) : Options :=
  { config.options with
    inlineCode := config.options.inlineCode || job.inlineCode
    traditionalBreaks := config.options.traditionalBreaks || job.traditionalBreaks }

/-- The format of the input: as asked for, by its extension, or by its text. -/
def formatOf (job : Job) (text : Text) : Format :=
  (job.format?.or ((extension? job.input).bind Format.ofExtension?)).getD (Format.sniff text)

/-- The Markdown of the input, with a line feed at its end. -/
def run (job : Job) (sources : Sources) : Except Failure Text := do
  let config ← loadConfig sources job.config?
  let text ← readInput sources job.input
  let reading ← ((job.formatOf text).read config.tables.smilieCodes text).mapError .unreadable
  let markdown := (reading.value.toMarkdown (job.options config)).evaluate config.tables.answer
  return markdown ++ ['\n']

/-- The file that the Markdown goes to; without one it goes to the standard output. -/
def target? (job : Job) : Option String :=
  job.output?.filter (· != "-")

def files (job : Job) : List String :=
  job.config?.toList ++ (if job.input = "-" then [] else [job.input])

end Job
end ForumMarkup.CommandLine
