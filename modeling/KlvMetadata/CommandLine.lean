import KlvMetadata.Report.Check
import KlvMetadata.Report.Tracks

/-!
# Command Line

The commands and their arguments. Options may stand anywhere; they choose how
much is logged and change nothing else. What remains is a command and a file,
or a file alone, which is then listed. Files are looked up through a function,
so a run is a calculation from its arguments and the files they name.

## Main definitions

* `CommandLine.run`: What a run prints and how it ends.
* `CommandLine.help`: The overview of the commands.
-/

namespace KlvMetadata

namespace CommandLine

/-- Options that choose how much is logged. -/
def isLogOption (argument : String) : Bool :=
  ["-v", "--verbose", "-vv", "--trace", "-q", "--quiet"].contains argument

/-- The overview of the commands. -/
def help : List String :=
  ["klv-cli - KLV metadata toolkit",
   "",
   "USAGE:",
   "    klv-cli [OPTIONS] <COMMAND> [ARGS]",
   "",
   "COMMANDS:",
   "    d, dump     <file>    Print every packet with decoded tags",
   "    c, check    <file>    Report checksum, decode and cardinality problems",
   "    t, timeline <file>    Demux the stream and print the timeline as JSON",
   "    version               Show version and build date",
   "    h, help               Show this help",
   "",
   "OPTIONS:",
   "    -v, --verbose    Show debug output",
   "    -vv, --trace     Show trace output (very verbose)",
   "    -q, --quiet      Only show errors",
   "",
   "NOTES:",
   "    - Input is a raw KLV byte stream; bytes between packets are skipped",
   "    - Passing a file directly is equivalent to 'dump'",
   "    - RUST_LOG overrides the log level"]

/-- Name and version. -/
def version : List String := ["klv-cli 0.1.0"]

/-- What can be done with a file. -/
inductive Command where
  | dump
  | check
  | timeline
  deriving DecidableEq, Repr

namespace Command

/-- The command of a word. -/
def ofWord? (word : String) : Option Command :=
  if word = "dump" ∨ word = "d" then some dump
  else if word = "check" ∨ word = "c" then some check
  else if word = "timeline" ∨ word = "t" then some timeline
  else none

/-- The word in full. -/
def word : Command → String
  | dump => "dump"
  | check => "check"
  | timeline => "timeline"

/-- What the command makes of a stream. -/
def apply : Command → Bytes → Outcome
  | dump => Report.dump
  | check => Report.check
  | timeline => Report.tracks

end Command

/-- Contents of a file, or why there are none. -/
abbrev Files := String → Except Error Bytes

/-- True if there is anything under a path, whether it can be read or not. -/
def Files.has (files : Files) (path : String) : Bool :=
  match files path with
  | .ok _ => true
  | .error e => e ≠ .missingFile

/-- Apply a command to a file. -/
def onFile (files : Files) (command : Command) (path : String) : Outcome :=
  match files path with
  | .ok data => command.apply data
  | .error e => .failure [] e

/-- Complain that a command lacks its file. -/
def missingFile (command : Command) : Outcome :=
  ⟨1, [], ["Error: missing file argument", s!"Usage: klv-cli {command.word} <file>"]⟩

/-- What a run with these arguments prints and how it ends. -/
def run (files : Files) (arguments : List String) : Outcome :=
  match arguments.filter (!isLogOption ·) with
  | [] => .success help
  | first :: rest =>
    match Command.ofWord? first, rest with
    | some command, path :: _ => onFile files command path
    | some command, [] => missingFile command
    | none, _ =>
      if ["version", "-V", "--version"].contains first then .success version
      else if ["help", "h", "-h", "--help"].contains first then .success help
      else if Files.has files first then onFile files .dump first
      else ⟨1, help, ["Unknown command: " ++ first, ""]⟩

end CommandLine

end KlvMetadata
