/-
# Commands

The program is a root command with others below it. Which one is meant is found before
its flags are read: it is the first word. Until then an argument with a dash and without
an equals sign is taken to be followed by a value.
-/
import ModelGraph.Command.Flag
import ModelGraph.Command.Shell

namespace ModelGraph

inductive Command where
  | root | compile | version | help | completion
  | script (shell : Shell)
  deriving Repr, BEq, DecidableEq, Inhabited

namespace Command

def program : String := "purec"

def programVersion : String := "0.1.0"

def name : Command → String
  | root => program
  | compile => "compile"
  | version => "version"
  | help => "help"
  | completion => "completion"
  | script shell => shell.name

def path : Command → String
  | root => program
  | script shell => program ++ " " ++ completion.name ++ " " ++ shell.name
  | c => program ++ " " ++ c.name

def summary : Command → String
  | root => "Compile Pure model documents into a linked graph"
  | compile => "Compile model documents and report errors and warnings"
  | version => "Print the version"
  | help => "Help about any command"
  | completion => "Generate the autocompletion script for the specified shell"
  | script shell => "Generate the autocompletion script for " ++ shell.name

def description : Command → String
  | compile =>
    "Compile each model document and print a report per file.\n\n" ++
      "Arguments may be file paths or doublestar patterns such as 'models/**/*.json'."
  | help =>
    "Help provides help for any command in the application.\n" ++
      "Simply type purec help [path to command] for full details."
  | completion =>
    "Generate the autocompletion script for purec for the specified shell.\n" ++
      "See each sub-command's help for details on how to use the generated script."
  | script shell => shell.instructions program
  | c => c.summary

def useLine? : Command → Option String
  | compile => some "purec compile [flags] file-or-pattern..."
  | version => some "purec version [flags]"
  | help => some "purec help [command] [flags]"
  | script .bash => some (script .bash).path
  | script shell => some ((script shell).path ++ " [flags]")
  | root => none
  | completion => none

def listed : Command → List (String × String)
  | root => [compile, completion, help, version].map fun c => (c.name, c.summary)
  | completion => Shell.all.map fun shell => ((script shell).name, (script shell).summary)
  | _ => []

def globalFlags : List Flag :=
  [{ name := "config", kind := .text "", usage := "Config file, applied over user and project config" }]

def helpFlag (c : Command) : Flag :=
  { name := "help", kind := .switch (some 'h'), usage := "help for " ++ c.name }

def versionFlag : Flag :=
  { name := "version", kind := .switch (some 'v'), usage := "version for " ++ program }

def flags : Command → List Flag
  | root => [root.helpFlag, versionFlag]
  | compile =>
    [{ name := "dump", kind := .text "", usage := "Print the compiled element with this path" },
     { name := "format", kind := .text "text", usage := "Output format: text or json" },
     compile.helpFlag,
     { name := "log-format", kind := .text "",
       usage := "Log format: text or json (overrides logging.format)" },
     { name := "log-level", kind := .text "",
       usage := "Log level: debug, info, warn, error or silent (overrides logging.level)" },
     { name := "metrics-file", kind := .text "",
       usage := "Write Prometheus metrics to this file (overrides metrics.file)" },
     { name := "quiet", kind := .switch none, usage := "Suppress output (exit code only)" },
     { name := "schema-only", kind := .switch none,
       usage := "Run schema validation only, skip compilation" },
     { name := "strict", kind := .switch none, usage := "Treat warnings as errors" },
     { name := "watch", kind := .switch none, usage := "Recompile when an input file changes" }]
  | script shell =>
    [(script shell).helpFlag,
     { name := "no-descriptions", kind := .switch none,
       usage := "disable completion descriptions" }]
  | c => [c.helpFlag]

/-! ## Finding the command -/

def skipsNext (s : String) : Bool :=
  let cs := s.toList
  !cs.contains '=' &&
    match cs with
    | '-' :: '-' :: _ => true
    | ['-', c] => c.toNat < 0x80
    | _ => false

def isDashed (s : String) : Bool := s.toList.head? = some '-'

/-- The words among arguments. If no more than one argument follows an argument with a
value, there are none after it. -/
def words : List String → List String
  | [] => []
  | s :: rest =>
    if s = "--" then []
    else if skipsNext s then
      match rest with
      | _ :: t :: rest => words (t :: rest)
      | _ => []
    else if s != "" && !isDashed s then s :: words rest
    else words rest

def withoutWord (word : String) : List String → List String
  | [] => []
  | s :: rest =>
    if s = "--" then s :: rest
    else if skipsNext s then
      match rest with
      | [] => [s]
      | value :: rest => s :: value :: withoutWord word rest
    else if !isDashed s && s = word then rest
    else s :: withoutWord word rest

def all : List Command := [compile, version, help, completion]

def findScript (args : List String) : Command × List String :=
  match words args with
  | [] => (completion, args)
  | word :: _ =>
    match Shell.all.find? fun s => s.name = word with
    | some s => (script s, withoutWord word args)
    | none => (completion, args)

/-- The command that is meant, and its arguments; or the word that is no command. -/
def find (args : List String) : Except String (Command × List String) :=
  match words args with
  | [] => .ok (root, args)
  | word :: _ =>
    match all.find? fun c => c.name = word with
    | some completion => .ok (findScript (withoutWord word args))
    | some c => .ok (c, withoutWord word args)
    | none => .error word

/-- The row of distances between a text and the beginnings of another one, after one more
byte of the first. `left` is the distance at the place before, and `corner` the one before
it in the row above. -/
def nextDistances (c : UInt8) : (left corner : Nat) → List UInt8 → List Nat → List Nat
  | left, corner, d :: ds, above :: rest =>
    let n := min (min (left + 1) (above + 1)) (corner + if c = d then 0 else 1)
    n :: nextDistances c n above ds rest
  | _, _, _, _ => []

/-- The number of bytes to insert, remove or change that two texts differ by. -/
def distance (a b : List UInt8) : Nat :=
  let rows := a.foldl
    (fun row c => match row with
      | [] => []
      | first :: rest => (first + 1) :: nextDistances c (first + 1) first b rest)
    (List.range (b.length + 1))
  rows.getLast?.getD 0

/-- The small letter of a character. Two letters that are not Latin ones have a small letter
that is: the sign for kelvin and the capital I with a dot. -/
def small (c : Char) : Char :=
  if c.toNat = 0x212A then 'k' else if c.toNat = 0x130 then 'i' else c.toLower

def smallBytes (text : String) : List UInt8 := (text.map small).toUTF8.toList

/-- The commands that a word may have been meant for: those it begins, and those it
differs little from. The case of letters does not count. -/
def suggestions (word : String) : List Command :=
  let typed := smallBytes word
  [compile, version, completion].filter fun c =>
    let known := smallBytes c.name
    distance typed known ≤ 2 || typed.isPrefixOf known

def unknownWord (word : String) (below : Command) : String :=
  "unknown command " ++ quoted word ++ " for " ++ quoted below.path

def unknownCommand (word : String) : String :=
  unknownWord word root ++
    match suggestions word with
    | [] => ""
    | cs => "\n\nDid you mean this?\n" ++ String.join (cs.map fun c => "\t" ++ c.name ++ "\n")

/-! ## Help -/

def padded (width : Nat) (s : String) : String :=
  s ++ String.ofList (List.replicate (width - s.length) ' ')

def flagHead (f : Flag) : String :=
  (if f.short?.isSome then "  " else "      ") ++ f.title ++
    match f.kind with
    | .text _ => " string"
    | .switch _ => ""

def flagTail (f : Flag) : String :=
  f.usage ++
    match f.kind with
    | .text "" => ""
    | .text default => " (default " ++ quoted default ++ ")"
    | .switch _ => ""

def flagLines (fs : List Flag) : String :=
  let width := (fs.map fun f => (flagHead f).length).foldl max 0
  "\n".intercalate (fs.map fun f => padded width (flagHead f) ++ "   " ++ flagTail f)

def usage (c : Command) (flags : List Flag) : String :=
  let subcommands := c.listed
  let shown := if c = root then (globalFlags ++ flags) else flags
  "Usage:" ++
    (match c.useLine? with
      | some line => "\n  " ++ line
      | none => "") ++
    (if subcommands.isEmpty then "" else
      "\n  " ++ c.path ++ " [command]\n\nAvailable Commands:" ++
        String.join (subcommands.map fun s => "\n  " ++ padded 11 s.1 ++ " " ++ s.2)) ++
    "\n\nFlags:\n" ++ flagLines shown ++
    (if c = root then "" else "\n\nGlobal Flags:\n" ++ flagLines globalFlags) ++
    (if subcommands.isEmpty then "" else
      "\n\nUse \"" ++ c.path ++ " [command] --help\" for more information about a command.") ++
    "\n"

def helpText (c : Command) : String := c.description ++ "\n\n" ++ c.usage c.flags

/-- A text as it stands in a list of topics: between grave accents if it can be. -/
def topic (s : String) : String :=
  let plain := s.toList.all fun c =>
    c != '\x60' && c != Char.ofNat 0xFEFF && c != Char.ofNat 0x7F && (0x20 ≤ c.toNat || c = '\t')
  if plain then "\x60" ++ s ++ "\x60" else quoted s

def helpOn (words : List String) : String :=
  match find words with
  | .ok (c, _) => c.helpText
  | .error _ =>
    "Unknown help topic [" ++ " ".intercalate (words.map topic) ++ "]\n" ++ root.usage []

end Command
end ModelGraph
