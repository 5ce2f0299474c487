import ScriptHost.Number.Reading
import ScriptHost.Text.Quoted

/-!
# Command line grammars

What a command line may hold: options with their spellings, what each of them does, and the
subcommands.  The texts that tell people about a grammar are derived from it: the usage line
and the help page.

Both are set for lines of 78 characters.  A usage that is longer is broken between its parts,
the later lines starting below the first part; the help of an option stands in a column at
most 24 characters from the left, or on a line of its own if the option reaches into it.
-/

namespace ScriptHost
namespace CommandLine

/-- What the value of an option can be. -/
inductive ValueForm where
  | text
  | choice (names : List String)
  | integer
  deriving DecidableEq

/-- What an option does. -/
inductive Effect where
  /-- Prints the help page and ends the program. -/
  | help
  | switch
  /-- Takes a value, which the texts show by a placeholder. -/
  | value (form : ValueForm) (placeholder : String)
  deriving DecidableEq

/-- An option. -/
structure OptionSpec where
  /-- The name its values are found under. -/
  name : String
  /-- The ways to write it, the short one first. -/
  spellings : List String
  effect : Effect
  help : String
  deriving DecidableEq

/-- A program or a subcommand with its own options. -/
structure Command where
  /-- How it is called. -/
  program : String
  summary : String
  options : List OptionSpec

/-- A program with subcommands, each with the line that the help page says about it. -/
structure Grammar where
  main : Command
  commands : List (String × String × Command)

/-- The option that asks for the help page. -/
def helpOption : OptionSpec :=
  ⟨"help", ["-h", "--help"], .help, "show this help message and exit"⟩

/-- Names in braces, of which one has to be chosen. -/
def choices (names : List String) : String := "\x7b" ++ ",".intercalate names ++ "\x7d"

namespace OptionSpec

/-- What stands for the value in the texts; none if there is no value. -/
def placeholder? (o : OptionSpec) : Option String :=
  match o.effect with
  | .value (.choice names) _ => some (choices names)
  | .value _ placeholder => some placeholder
  | .help | .switch => none

/-- A spelling with what follows it. -/
def invocation (o : OptionSpec) (spelling : String) : String :=
  match o.placeholder? with
  | some p => spelling ++ " " ++ p
  | none => spelling

/-- The part of a usage line. -/
def usagePart (o : OptionSpec) : String := "[" ++ o.invocation (o.spellings.headD "") ++ "]"

/-- The option at the head of its line on the help page. -/
def head (o : OptionSpec) : String := ", ".intercalate (o.spellings.map o.invocation)

/-- What an option is called in a message. -/
def title (o : OptionSpec) : String := "/".intercalate o.spellings

end OptionSpec

/-! ## Usage -/

/-- The greatest length of a line. -/
def lineWidth : Nat := 78

/-- So many blanks. -/
def blanks (n : Nat) : String := String.ofList (List.replicate n ' ')

/-- Parts in lines: a part that would go beyond the width starts a new line, of which the first
`indent` characters are taken.  `used` characters of the current line are taken already, the
blank before the next part not counted. -/
def fill (indent : Nat) : Nat → List String → List String → List (List String)
  | _, line, [] => if line.isEmpty then [] else [line]
  | used, line, part :: rest =>
    if lineWidth < used + 1 + part.length && !line.isEmpty then
      line :: fill indent (indent - 1 + part.length + 1) [part] rest
    else fill indent (used + part.length + 1) (line ++ [part]) rest

def usageWord : String := "usage: "

/-- The usage of a program from its parts: the options, and what follows them. -/
def usageOf (program : String) (options others : List String) : String :=
  let joined := " ".intercalate
  let line := usageWord ++ joined (program :: (options ++ others))
  if line.length ≤ lineWidth then line ++ "\n"
  else
    let indent := usageWord.length + program.length + 1
    let first := fill indent (usageWord.length - 1) [] (program :: options)
    let lines := (first ++ fill indent (indent - 1) [] others).map joined
    usageWord ++ ("\n" ++ blanks indent).intercalate lines ++ "\n"

namespace Grammar

/-- The names of the subcommands. -/
def names (g : Grammar) : List String := g.commands.map (·.1)

/-- The usage of the program itself. -/
def usage (g : Grammar) : String :=
  let others := if g.commands.isEmpty then [] else [choices g.names, "..."]
  usageOf g.main.program (g.main.options.map OptionSpec.usagePart) others

end Grammar

/-! ## Help -/

/-- A line of the help page, set in by some characters. -/
structure HelpLine where
  indent : Nat
  head : String
  help : String

/-- The column at which help stands at most. -/
def helpLimit : Nat := 24

/-- The column of the help for the given lines. -/
def helpColumn (lines : List HelpLine) : Nat :=
  min ((lines.map fun l => l.head.length + 2).foldl max 0 + 2) helpLimit

/-- A line of the help page with its help in a column. -/
def HelpLine.text (column : Nat) (l : HelpLine) : String :=
  let width := column - l.indent - 2
  if l.head.length ≤ width then
    blanks l.indent ++ l.head ++ blanks (width - l.head.length) ++ "  " ++ l.help ++ "\n"
  else blanks l.indent ++ l.head ++ "\n" ++ blanks column ++ l.help ++ "\n"

/-- A titled group of lines; an empty one is left out. -/
def helpSection (column : Nat) (title : String) (lines : List HelpLine) : List String :=
  if lines.isEmpty then [] else [title ++ ":\n" ++ String.join (lines.map (HelpLine.text column))]

/-- The lines of the options. -/
def Command.optionLines (c : Command) : List HelpLine :=
  c.options.map fun o => ⟨2, o.head, o.help⟩

/-- What the help page says above the subcommands. -/
def commandsHelp : String := "Commands"

/-- The lines of the subcommands. -/
def Grammar.commandLines (g : Grammar) : List HelpLine :=
  if g.commands.isEmpty then []
  else ⟨2, choices g.names, commandsHelp⟩ :: g.commands.map fun (name, help, _) => ⟨4, name, help⟩

/-- The help page: usage, summary, subcommands and options. -/
def Grammar.helpPage (g : Grammar) : String :=
  let column := helpColumn (g.commandLines ++ g.main.optionLines)
  let summary := if g.main.summary.isEmpty then [] else [g.main.summary ++ "\n"]
  "\n".intercalate ([g.usage] ++ summary ++
    helpSection column "positional arguments" g.commandLines ++
    helpSection column "options" g.main.optionLines)

/-- A subcommand as a program of its own. -/
def Command.alone (c : Command) : Grammar := ⟨c, []⟩

end CommandLine
end ScriptHost
