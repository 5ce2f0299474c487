import ScriptHost.CommandLine.Grammar

/-!
# Reading command lines

An argument is an option if it starts with a dash, unless it is a dash alone, a negative
number, or an unknown word with a blank in it; behind a lone `--` nothing is an option.  An
option may be shortened as long as it fits one option only, its value may follow in the same
argument behind an equals sign, and switches of one letter may share an argument.

All arguments are classified first, so an ambiguous option is refused whatever stands before
it.  Then they are taken from the left, and the first one that does not fit ends the program
with the usage and a message.  The first argument that is no option names the subcommand,
which gets everything that follows.  What belongs nowhere is collected.
-/

namespace ScriptHost
namespace CommandLine

/-- How a command line ends a program: with a code, after some text. -/
structure Exit where
  code : Nat
  output : String
  errors : String
  deriving DecidableEq

/-- What has been read from a command line. -/
structure Parsed where
  /-- Names of options with their values, in order; a switch has the empty value. -/
  values : List (String × String)
  /-- The name of the subcommand. -/
  command : Option String
  /-- The arguments that belong nowhere. -/
  extras : List String
  deriving DecidableEq

namespace Parsed

/-- Nothing read so far. -/
def empty : Parsed := ⟨[], none, []⟩

/-- Everything of one reading, and then of another. -/
def append (p q : Parsed) : Parsed :=
  ⟨p.values ++ q.values, q.command.or p.command, p.extras ++ q.extras⟩

/-- All values of an option. -/
def all (p : Parsed) (name : String) : List String :=
  p.values.filterMap fun entry => if entry.1 = name then some entry.2 else none

/-- The value of an option that counts, the last one. -/
def last? (p : Parsed) (name : String) : Option String := (p.all name).getLast?

/-- Whether an option was given. -/
def has (p : Parsed) (name : String) : Bool := !(p.all name).isEmpty

end Parsed

/-- A value in the same argument as its option. -/
structure Attached where
  /-- Whether an equals sign precedes it. -/
  marked : Bool
  text : List Char
  deriving DecidableEq

/-- What an argument is. -/
inductive Item where
  | plain
  /-- The argument behind which nothing is an option. -/
  | dashes
  /-- An option under one of its spellings. -/
  | option (o : OptionSpec) (spelling : String) (attached : Option Attached)
  /-- An option that does not exist. -/
  | unknown
  deriving DecidableEq

namespace Command

/-- The spellings of all options with the options, in order. -/
def spellings (c : Command) : List (String × OptionSpec) :=
  c.options.flatMap fun o => o.spellings.map (·, o)

/-- The option of a spelling. -/
def find? (c : Command) (spelling : String) : Option OptionSpec := c.spellings.lookup spelling

/-- The part of an argument before its first equals sign, and the part behind it. -/
def divided (argument : List Char) : List Char × Option Attached :=
  let (head, rest) := argument.span (· != '=')
  match rest with
  | _ :: text => (head, some ⟨true, text⟩)
  | [] => (head, none)

/-- The options that a shortened argument can mean. -/
def candidates (c : Command) (argument : List Char) : List Item :=
  match argument with
  | '-' :: '-' :: _ =>
    let (head, attached) := divided argument
    c.spellings.filterMap fun (s, o) =>
      if head.isPrefixOf s.toList then some (.option o s attached) else none
  | _ => c.spellings.filterMap fun (s, o) =>
      if s.toList = argument.take 2 then some (.option o s (some ⟨false, argument.drop 2⟩))
      else if argument.isPrefixOf s.toList then some (.option o s none)
      else none

/-- Whether an argument is a negative number. -/
def isNegative (argument : List Char) : Bool :=
  let isDigit := fun c => (Text.digitValue? c).isSome
  match argument with
  | '-' :: body =>
    let (whole, rest) := body.span isDigit
    match rest with
    | [] => !whole.isEmpty
    | '.' :: fraction => !fraction.isEmpty && fraction.all isDigit
    | _ => false
  | _ => false

/-- What an argument before any `--` is; an error lists the spellings that it can mean. -/
def classify (c : Command) (argument : String) : Except (List String) Item :=
  let text := argument.toList
  if text.head? ≠ some '-' then .ok .plain
  else match c.find? argument with
    | some o => .ok (.option o argument none)
    | none =>
      if text.length = 1 then .ok .plain
      else
        let (head, attached) := divided text
        match attached, c.find? (String.ofList head) with
        | some value, some o => .ok (.option o (String.ofList head) (some value))
        | _, _ => match c.candidates text with
          | [item] => .ok item
          | [] => if isNegative text || text.contains ' ' then .ok .plain else .ok .unknown
          | items => .error (items.filterMap fun item => match item with
              | .option _ spelling _ => some spelling
              | _ => none)

end Command

namespace Grammar

/-- Ends the program because of a bad command line. -/
def refuse (g : Grammar) (message : String) : Exit :=
  ⟨2, "", g.usage ++ g.main.program ++ ": error: " ++ message ++ "\n"⟩

/-- Ends the program because something is wrong with an argument. -/
def refuseArgument (g : Grammar) (title message : String) : Exit :=
  g.refuse ("argument " ++ title ++ ": " ++ message)

/-- Arguments with what they are. -/
def classifyAll (g : Grammar) : List String → Except Exit (List (String × Item))
  | [] => .ok []
  | argument :: rest =>
    if argument = "--" then .ok ((argument, .dashes) :: rest.map (·, .plain))
    else match g.main.classify argument with
      | .ok item => (classifyAll g rest).map ((argument, item) :: ·)
      | .error spellings =>
        .error (g.refuse ("ambiguous option: " ++ argument ++ " could match "
          ++ ", ".intercalate spellings))

/-- The message for a value that is not among the names. -/
def badChoice (value : String) (names : List String) : String :=
  "invalid choice: " ++ Text.quotedString value ++ " (choose from "
    ++ ", ".intercalate (names.map Text.quotedString) ++ ")"

/-- Whether an option takes a value. -/
def takesValue (o : OptionSpec) : Bool :=
  match o.effect with
  | .value .. => true
  | .help | .switch => false

/-- Applies an option, to its value if it takes one. -/
def apply (g : Grammar) (o : OptionSpec) (value : String) : Except Exit Parsed :=
  let kept : Parsed := ⟨[(o.name, value)], none, []⟩
  match o.effect with
  | .help => .error ⟨0, g.helpPage, ""⟩
  | .switch | .value .text _ => .ok kept
  | .value (.choice names) _ =>
    if names.contains value then .ok kept
    else .error (g.refuseArgument o.title (badChoice value names))
  | .value .integer _ => match readInteger? value.toList with
    | some _ => .ok kept
    | none =>
      .error (g.refuseArgument o.title ("invalid int value: " ++ Text.quotedString value))

/-- Applies options in order. -/
def applyAll (g : Grammar) : List (OptionSpec × String) → Except Exit Parsed
  | [] => .ok .empty
  | (o, value) :: rest => do
    let done ← g.apply o value
    (applyAll g rest).map done.append

/-- What one argument asks for. -/
structure Request where
  /-- Options with their values, the values of switches being empty. -/
  complete : List (OptionSpec × String)
  /-- An option that still needs a value. -/
  pending : Option OptionSpec
  extras : List String

/-- The request of an option that stands alone. -/
def Request.alone (o : OptionSpec) : Request :=
  if takesValue o then ⟨[], some o, []⟩ else ⟨[(o, "")], none, []⟩

/-- The request of an option with text in the same argument.  The text is the value, or behind
a switch of one letter, if no equals sign divides them, the letters of further options. -/
def attachedRequest (g : Grammar) (o : OptionSpec) (short marked : Bool) :
    List Char → Except Exit Request
  | [] =>
    if takesValue o then .ok ⟨[(o, "")], none, []⟩
    else .error (g.refuseArgument o.title ("ignored explicit argument " ++ Text.quotedString ""))
  | c :: tail =>
    if takesValue o then .ok ⟨[(o, String.ofList (c :: tail))], none, []⟩
    else if !short || marked || c == '-' then
      .error (g.refuseArgument o.title
        ("ignored explicit argument " ++ Text.quotedString (String.ofList (c :: tail))))
    else
      let behind := fun r : Request => { r with complete := (o, "") :: r.complete }
      match g.main.find? (String.ofList ['-', c]), tail with
      | none, _ => .ok ⟨[(o, "")], none, [String.ofList ('-' :: c :: tail)]⟩
      | some next, [] => .ok (behind (.alone next))
      | some next, '=' :: value => (attachedRequest g next true true value).map behind
      | some next, d :: more => (attachedRequest g next true false (d :: more)).map behind

/-- The request of an option under one of its spellings. -/
def request (g : Grammar) (o : OptionSpec) (spelling : String) :
    Option Attached → Except Exit Request
  | none => .ok (.alone o)
  | some value => g.attachedRequest o (!spelling.startsWith "--") value.marked value.text

/-- Takes arguments from the left.  `command?` answers, where a subcommand can stand, what the
arguments from there on come to. -/
def takeAll (g : Grammar) (command? : List String → Option (Except Exit Parsed)) :
    List (String × Item) → Except Exit Parsed
  | [] => .ok .empty
  | (argument, .unknown) :: rest =>
    (takeAll g command? rest).map (Parsed.append ⟨[], none, [argument]⟩)
  | (_, .option o spelling attached) :: rest => do
    let r ← g.request o spelling attached
    match r.pending, rest with
    | none, rest => do
      let done ← g.applyAll r.complete
      (takeAll g command? rest).map (done.append ⟨[], none, r.extras⟩).append
    | some o, (value, .plain) :: rest => do
      let done ← g.applyAll (r.complete ++ [(o, value)])
      (takeAll g command? rest).map done.append
    | some o, _ => .error (g.refuseArgument o.title "expected one argument")
  | (argument, .dashes) :: rest =>
    match if rest.isEmpty then none else command? (argument :: rest.map (·.1)) with
    | some answer => answer
    | none => (takeAll g command? rest).map (Parsed.append ⟨[], none, [argument]⟩)
  | (argument, .plain) :: rest =>
    match command? (argument :: rest.map (·.1)) with
    | some answer => answer
    | none => (takeAll g command? rest).map (Parsed.append ⟨[], none, [argument]⟩)

/-- What a subcommand is called in a message. -/
def commandTitle : String := "command"

/-- Reads the name of a subcommand and its arguments. -/
def readCommand (g : Grammar) (arguments : List String) : Option (Except Exit Parsed) :=
  match g.commands, arguments with
  | [], _ => none
  | _, [] => none
  | _, name :: rest => some (match g.commands.lookup name with
    | none => .error (g.refuseArgument commandTitle (badChoice name g.names))
    | some (_, c) => do
      let items ← c.alone.classifyAll rest
      let inner ← c.alone.takeAll (fun _ => none) items
      .ok { inner with command := some name })

/-- Reads a command line, whatever else it holds. -/
def readKnown (g : Grammar) (arguments : List String) : Except Exit Parsed := do
  let items ← g.classifyAll arguments
  g.takeAll g.readCommand items

/-- Reads a command line that holds nothing else. -/
def read (g : Grammar) (arguments : List String) : Except Exit Parsed := do
  let parsed ← g.readKnown arguments
  if parsed.extras.isEmpty then .ok parsed
  else .error (g.refuse ("unrecognized arguments: " ++ " ".intercalate parsed.extras))

end Grammar
end CommandLine
end ScriptHost
