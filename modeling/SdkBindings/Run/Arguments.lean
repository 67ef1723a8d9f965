import SdkBindings.Numeral.Decimal
import SdkBindings.Run.Configuration
import SdkBindings.Text.DecimalDigit

/-!
# Arguments of the command line

An argument is an option if it starts with a dash.  A long option may be shortened as long as it stays
unambiguous, and its value may follow `=` or be the next argument.  Short options without a value may
share a dash, and the value of a short option may follow it directly.  A value that is written as `--`
in the argument of its option is withheld.  After an argument `--` there are no options.  The single
argument that belongs to no option is the directory of headers; all others are refused, after everything
else has been looked at.
-/

namespace SdkBindings.Arguments

/-- The options. -/
inductive Switch where
  /-- Shows how the program is used. -/
  | help
  /-- The output directory. -/
  | output
  /-- The headers. -/
  | headers
  /-- The name of the module. -/
  | moduleName
  /-- The library that exports the functions. -/
  | library
  /-- Writes no dumps. -/
  | noDump
  /-- Shows details. -/
  | verbose
  deriving DecidableEq, Repr

namespace Switch

/-- All options. -/
def all : List Switch := [.help, .output, .headers, .moduleName, .library, .noDump, .verbose]

/-- How an option is written. -/
def spellings : Switch → List String
  | .help => ["-h", "--help"]
  | .output => ["-o", "--output"]
  | .headers => ["--headers"]
  | .moduleName => ["--module-name"]
  | .library => ["--dll-name"]
  | .noDump => ["--no-dump"]
  | .verbose => ["-v", "--verbose"]

/-- Whether an option has a value. -/
def hasValue : Switch → Bool
  | .output | .headers | .moduleName | .library => true
  | .help | .noDump | .verbose => false

/-- The name of an option in messages. -/
def name (s : Switch) : String :=
  "/".intercalate s.spellings

/-- All spellings with their options. -/
def table : List (String × Switch) :=
  all.flatMap fun s => s.spellings.map fun spelling => (spelling, s)

end Switch

/-- Why arguments are refused. -/
inductive Error where
  /-- A shortened option stands for several. -/
  | ambiguous (text : String) (candidates : List String)
  /-- An option lacks its value. -/
  | noValue (s : Switch)
  /-- An option without a value has been given one. -/
  | unusedValue (s : Switch) (value : String)
  /-- Arguments that mean nothing. -/
  | unrecognized (texts : List String)
  deriving DecidableEq, Repr

/-- The error as a message. -/
def Error.message : Error → String
  | .ambiguous text candidates =>
    "ambiguous option: " ++ text ++ " could match " ++ ", ".intercalate candidates
  | .noValue s => "argument " ++ s.name ++ ": expected one argument"
  | .unusedValue s value =>
    "argument " ++ s.name ++ ": ignored explicit argument " ++ Text.quote value
  | .unrecognized texts => "unrecognized arguments: " ++ " ".intercalate texts

/-! ## What an argument is -/

/-- What an argument is. -/
inductive Word where
  /-- No option. -/
  | plain (text : String)
  /-- An option, whether it is a short one, and the text that follows it in the same argument. -/
  | option (s : Switch) (isShort : Bool) (attached : Option (List Char))
  /-- Written like an option, but none. -/
  | unknown (text : String)
  /-- The end of the options. -/
  | terminator
  deriving DecidableEq, Repr

/-- Whether an option is written with one dash. -/
def isShort (spelling : List Char) : Bool :=
  (spelling.drop 1).head? ≠ some '-'

/-- Whether a text is a negative number. -/
def isNegativeNumber : List Char → Bool
  | '-' :: digits =>
    let whole := digits.takeWhile Text.isDecimalDigit
    match digits.drop whole.length with
    | [] | ['\n'] => whole ≠ []
    | '.' :: rest =>
      let fraction := rest.takeWhile Text.isDecimalDigit
      fraction ≠ [] && (rest.drop fraction.length = [] || rest.drop fraction.length = ['\n'])
    | _ => false
  | _ => false

/-- A text before its first `=`, and what follows it. -/
def splitEquals (text : List Char) : List Char × Option (List Char) :=
  let name := text.takeWhile (· ≠ '=')
  match text.drop name.length with
  | [] => (name, none)
  | _ :: value => (name, some value)

/-- The options that a text without a spelling of its own can stand for. -/
def candidates (text : List Char) : List (String × Switch × Option (List Char)) :=
  if isShort text then
    (Switch.table.filter fun (spelling, _) => spelling.toList = text.take 2).map fun (spelling, s) =>
      (spelling, s, some (text.drop 2))
  else
    let (start, attached) := splitEquals text
    (Switch.table.filter fun (spelling, _) => start.isPrefixOf spelling.toList).map
      fun (spelling, s) => (spelling, s, attached)

/-- What an argument before `--` is. -/
def classify (text : String) : Except Error Word :=
  let chars := text.toList
  if chars.head? ≠ some '-' then .ok (.plain text)
  else
    match Switch.table.lookup text with
    | some s => .ok (.option s (isShort chars) none)
    | none =>
      if chars.length = 1 then .ok (.plain text)
      else
        let (start, attached) := splitEquals chars
        match Switch.table.lookup (String.ofList start), attached with
        | some s, some value => .ok (.option s (isShort start) (some value))
        | _, _ =>
          match candidates chars with
          | [] =>
            if isNegativeNumber chars || chars.contains ' ' then .ok (.plain text)
            else .ok (.unknown text)
          | [(spelling, s, attached)] => .ok (.option s (isShort spelling.toList) attached)
          | several => .error (.ambiguous text (several.map (·.1)))

/-- What the arguments are. -/
def classifyAll : List String → Except Error (List Word)
  | [] => .ok []
  | text :: rest =>
    if text = "--" then .ok (.terminator :: rest.map Word.plain)
    else do
      let word ← classify text
      let words ← classifyAll rest
      pure (word :: words)

/-! ## What the arguments say -/

/-- A thing that an argument says. -/
inductive Saying where
  /-- An option without a value. -/
  | flag (s : Switch)
  /-- An option with its value. -/
  | value (s : Switch) (text : String)
  /-- An option whose value is the next argument. -/
  | wanting (s : Switch)
  deriving DecidableEq, Repr

/-- What an option says that is followed by the next argument. -/
def Saying.alone (s : Switch) : Saying :=
  if s.hasValue then .wanting s else .flag s

/-- What an option says that is followed by a text in the same argument: the text is its value.  The
text after a short option without a value is taken for further short options that share the dash. -/
def sayings (s : Switch) (isShort : Bool) (text : List Char) : Except Error (List Saying) :=
  if s.hasValue then .ok [.value s (String.ofList text)]
  else
    match text with
    | [] => .error (.unusedValue s "")
    | c :: rest =>
      if !isShort then .error (.unusedValue s (String.ofList (c :: rest)))
      else
        match Switch.table.lookup (String.ofList ['-', c]), rest with
        | none, _ => .error (.unusedValue s (String.ofList (c :: rest)))
        | some s', [] => .ok [.flag s, .alone s']
        | some s', d :: more => do
          let said ← sayings s' true (d :: more)
          pure (.flag s :: said)
termination_by text.length

/-- What an option says. -/
def optionSayings (s : Switch) (isShort : Bool) : Option (List Char) → Except Error (List Saying)
  | none => .ok [.alone s]
  | some text => sayings s isShort text

/-- What has been said so far. -/
structure State where
  /-- What has been chosen. -/
  choices : Choices
  /-- Whether the directory of headers may still be named. -/
  isOpen : Bool
  /-- What means nothing. -/
  extras : List String

/-- Nothing has been said. -/
def State.start : State := ⟨{}, true, []⟩

/-- What a run is asked for. -/
inductive Request where
  /-- To show how the program is used. -/
  | help
  /-- To generate a module. -/
  | generate (choices : Choices)
  deriving DecidableEq, Repr

/-- The value that a text gives, unless it withholds one. -/
def valueOf (text : String) : Option String :=
  if text = "--" then none else some text

/-- Choices with the value of an option. -/
def chooseValue (choices : Choices) (text : String) : Switch → Choices
  | .output => { choices with outputDirectory := some ((valueOf text).map .ofString) }
  | .headers => { choices with headers := some (((valueOf text).map Text.splitList).getD []) }
  | .moduleName => { choices with moduleName := some (valueOf text) }
  | .library => { choices with library := some ((valueOf text).getD Configuration.withheldText) }
  | .help | .noDump | .verbose => choices

/-- Choices with an option that has no value. -/
def chooseFlag (choices : Choices) : Switch → Choices
  | .noDump => { choices with dumps := some false }
  | .verbose => { choices with verbose := some true }
  | .help | .output | .headers | .moduleName | .library => choices

/-- Takes note of what an argument says; nothing more is looked at once help is asked for. -/
def State.note (state : State) (next : String) : List Saying → Option State
  | [] => some state
  | .flag .help :: _ => none
  | .flag s :: rest => State.note { state with choices := chooseFlag state.choices s } next rest
  | .value s text :: rest =>
    State.note { state with choices := chooseValue state.choices text s } next rest
  | .wanting s :: rest =>
    State.note { state with choices := chooseValue state.choices next s } next rest

/-- The option whose value is the next argument. -/
def wanting? (said : List Saying) : Option Switch :=
  said.findSome? fun
    | .wanting s => some s
    | _ => none

/-- A state with the directory of headers. -/
def State.name (state : State) (text : String) : State :=
  { state with
    choices := { state.choices with includeDirectory := some (.ofString text) }, isOpen := false }

/-- A state with an argument that means nothing. -/
def State.extra (state : State) (text : String) : State :=
  { state with extras := state.extras ++ [text] }

/-- What the arguments ask for.  A `--` that stands next to the directory of headers belongs to it. -/
def interpret (state : State) : List Word → Except Error Request
  | [] =>
    if state.extras = [] then .ok (.generate state.choices) else .error (.unrecognized state.extras)
  | .plain text :: .terminator :: rest =>
    if state.isOpen then interpret (state.name text) rest
    else interpret (state.extra text) (.terminator :: rest)
  | .plain text :: rest =>
    interpret (if state.isOpen then state.name text else state.extra text) rest
  | .terminator :: .plain text :: rest =>
    if state.isOpen then interpret (state.name text) rest
    else interpret (state.extra "--") (.plain text :: rest)
  | .terminator :: rest =>
    interpret (if state.isOpen then { state with isOpen := false } else state.extra "--") rest
  | .unknown text :: rest => interpret (state.extra text) rest
  | .option s isShort attached :: rest => do
    let said ← optionSayings s isShort attached
    match wanting? said with
    | none =>
      match state.note "" said with
      | none => pure .help
      | some state => interpret state rest
    | some s =>
      match rest with
      | .plain text :: rest =>
        match state.note text said with
        | none => pure .help
        | some state => interpret state rest
      | _ => .error (.noValue s)

/-- Reads the arguments of the command line. -/
def read (arguments : List String) : Except Error Request := do
  let words ← classifyAll arguments
  interpret .start words

end SdkBindings.Arguments
