import LoxInterpreter.Text.Quoted

/-!
# Options of the command line

Arguments are told apart one by one (`Word.classify`) and then used in order (`Options.read`).
Options may stand anywhere; short ones can be joined, long ones shortened as long as that is not
ambiguous; after `--` nothing is an option any more. One argument that is no option names the
script.
-/

namespace LoxInterpreter

/-- The options. -/
inductive Flag where
  | help
  | check
  | tree
  | verbose
  deriving DecidableEq, Repr

namespace Flag

/-- The options in the order of their declaration. -/
def all : List Flag := [help, check, tree, verbose]

/-- The letter of the short form. -/
def letter : Flag → Char
  | help => 'h'
  | check => 'c'
  | tree => 't'
  | verbose => 'v'

/-- The short form. -/
def short (f : Flag) : String := String.ofList ['-', f.letter]

/-- The long form. -/
def long : Flag → String
  | help => "--help"
  | check => "--check"
  | tree => "--tree"
  | verbose => "--verbose"

/-- The option that a letter stands for. -/
def ofLetter? (c : Char) : Option Flag := all.find? (·.letter == c)

/-- The option with exactly this short or long form, and whether it is the long one. -/
def ofText? (text : String) : Option (Flag × Bool) :=
  match all.find? (·.short == text) with
  | some f => some (f, false)
  | none => (all.find? (·.long == text)).map (·, true)

end Flag

/-- What can be wrong with the arguments. -/
inductive UsageError where
  | ambiguous (argument : String) (candidates : List Flag)
  | ignoredArgument (flag : Flag) (argument : String)
  | unrecognized (arguments : List String)
  deriving DecidableEq, Repr

/-- The wording of a usage error. -/
def UsageError.message : UsageError → String
  | ambiguous argument candidates =>
    "ambiguous option: " ++ argument ++ " could match " ++
      ", ".intercalate (candidates.map Flag.long)
  | ignoredArgument flag argument =>
    "argument " ++ flag.short ++ "/" ++ flag.long ++ ": ignored explicit argument " ++
      Quoted.encode argument
  | unrecognized arguments => "unrecognized arguments: " ++ " ".intercalate arguments

/-- An argument by its form. -/
inductive Word where
  /-- An option; `long` tells its form, and `attached` is the text joined to it. -/
  | flag (f : Flag) (long : Bool) (attached : Option String)
  /-- It looks like an option and is none. -/
  | unknown (text : String)
  | positional (text : String)
  /-- The mark after which nothing is an option. -/
  | separator
  deriving DecidableEq, Repr

namespace Word

/-- A text up to its first equals sign and from there on, the sign left out. -/
def splitEquals (text : List Char) : List Char × Option (List Char) :=
  let before := text.takeWhile (· != '=')
  match text.drop before.length with
  | _ :: after => (before, some after)
  | [] => (before, none)

/-- A minus sign and a number look like an option but are none. A line feed at the end does not
count. -/
def isNegativeNumber (text : List Char) : Bool :=
  let isDigit (c : Char) : Bool := '0' ≤ c && c ≤ '9'
  match text with
  | '-' :: number =>
    let number := if number.getLast? = some '\n' then number.dropLast else number
    let fraction := number.dropWhile isDigit
    match fraction with
    | [] => !number.isEmpty
    | '.' :: places => !places.isEmpty && places.all isDigit
    | _ => false
  | _ => false

/-- An argument that looks like an option and is none. A number or a space gives it away. -/
def unmatched (text : String) : Word :=
  if isNegativeNumber text.toList || text.toList.contains ' ' then .positional text
  else .unknown text

/-- Tell what an argument before the separator is. -/
def classify (text : String) : Except UsageError Word :=
  match text.toList with
  | '-' :: second :: rest =>
    match Flag.ofText? text with
    | some (f, long) => .ok (.flag f long none)
    | none =>
      let (before, after) := splitEquals text.toList
      match after.bind fun _ => Flag.ofText? (String.ofList before) with
      | some (f, long) => .ok (.flag f long (after.map String.ofList))
      | none =>
        if second = '-' then
          match Flag.all.filter fun f => before.isPrefixOf f.long.toList with
          | [] => .ok (unmatched text)
          | [f] => .ok (.flag f true (after.map String.ofList))
          | candidates => .error (.ambiguous text candidates)
        else
          match Flag.ofLetter? second with
          | some f => .ok (.flag f false (some (String.ofList rest)))
          | none => .ok (unmatched text)
  | _ => .ok (.positional text)

/-- Tell what the arguments are. -/
def classifyAll : List String → Except UsageError (List Word)
  | [] => .ok []
  | text :: rest =>
    if text = "--" then .ok (.separator :: rest.map .positional)
    else do
      let word ← classify text
      let words ← classifyAll rest
      return word :: words

end Word

/-- The options as given, and the script if there is one. -/
structure Options where
  script : Option String
  check : Bool
  tree : Bool
  /-- How often the option was given. -/
  verbose : Nat
  deriving DecidableEq, Repr

/-- What the arguments ask for. -/
inductive Request where
  | help
  | start (options : Options)
  deriving DecidableEq, Repr

namespace Options

/-- No option and no script. -/
def initial : Options := ⟨none, false, false, 0⟩

/-- Take an option into account. Asking for help is not kept here. -/
def add (o : Options) : Flag → Options
  | .help => o
  | .check => { o with check := true }
  | .tree => { o with tree := true }
  | .verbose => { o with verbose := o.verbose + 1 }

/-- The options that letters joined to a short option stand for. The first letter that stands for
none is blamed on the option before it, together with all that follows. -/
def joined (f : Flag) : List Char → Except UsageError (List Flag)
  | [] => .ok []
  | c :: rest =>
    match Flag.ofLetter? c with
    | some g => (g :: ·) <$> joined g rest
    | none => .error (.ignoredArgument f (String.ofList (c :: rest)))

/-- The options that one word stands for. A long option takes no text, and a short one no empty
text. -/
def flagsOf (f : Flag) (long : Bool) : Option String → Except UsageError (List Flag)
  | none => .ok [f]
  | some attached =>
    if long || attached.isEmpty then .error (.ignoredArgument f attached)
    else (f :: ·) <$> joined f attached.toList

/-- How far the arguments have been used. -/
structure Progress where
  options : Options
  /-- The word before was taken as the script. -/
  behindScript : Bool
  /-- Words that nobody wanted. -/
  extras : List String

/-- Use the words in order. Help is given at once, whatever follows. The separator is dropped if
the script is still to come or has just been, and is one word too many otherwise. -/
def use : List Word → Progress → Except UsageError Request
  | [], p =>
    if p.extras.isEmpty then .ok (.start p.options) else .error (.unrecognized p.extras)
  | .flag f long attached :: rest, p => do
    let flags ← flagsOf f long attached
    if .help ∈ flags then return .help
    use rest { p with options := flags.foldl add p.options, behindScript := false }
  | .unknown text :: rest, p =>
    use rest { p with extras := p.extras ++ [text], behindScript := false }
  | .positional text :: rest, p =>
    if p.options.script.isNone then
      use rest { p with options := { p.options with script := some text }, behindScript := true }
    else use rest { p with extras := p.extras ++ [text], behindScript := false }
  | .separator :: rest, p =>
    if p.options.script.isNone || p.behindScript then use rest { p with behindScript := false }
    else use rest { p with extras := p.extras ++ ["--"], behindScript := false }

/-- What the arguments ask for. -/
def read (arguments : List String) : Except UsageError Request := do
  use (← Word.classifyAll arguments) ⟨initial, false, []⟩

end Options

end LoxInterpreter
