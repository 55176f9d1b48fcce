import Folio.Bindings
import Folio.Text.Digit
import Folio.Text.Quoted

/-!
# Command line arguments

A grammar says which options a command has: flags, options with one value, the request for help,
and whether one free argument is taken. Options may be shortened as long as it is clear which one
is meant, flags of one letter may be written together, and `--` ends the options.

Arguments are read in two steps. First each of them is classified on its own, so an ambiguous
option is refused wherever it stands. Then they are taken in order, until help is asked for or
something is refused.
-/

namespace Folio.Command

inductive OptionKind where
  /-- It is given or it is not. -/
  | flag
  /-- It has a value. -/
  | value
  /-- It asks for help. -/
  | help
  deriving DecidableEq, Repr

structure OptionSpec where
  /-- The word by which the command knows the option. -/
  key : Text
  /-- How the option is written. -/
  names : List Text
  kind : OptionKind
  /-- The options that cannot be given with this one, by their keys. -/
  rivals : List Text := []
  required : Bool := false
  deriving DecidableEq, Repr

/-- The name of an option in messages. -/
def OptionSpec.display (spec : OptionSpec) : Text := Text.join "/" spec.names

def helpOption : OptionSpec := { key := "help", names := ["-h", "--help"], kind := .help }

/-- A grammar of arguments, with the texts that explain it. -/
structure Grammar where
  program : Text
  usage : Text
  /-- What is shown behind the usage if help is asked for. -/
  explanation : Text
  options : List OptionSpec
  /-- Is one free argument taken? -/
  takesName : Bool
  deriving DecidableEq, Repr

inductive ArgumentError where
  | ambiguous (written : Text) (candidates : List Text)
  | noValue (option : Text)
  | ignoredValue (option value : Text)
  | conflict (option other : Text)
  | missing (options : List Text)
  | unrecognized (arguments : List Text)
  deriving DecidableEq, Repr

def ArgumentError.message : ArgumentError → Text
  | ambiguous written candidates =>
    "ambiguous option: " ++ written ++ " could match " ++ Text.join ", " candidates
  | noValue option => "argument " ++ option ++ ": expected one argument"
  | ignoredValue option value =>
    "argument " ++ option ++ ": ignored explicit argument " ++ value.quoted
  | conflict option other => "argument " ++ option ++ ": not allowed with argument " ++ other
  | missing options => "the following arguments are required: " ++ Text.join ", " options
  | unrecognized arguments => "unrecognized arguments: " ++ Text.join " " arguments

/-! ## Classifying -/

inductive Argument where
  /-- A value or a free argument. -/
  | plain (text : Text)
  /-- The mark behind which there are no options. -/
  | endOfOptions
  /-- An option, perhaps with a value in the same argument. A long option is written with two
  dashes. -/
  | option (spec : OptionSpec) (long : Bool) (value : Option Text)
  /-- Something that looks like an option and is none. -/
  | unknown (text : Text)
  deriving DecidableEq, Repr

/-- The options with their names, in the order of the grammar. -/
def Grammar.named (grammar : Grammar) : List (Text × OptionSpec) :=
  grammar.options.flatMap fun spec => spec.names.map fun name => (name, spec)

def Grammar.find? (grammar : Grammar) (name : Text) : Option OptionSpec :=
  grammar.named.lookup name

/-- Is the text made of digits, at least one? -/
def isDigits (text : Text) : Bool := text ≠ [] && text.all Text.isDecimalDigit

/-- Does the text look like a negative number? A line feed at its end does not matter. -/
def isNegativeNumber (text : Text) : Bool :=
  match text with
  | '-' :: rest =>
    let body := if rest.getLast? = some '\n' then rest.dropLast else rest
    let whole := body.takeWhile Text.isDecimalDigit
    isDigits body ||
      (body.drop whole.length).head? == some '.' && isDigits (body.drop (whole.length + 1))
  | _ => false

/-- Is the text written with two dashes? -/
def isLong (text : Text) : Bool := ("--" : Text).isPrefixOf text

/-- The options that a text with at least one dash can mean, with the value behind it. -/
def Grammar.candidates (grammar : Grammar) (text : Text) : List (Text × Argument) :=
  if isLong text then
    let (start, value) :=
      match text.cutAt "=" with
      | some (left, right) => (left, some right)
      | none => (text, none)
    (grammar.named.filter fun (name, _) => start.isPrefixOf name).map fun (name, spec) =>
      (name, .option spec true value)
  else
    (grammar.named.filter fun (name, _) => name == text.take 2).map fun (name, spec) =>
      (name, .option spec false (some (text.drop 2)))

/-- What an argument is that begins with a dash and is no option as it stands. -/
def Grammar.classifyDashed (grammar : Grammar) (text : Text) : Except ArgumentError Argument :=
  match grammar.candidates text with
  | [(_, argument)] => .ok argument
  | [] =>
    if isNegativeNumber text || ' ' ∈ text then .ok (.plain text) else .ok (.unknown text)
  | several => .error (.ambiguous text (several.map (·.1)))

def Grammar.classify (grammar : Grammar) (text : Text) : Except ArgumentError Argument :=
  if text.head? ≠ some '-' || text = ("-" : Text) then .ok (.plain text)
  else
    match grammar.find? text with
    | some spec => .ok (.option spec (isLong text) none)
    | none =>
      match text.cutAt "=" with
      | none => grammar.classifyDashed text
      | some (left, right) =>
        match grammar.find? left with
        | some spec => .ok (.option spec (isLong left) (some right))
        | none => grammar.classifyDashed text

def Grammar.classifyAll (grammar : Grammar) : List Text → Except ArgumentError (List Argument)
  | [] => .ok []
  | text :: rest =>
    if text = ("--" : Text) then .ok (.endOfOptions :: rest.map .plain)
    else do
      let argument ← grammar.classify text
      return argument :: (← grammar.classifyAll rest)

/-! ## Taking -/

inductive OptionValue where
  | text (content : Text)
  /-- The option was given, but without a value. -/
  | nothing
  deriving DecidableEq, Repr

namespace OptionValue

/-- The value that is written in the same argument as its option. The mark `--` is dropped there and
leaves nothing. -/
def ofWritten (written : Text) : OptionValue :=
  if written = ("--" : Text) then .nothing else .text written

/-- The text of a value, if it has one. -/
def text? : OptionValue → Option Text
  | text content => some content
  | nothing => none

/-- How a value is shown inside a text. -/
def shown : OptionValue → Text
  | text content => content
  | nothing => "[]"

end OptionValue

structure Arguments where
  /-- The keys of the options that were given. -/
  given : List Text := []
  /-- The values of the options, the last one first. -/
  values : List (Text × OptionValue) := []
  /-- The free argument. -/
  name : Option Text := none
  deriving DecidableEq, Repr

def Arguments.has (arguments : Arguments) (key : Text) : Bool := key ∈ arguments.given

/-- The value of an option that was given; the last one counts. -/
def Arguments.value? (arguments : Arguments) (key : Text) : Option OptionValue :=
  arguments.values.lookup key

/-- The value of an option, or a text if it was not given. -/
def Arguments.valueOr (arguments : Arguments) (key default : Text) : OptionValue :=
  (arguments.value? key).getD (.text default)

/-- What has been taken so far. -/
structure Taken where
  arguments : Arguments := {}
  /-- Can a free argument still be taken? -/
  nameOpen : Bool
  /-- What nothing took. -/
  extras : List Text := []
  deriving DecidableEq, Repr

inductive Stop where
  | help
  | refused (error : ArgumentError)
  deriving DecidableEq, Repr

/-- The flags written together behind a first one, up to the option that ends them: what follows
that option in the same argument is its value. -/
def Grammar.unbundle (grammar : Grammar) (spec : OptionSpec) :
    Text → Except ArgumentError (List OptionSpec × OptionSpec × Option Text)
  | [] => .ok ([], spec, none)
  | c :: rest =>
    if spec.kind = .value then .ok ([], spec, some (c :: rest))
    else
      match grammar.find? ['-', c] with
      | none => .error (.ignoredValue spec.display (c :: rest))
      | some next => do
        let (flags, last, value) ← grammar.unbundle next rest
        return (spec :: flags, last, value)

/-- The options in one argument: flags, and the option that ends them with its value. -/
def Grammar.optionsIn (grammar : Grammar) (spec : OptionSpec) (long : Bool) (value : Option Text) :
    Except ArgumentError (List OptionSpec × OptionSpec × Option Text) :=
  match value with
  | none => .ok ([], spec, none)
  | some value =>
    if spec.kind = .value then .ok ([], spec, some value)
    else if long || value = [] then .error (.ignoredValue spec.display value)
    else grammar.unbundle spec value

def Grammar.take (grammar : Grammar) (taken : Taken) (spec : OptionSpec) (value : Text) :
    Except Stop Taken :=
  match grammar.options.find? fun other =>
    other.key ∈ spec.rivals && other.key ∈ taken.arguments.given with
  | some other => .error (.refused (.conflict spec.display other.display))
  | none =>
    let given := taken.arguments.given ++ [spec.key]
    match spec.kind with
    | .help => .error .help
    | .flag => .ok { taken with arguments := { taken.arguments with given } }
    | .value =>
      .ok { taken with
        arguments := { taken.arguments with
          given, values := (spec.key, .ofWritten value) :: taken.arguments.values } }

def Grammar.takeAll (grammar : Grammar) : Taken → List Argument → Except Stop Taken
  | taken, [] => .ok taken
  | taken, .unknown text :: rest =>
    grammar.takeAll { taken with extras := taken.extras ++ [text] } rest
  | taken, .plain text :: rest =>
    if taken.nameOpen then
      let taken :=
        { taken with arguments := { taken.arguments with name := some text }, nameOpen := false }
      match rest with
      | .endOfOptions :: rest => grammar.takeAll taken rest
      | rest => grammar.takeAll taken rest
    else grammar.takeAll { taken with extras := taken.extras ++ [text] } rest
  | taken, .endOfOptions :: rest =>
    if taken.nameOpen then
      match rest with
      | .plain text :: rest =>
        grammar.takeAll
          { taken with arguments := { taken.arguments with name := some text }, nameOpen := false }
          rest
      | rest => grammar.takeAll { taken with nameOpen := false } rest
    else grammar.takeAll { taken with extras := taken.extras ++ [("--" : Text)] } rest
  | taken, .option spec long value :: rest => do
    let (flags, last, value) ← (grammar.optionsIn spec long value).mapError .refused
    match value with
    | some value =>
      let taken ← flags.foldlM (fun taken flag => grammar.take taken flag []) taken
      grammar.takeAll (← grammar.take taken last value) rest
    | none =>
      if last.kind = .value then
        match rest with
        | .plain text :: rest =>
          let taken ← flags.foldlM (fun taken flag => grammar.take taken flag []) taken
          grammar.takeAll (← grammar.take taken last text) rest
        | _ => .error (.refused (.noValue last.display))
      else
        let taken ← flags.foldlM (fun taken flag => grammar.take taken flag []) taken
        grammar.takeAll (← grammar.take taken last []) rest

def Grammar.parse (grammar : Grammar) (texts : List Text) : Except Stop Arguments := do
  let classified ← (grammar.classifyAll texts).mapError .refused
  let taken ← grammar.takeAll { nameOpen := grammar.takesName } classified
  let missing := grammar.options.filter fun spec =>
    spec.required && spec.key ∉ taken.arguments.given
  if missing ≠ [] then .error (.refused (.missing (missing.map (·.display))))
  else if taken.extras ≠ [] then .error (.refused (.unrecognized taken.extras))
  else return taken.arguments

/-- The text shown if help is asked for. -/
def Grammar.help (grammar : Grammar) : Text := grammar.usage ++ "\n" ++ grammar.explanation

/-- The text shown if arguments are refused. -/
def Grammar.complaint (grammar : Grammar) (error : ArgumentError) : Text :=
  grammar.usage ++ grammar.program ++ ": error: " ++ error.message ++ "\n"

end Folio.Command
