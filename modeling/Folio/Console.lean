import Folio.Text.Blank

/-!
# The console

Reports to the user: a label, a level, perhaps a place, and a message. Errors and warnings go to
the error stream and are emphasised where the terminal can show it; notes go to the output stream
and only if the console is verbose.
-/

namespace Folio

inductive Level where
  | error
  | warning
  | info
  deriving DecidableEq, Repr

def Level.word : Level → Text
  | .error => "ERROR"
  | .warning => "WARNING"
  | .info => "INFO"

structure Report where
  level : Level
  message : Text
  place : Option Text := none
  label : Text := "[build]"
  deriving DecidableEq, Repr

namespace Report

/-- A message without the place, if it begins with it: the report shows the place itself. -/
def dropPlace (place : Option Text) (message : Text) : Text :=
  match place with
  | none => message
  | some [] => message
  | some place =>
    let opening := place ++ ":"
    if opening.isPrefixOf message then Text.stripLeft (message.drop opening.length) else message

/-- The line of a report, without emphasis. -/
def line (report : Report) : Text :=
  let message := dropPlace report.place report.message
  match report.place with
  | some (c :: place) =>
    report.label ++ " " ++ report.level.word ++ " " ++ (c :: place) ++ ": " ++ message
  | _ => report.label ++ " " ++ report.level.word ++ ": " ++ message

end Report

/-- What the console knows about its terminal, and what has been printed. -/
structure Console where
  verbose : Bool := false
  /-- Is the variable set that forbids colours, to whatever value? -/
  noColor : Bool := false
  /-- The kind of the terminal. -/
  terminal : Option Text := none
  outIsTerminal : Bool := false
  errIsTerminal : Bool := false
  out : Text := []
  err : Text := []
  deriving DecidableEq, Repr

namespace Console

/-- Can the terminal show emphasis, on a stream that is a terminal or is not? -/
def supportsEmphasis (console : Console) (isTerminal : Bool) : Bool :=
  !console.noColor && isTerminal &&
    match console.terminal with
    | none => false
    | some kind => kind ≠ [] && kind ≠ ("dumb" : Text)

/-- A text in bold and reversed. -/
def emphasize (text : Text) : Text := "\x1b[1m\x1b[7m" ++ text ++ "\x1b[0m"

/-- Print a text to the output stream. -/
def print (console : Console) (text : Text) : Console :=
  { console with out := console.out ++ text }

/-- Print a text to the error stream. -/
def printError (console : Console) (text : Text) : Console :=
  { console with err := console.err ++ text }

/-- What a report prints to the output stream. -/
def noteOf (console : Console) (report : Report) : Text :=
  if report.level = .info && console.verbose then report.line ++ "\n" else []

/-- What a report prints to the error stream. -/
def complaintOf (console : Console) (report : Report) : Text :=
  if report.level = .info then []
  else if console.supportsEmphasis console.errIsTerminal then emphasize report.line ++ "\n"
  else report.line ++ "\n"

def reportAll (console : Console) (reports : List Report) : Console :=
  { console with
    out := console.out ++ reports.flatMap console.noteOf
    err := console.err ++ reports.flatMap console.complaintOf }

def report (console : Console) (report : Report) : Console := console.reportAll [report]

end Console

end Folio
