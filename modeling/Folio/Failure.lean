import Folio.Directive.Definitions
import Folio.Directive.Expansion
import Folio.Files.Access
import Folio.Settings

/-!
# Failures

Everything that can end a step of a build, and its wording.
-/

namespace Folio

inductive Failure where
  /-- A file or folder stood in the way. -/
  | file (error : FileError)
  /-- The bytes of a file are no text. -/
  | undecodable (fault : Utf8.Fault)
  /-- A path was to be made of an option without a value. -/
  | noPath
  /-- A path inside a folder was to be made of an option without a value. -/
  | noPathInside
  /-- A word of a command, at this position, was to be made of an option without a value. -/
  | noWord (position : Nat)
  /-- A directive of a source was refused. -/
  | directive (error : Directive.PlacedError)
  /-- The definitions file was refused. -/
  | definitions (place : Text) (cause : Directive.DefinitionError)
  /-- A setting or the config file was refused. -/
  | setting (error : SettingError)
  /-- There is no config file. -/
  | configMissing (path : Text)
  /-- There is no Markdown file. -/
  | markdownMissing (path : Text)
  /-- There is no template. -/
  | templateMissing (path : Text)
  /-- Nothing can tell when files change. -/
  | watcherMissing
  /-- The part of the system that watches files is not there at all. -/
  | watcherUndefined
  /-- A file was to be copied onto itself; the target was found inside a folder if `inside` is
  set. -/
  | sameFile (source target : Text) (inside : Bool)
  /-- A child command failed. -/
  | childFailed (label : Text) (code : Int)
  /-- The child commands made no page. -/
  | noPages (folder : Text)
  deriving DecidableEq, Repr

namespace Failure

def ofRead : ReadError → Failure
  | .file error => .file error
  | .undecodable fault => .undecodable fault

def message : Failure → Text
  | file error => error.message
  | undecodable fault => fault.message
  | noPath => "expected str, bytes or os.PathLike object, not list"
  | noPathInside => "unsupported operand type(s) for /: 'PosixPath' and 'list'"
  | noWord position =>
    "sequence item " ++ Text.ofNat position ++ ": expected str instance, list found"
  | directive error => error.message
  | definitions place cause => place ++ ": " ++ cause.message
  | setting error => error.message
  | configMissing path => "Config file not found: " ++ path
  | markdownMissing path => "Markdown file not found: " ++ path
  | templateMissing path => "Template file not found: " ++ path
  | watcherMissing => "watchdog is not installed. Install it with `pip install watchdog`."
  | watcherUndefined => "name 'FileSystemEventHandler' is not defined"
  | sameFile source target inside =>
    let shown : Text := "PosixPath(" ++ source.quoted ++ ") and "
    if inside then shown ++ target.quoted ++ " are the same file"
    else shown ++ "PosixPath(" ++ target.quoted ++ ") are the same file"
  | childFailed label code =>
    label ++ " failed (exit code " ++ Text.ofInt code ++ ")"
  | noPages folder =>
    "Build step completed but produced no .html files.\nExpected output directory: " ++ folder ++
      "\nLikely causes:\n- build.py was pointed at the wrong --src-dir\n" ++
      "- build.py ran in a different working directory than you expected\n"

end Failure

end Folio
