import Folio.Bindings
import Folio.Text.Blank
import Folio.Text.Lines
import Folio.Text.Quoted

/-!
# Settings

A build has six settings. Each of them comes from the command line if it is given there and not
empty, else from the config file, else from a built-in default, and must not be blank.

The config file has lines `key = value`; a later line for a key wins.
-/

namespace Folio

inductive Setting where
  /-- The folder of the Markdown sources. -/
  | sourceDir
  /-- The folder of the enhanced Markdown. -/
  | enhancedDir
  /-- The folder of the finished pages. -/
  | siteDir
  /-- The address of the style sheet. -/
  | css
  /-- The address of the reload script. -/
  | devJs
  /-- The document template. -/
  | template
  deriving DecidableEq, Repr

namespace Setting

/-- All settings, in the order in which they are checked. -/
def all : List Setting := [.sourceDir, .enhancedDir, .siteDir, .css, .devJs, .template]

/-- The key of a setting in the config file. -/
def key : Setting → Text
  | .sourceDir => "src_dir"
  | .enhancedDir => "preprocess_dir"
  | .siteDir => "build_dir"
  | .css => "css"
  | .devJs => "dev_js"
  | .template => "template"

/-- What a setting is if nobody sets it. -/
def default : Setting → Text
  | .sourceDir => "src"
  | .enhancedDir => "tmp/step-1-enhanced-md"
  | .siteDir => "tmp/step-2-resulting-html"
  | .css => "../../tools/style/style.css"
  | .devJs => "../../tools/scripts/reload.js"
  | .template => "tools/templates/page.html"

end Setting

/-- Why a setting, or a config file, is refused. -/
inductive SettingError where
  /-- A line has no equals sign. -/
  | noEquals (place line : Text)
  /-- A line has nothing before its equals sign. -/
  | emptyKey (place line : Text)
  /-- A line has nothing behind its equals sign. -/
  | emptyValue (place key : Text)
  /-- There are keys that are no settings. -/
  | unknownKeys (source : Text) (keys : List Text)
  /-- A setting is blank. -/
  | blank (key : Text)
  deriving DecidableEq, Repr

def SettingError.message : SettingError → Text
  | noEquals place line => place ++ ": expected 'key = value' (missing '='): " ++ line.quoted
  | emptyKey place line => place ++ ": empty key in line: " ++ line.quoted
  | emptyValue place key => place ++ ": empty value for key '" ++ key ++ "'"
  | unknownKeys source keys => source ++ ": unknown config keys: " ++ Text.join ", " keys
  | blank key => "Required setting '" ++ key ++ "' is not set (check config file or CLI)."

def requireValue (key : Text) (value : Option Text) : Except SettingError Text :=
  match value with
  | some value => if value.strip = [] then .error (.blank key) else .ok value
  | none => .error (.blank key)

/-- What a config line assigns; nothing if it is blank or a comment. -/
def readSetting (place line : Text) : Except SettingError (Option (Text × Text)) :=
  let trimmed := line.strip
  if trimmed = [] || trimmed.head? = some '#' then .ok none
  else
    match trimmed.cutAt "=" with
    | none => .error (.noEquals place line)
    | some (left, right) =>
      let key := left.strip
      let value := right.strip
      if key = [] then .error (.emptyKey place line)
      else if value = [] then .error (.emptyValue place key)
      else .ok (some (key, value))

/-- The assignments of a config file, each key once and with its last value. -/
def readConfig (source text : Text) : Except SettingError Bindings :=
  (text.lines.zipIdx 1).foldlM (fun bindings (line, number) => do
    match ← readSetting (source ++ ":" ++ Text.ofNat number) line with
    | none => return bindings
    | some (key, value) => return bindings.set key value) []

abbrev Settings := Setting → Text

namespace Settings

/-- The settings that a config file makes, if it has no other keys. -/
def ofConfig (source : Text) (config : Bindings) : Except SettingError Settings :=
  let unknown := Text.sortedSet (config.names.filter (· ∉ Setting.all.map (·.key)))
  if unknown ≠ [] then .error (.unknownKeys source unknown)
  else .ok fun setting => (config.get? setting.key).getD setting.default

/-- The settings with those replaced that are given on the command line and not empty. -/
def override (settings : Settings) (given : Setting → Option Text) : Settings := fun setting =>
  match given setting with
  | some (c :: rest) => c :: rest
  | _ => settings setting

/-- The settings, if none of them is blank. -/
def check (settings : Settings) : Except SettingError Settings :=
  match Setting.all.find? fun setting => (settings setting).strip = [] with
  | some setting => .error (.blank setting.key)
  | none => .ok settings

end Settings

end Folio
