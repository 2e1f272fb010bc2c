import Reckoner.Config.Bcl
import Reckoner.Config.Decode
import Reckoner.Files
import Reckoner.Yaml.Reader

/-!
# Loading configurations

* `Format` — the formats, by name;
* `Config.ofString` — a configuration from a text in a named format;
* `Config.load` — a configuration from a file, whose extension names the format.

The decoders of the formats stand for packages that are not part of the program.
-/

namespace Reckoner

open Text (lowerCase)

/-- A format of configurations. -/
inductive Format where
  | json
  | yaml
  | bcl

/-- The format of this name, in any case. -/
def Format.ofName? (name : String) : Option Format :=
  match lowerCase name with
  | "json" => some .json
  | "yaml" => some .yaml
  | "yml" => some .yaml
  | "bcl" => some .bcl
  | _ => none

/-- What a part of a YAML document gives a name. No name may be given twice within it. -/
def Global.ofYaml? : Yaml.Node → Option Global
  | .scalar s =>
    match s.meaning with
    | .int i => some (.number (Float.ofInt i))
    | .float x => some (.number x)
    | .text => some (.text s.text)
    | _ => some .other
  | node => if node.isUnique then some .other else none

/-- The configuration that a text describes, before it is checked. -/
def Format.decode? : Format → List Char → Option Config
  | .json, cs => (Json.read? cs).bind (Config.ofDocument? .json Global.ofJson?)
  | .yaml, cs => (Yaml.read? cs).bind (Config.ofDocument? Yaml.Node.dialect Global.ofYaml?)
  | .bcl, cs => (Bcl.read? cs).bind (Config.ofDocument? .exact Global.ofJson?)

namespace Config

/-- A checked configuration from a text. -/
def decode (float? : Global → Option Float) (format : Format) (cs : List Char) :
    Except ConfigError Config := do
  match format.decode? cs with
  | none => throw .undecodable
  | some cfg =>
    cfg.validate float?
    return cfg

/-- A configuration from a text in a named format. -/
def ofString (float? : Global → Option Float) (content format : String) :
    Except ConfigError Config :=
  match Format.ofName? format with
  | none => .error (.unsupportedFormat format)
  | some f => decode float? f content.toList

/-- A configuration from a file. -/
def load (float? : Global → Option Float) (files : Files) (path : String) :
    Except ConfigError Config :=
  let extension := lowerCase (Files.extension path)
  match Format.ofName? (String.ofList (extension.toList.drop 1)) with
  | none => .error (.unsupportedExtension extension)
  | some f =>
    match files.read path with
    | .error e => .error (.unreadable e.message)
    | .ok content => decode float? f (Text.decodeBytes content)

end Config
end Reckoner
