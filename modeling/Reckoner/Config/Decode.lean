import Reckoner.Config.Basic
import Reckoner.Document

/-!
# Configurations from documents

* `Global.ofJson?` — what a JSON value gives a name;
* `Config.readers` — the settings of a configuration, by name;
* `Config.ofDocument?` — the configuration that a document describes.
-/

namespace Reckoner

namespace Global

mutual

/-- Every number in a value is in the range of binary numbers. -/
def inRange : Json → Bool
  | .number literal => (readFloat literal).isOk
  | .array items => allInRange items
  | .object fields => fieldsInRange fields
  | _ => true

/-- Every number in some values is in range. -/
def allInRange : List Json → Bool
  | [] => true
  | j :: rest => inRange j && allInRange rest

/-- Every number in the values of some fields is in range. -/
def fieldsInRange : List (String × Json) → Bool
  | [] => true
  | (_, j) :: rest => inRange j && fieldsInRange rest

end

/-- What a JSON value gives a name. A number beyond the range of binary numbers is refused, wherever
in the value it stands. -/
def ofJson? (j : Json) : Option Global :=
  match j with
  | .number literal => (readFloat literal).toOption.map .number
  | .string s => some (.text s)
  | j => if inRange j then some .other else none

end Global

namespace Config

variable {δ : Type}

/-- The globals of a document, over those there were. -/
def globals? (d : Dialect δ) (global? : δ → Option Global) (old : Bindings Global) (document : δ) :
    Option (Bindings Global) :=
  if d.isNull document then some []
  else do
    (← d.fields? document).foldlM
      (fun (acc : Bindings Global) (name, value) => (global? value).map (acc.set name)) old

/-- The settings of the section on runs. -/
def runtimeReaders (d : Dialect δ) : List (String × (Config → δ → Option Config)) :=
  [("timeout",
      fun cfg j => (d.update d.string? cfg.timeout j).map fun s => { cfg with timeout := s }),
    ("max_expression_depth",
      fun cfg j => (d.update d.int? cfg.depth j).map fun i => { cfg with depth := i }),
    ("max_loop_iterations",
      fun cfg j => (d.update d.int? cfg.rounds j).map fun i => { cfg with rounds := i }),
    ("log_execution", fun cfg j =>
      (d.update (fun j => (d.bool? j).map some) none j).map fun b => { cfg with logging := b })]

/-- The settings of the section on the service. -/
def serverReaders (d : Dialect δ) : List (String × (Config → δ → Option Config)) :=
  [("addr", fun cfg j => (d.update d.string? cfg.addr j).map fun s => { cfg with addr := s }),
    ("cache_size",
      fun cfg j => (d.update d.int? cfg.cacheSize j).map fun i => { cfg with cacheSize := i })]

/-- The settings of a configuration. -/
def readers (d : Dialect δ) (global? : δ → Option Global) :
    List (String × (Config → δ → Option Config)) :=
  [("runtime", d.record? (runtimeReaders d)),
    ("globals", fun cfg j =>
      (globals? d global? cfg.globals j).map fun g => { cfg with globals := g }),
    ("log_level",
      fun cfg j => (d.update d.string? cfg.logLevel j).map fun s => { cfg with logLevel := s }),
    ("history_file",
      fun cfg j =>
        (d.update d.string? cfg.historyFile j).map fun s => { cfg with historyFile := s }),
    ("print_env",
      fun cfg j => (d.update d.bool? cfg.printEnv j).map fun b => { cfg with printEnv := b }),
    ("server", d.record? (serverReaders d))]

/-- The configuration that a document describes, before it is checked. An empty address and a cache
of size zero stand for their defaults. -/
def ofDocument? (d : Dialect δ) (global? : δ → Option Global) (document : δ) : Option Config :=
  (d.record? (readers d global?) {} document).map fun cfg =>
    { cfg with
      addr := if cfg.addr.isEmpty then ({} : Config).addr else cfg.addr
      cacheSize := if cfg.cacheSize = 0 then ({} : Config).cacheSize else cfg.cacheSize }

end Config
end Reckoner
