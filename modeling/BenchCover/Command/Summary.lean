import BenchCover.Command.Config

/-!
# Summaries

What a command did, for a reader and as JSON.
-/

namespace BenchCover

/-! ## JSON -/

namespace Json

def hexDigit (n : Nat) : Char :=
  Nat.digitChar n

/-- A character inside a JSON string.  Control characters are escaped, the common ones by a
letter. -/
def escape (c : Char) : List Char :=
  if c = '"' then ['\\', '"']
  else if c = '\\' then ['\\', '\\']
  else if c = '\n' then ['\\', 'n']
  else if c = '\r' then ['\\', 'r']
  else if c = '\t' then ['\\', 't']
  else if c.toNat = 0x08 then ['\\', 'b']
  else if c.toNat = 0x0c then ['\\', 'f']
  else if c.toNat < 0x20 then
    ['\\', 'u', '0', '0', hexDigit (c.toNat / 16), hexDigit (c.toNat % 16)]
  else [c]

def string (s : String) : String :=
  String.ofList ('"' :: s.toList.flatMap escape ++ ['"'])

def indent (depth : Nat) : String :=
  String.ofList (List.replicate (2 * depth) ' ')

/-- Items on lines of their own between brackets that stand at a depth. -/
def block (depth : Nat) (opening closing : String) (items : List String) : String :=
  if items.isEmpty then opening ++ closing
  else
    let lines := items.map (indent (depth + 1) ++ ·)
    opening ++ "\n" ++ ",\n".intercalate lines ++ "\n" ++ indent depth ++ closing

def array (depth : Nat) (items : List String) : String :=
  block depth "[" "]" items

/-- A JSON object at a depth, with its fields in order. -/
def object (depth : Nat) (fields : List (String × String)) : String :=
  block depth "\x7b" "\x7d" (fields.map fun (name, value) => string name ++ ": " ++ value)

end Json

/-! ## Summaries -/

/-- **What a command did.** -/
structure Summary where
  analysis : Analysis
  config : AnalysisConfig
  configs : Nat
  /-- The files that were written, each once, in the order in which they were first written. -/
  files : List String
  deriving DecidableEq, Repr

namespace Summary

def text (summary : Summary) : String :=
  let files :=
    if summary.files.isEmpty then "  (none)\n"
    else String.join (summary.files.map fun path => s!"  - {path}\n")
  s!"Finished {summary.analysis.name} for scenario '{summary.config.scenario}'\n" ++
    s!"  Projects: {summary.config.projects.joined}\n" ++
    s!"  Configs: {summary.configs}\n" ++
    s!"Files ({summary.files.length}):\n" ++ files

def json (summary : Summary) : String :=
  let config := summary.config
  Json.object 0
    [("command", Json.string summary.analysis.name),
      ("config", Json.object 1
        [("projects", Json.array 2 (config.projects.prefixes.map Json.string)),
          ("system_dir", Json.string config.systemDirectory),
          ("micro_dir", Json.string config.microDirectory),
          ("out_dir", Json.string config.outDirectory),
          ("scenario", Json.string config.scenario)]),
      ("configs", toString summary.configs),
      ("files", Json.array 1 (summary.files.map Json.string))] ++ "\n"

end Summary

end BenchCover
