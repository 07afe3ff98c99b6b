import HdlExpr.Decimal.Layout
import HdlExpr.Json.Reader
import HdlExpr.Yaml.Node

/-!
# Configuration files

Settings for flags that the command line leaves out.  A YAML file may nest its keys, and joins of
nested keys are written with hyphens; a JSON file has one key for each flag.
-/

namespace HdlExpr.Cli

/-- Settings by key, later ones first. -/
abbrev Config := List (String × Plain)

namespace Config

def hyphenated (key : String) : String :=
  String.ofList (key.toList.map fun c => if c == '_' then '-' else c)

mutual

/-- Data inside a list of a list or of a mapping; the entries of a mapping are in the order of their
keys. -/
def innerText : Plain → String
  | .null => "<nil>"
  | .bool b => if b then "true" else "false"
  | .int i => toString i
  | .uint n => toString n
  | .real x => Decimal.Layout.general.float x
  | .text s => s
  | .list items => "[" ++ " ".intercalate (innerTexts items) ++ "]"
  | .map entries =>
    let texts := (entryTexts entries).mergeSort fun a b => decide (a.1 ≤ b.1)
    "map[" ++ " ".intercalate (texts.map fun (key, text) => key ++ ":" ++ text) ++ "]"

def innerTexts : List Plain → List String
  | [] => []
  | v :: rest => innerText v :: innerTexts rest

def entryTexts : List (String × Plain) → List (String × String)
  | [] => []
  | e :: rest => entryText e :: entryTexts rest

def entryText : String × Plain → String × String
  | (key, v) => (key, innerText v)

end

/-- A scalar as it would be given on the command line. -/
def scalarText : Plain → String
  | .real x => Decimal.Layout.positional.float x
  | v => innerText v

/-- The key of an entry in the mapping of another key. -/
def joined (parent key : String) : String :=
  if parent = "" then hyphenated key else parent ++ "-" ++ hyphenated key

mutual

/-- The settings that a mapping makes under a key, in the order in which they are made. -/
def flatten (parent : String) : List (String × Plain) → Config
  | [] => []
  | entry :: rest => flattenEntry parent entry ++ flatten parent rest

/-- The settings of one entry.  Truth values and texts stay, numbers become text, lists become text
with commas, and nulls set nothing. -/
def flattenEntry (parent : String) : String × Plain → Config
  | (key, v) =>
    match v with
    | .map entries => flatten (joined parent key) entries
    | .list items => [(joined parent key, .text (",".intercalate (items.map scalarText)))]
    | .null => []
    | .bool b => [(joined parent key, .bool b)]
    | v => [(joined parent key, .text (scalarText v))]

end

def ofMapping (entries : List (String × Plain)) : Config := (flatten "" entries).reverse

def mapping? (text : String) : Option (List (String × Plain)) :=
  match Yaml.Node.read text with
  | some (some n) => n.fields?.map fun fields => fields.map fun (key, n) => (key, n.toPlain)
  | _ => none

/-- The settings of a YAML file; one that is no mapping makes none. -/
def ofYaml (text : String) : Config := ((mapping? text).map ofMapping).getD []

def find? (c : Config) (flag : String) : Option Plain := c.lookup (hyphenated flag)

/-! ## JSON -/

/-- The settings of a JSON file, which must hold an object or a null. -/
def ofJson? (text : String) : Option Config :=
  match Json.read text with
  | some (.map entries) => some entries
  | some .null => some []
  | _ => none

/-- A flag's name with a capital for each hyphen. -/
def camelName : List Char → List Char
  | [] => []
  | '-' :: c :: rest => c.toUpper :: camelName rest
  | c :: rest => c :: camelName rest

/-- The setting of a flag in a JSON file, where its name has underscores or capitals for hyphens. -/
def findJson? (c : Config) (flag : String) : Option Plain :=
  let underscored := String.ofList (flag.toList.map fun c => if c == '-' then '_' else c)
  match (c.lookup underscored).or (c.lookup (String.ofList (camelName flag.toList))) with
  | some .null => none
  | v => v

end Config

end HdlExpr.Cli
