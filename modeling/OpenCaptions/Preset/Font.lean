import OpenCaptions.Preset.Basic
import OpenCaptions.Caption.File
import OpenCaptions.Filter.Escape

/-!
Fonts. A font file that the user registered is taken while the file is there; any other name leads to one
of the fonts that the engine always has.
-/
namespace OpenCaptions

structure CustomFont where
  name : String
  fileName : String
  path : String
deriving DecidableEq, Repr

abbrev FontRegistry := Table CustomFont

inductive FontChoice where
  /-- A file, with its path escaped. -/
  | file (path name : String)
  | standard (name : String)
deriving DecidableEq, Repr

def FontChoice.name : FontChoice → String
  | file _ name => name
  | standard name => name

namespace CustomFont

def fields : List Json.FieldNames := [["name"], ["fileName"], ["absolutePath"]]

def ofTree? (tree : Json.Tree) : Option CustomFont := do
  let [name, fileName, path] ← tree.slots? .text fields 3 | none
  return {
    name := ← Json.required? (Json.Tree.leaf? .text Json.string?) name
    fileName := ← Json.required? (Json.Tree.leaf? .text Json.string?) fileName
    path := ← Json.required? (Json.Tree.leaf? .text Json.string?) path }

end CustomFont

namespace FontRegistry

/-- Of several fonts of one name the last counts. -/
def ofFonts (fonts : List CustomFont) : FontRegistry :=
  Table.ofList (fonts.map fun font => (font.name, font))

def load (store : FileStore) (path : String) : Except LoadError FontRegistry := do
  let tree ← store.readJson path "reading font registry" "parsing font registry"
  match tree.itemsOf? CustomFont.ofTree? with
  | some fonts => return ofFonts fonts
  | none => throw (.malformed ("parsing font registry " ++ path))

end FontRegistry

namespace Font

/-- Common names that stand for other fonts. -/
def aliases : List (String × String) :=
  [("Arial Black", "Arial"), ("Helvetica", "Arial"), ("Times", "Times New Roman"),
    ("Courier", "Courier New"), ("Monospace", "Consolas"), ("Sans", "Arial"), ("Sans-Serif", "Arial"),
    ("Serif", "Times New Roman")]

def standard : List String :=
  ["Arial", "Verdana", "Tahoma", "Times New Roman", "Georgia", "Courier New", "Impact", "Consolas",
    "Trebuchet MS"]

def normalize (name : String) : String :=
  (aliases.lookup name).getD (if name ∈ standard then name else defaultFont)

/-- The font for a name, where `isFile` tells which files are there. -/
def choose (isFile : String → Bool) (fonts : FontRegistry) (name : String) : FontChoice :=
  match fonts.get? name with
  | some font =>
    if isFile font.path then .file (String.ofList (Filter.escapePath font.path.toList)) name
    else .standard (normalize name)
  | none => .standard (normalize name)

/-- Whether a name is registered with a file that is gone. -/
def isMissing (isFile : String → Bool) (fonts : FontRegistry) (name : String) : Bool :=
  (fonts.get? name).any fun font => !isFile font.path

end Font
end OpenCaptions
