import ArchSpec.Failure
import ArchSpec.Json.Reader
import ArchSpec.Path
import ArchSpec.Specification.Locate
import ArchSpec.Yaml.Decode

/-!
# Specifications

A specification is a document with a version, a name and a list of components. Reading one is
lenient: values of the wrong type count as empty, and only a document that is no mapping at all is
refused. What is wrong with a specification is for the checks to say.

* `Specification.ofValue` — the specification that a document value describes.
* `Specification.parse` — the specification of a YAML text.
* `Specification.parseFile` — the specification of the text of a file, JSON by its name.
-/

namespace ArchSpec

/-- A component as it is declared. -/
structure Declaration where
  id : String
  kind : String
  spec : List (String × Value)
  position : Option Position
  deriving Inhabited

/-- A specification as it is declared. -/
structure Specification where
  version : String
  name : String
  description : String
  /-- The file it comes from. -/
  file : String
  declarations : List Declaration
  /-- The document itself. -/
  raw : Value
  deriving Inhabited

namespace Declaration

/-- The declaration that a document value describes, if it is a mapping. -/
def ofValue? (v : Value) : Option Declaration :=
  match v with
  | .object _ =>
    some ⟨v.textField "id", v.textField "kind", ((v.field? "spec").bind Value.fields?).getD [],
      none⟩
  | _ => none

end Declaration

namespace Specification

/-- The reason for refusing a document that is no mapping. -/
def notAMapping : String := "expected mapping at root"

def declarationsOf (raw : Value) : List Declaration :=
  (((raw.field? "components").bind Value.list?).getD []).filterMap Declaration.ofValue?

/-- Declarations with their places in a source text. -/
def withPositions (source file : String) (ds : List Declaration) : List Declaration :=
  ds.zipWith (fun d p => { d with position := p }) (Locate.locate source file (ds.map (·.id)))

/-- The specification that a document value describes. With a source text, the components know
their places in it. -/
def ofValue (raw : Value) (file : String) (source : Option String) :
    Except Fault Specification :=
  match raw with
  | .object _ =>
    let ds := declarationsOf raw
    .ok {
      version := raw.textField "version"
      name := raw.textField "name"
      description := raw.textField "description"
      file := file
      declarations := match source with
        | none => ds
        | some s => withPositions s file ds
      raw := raw }
  | _ => .error (.specParse file notAMapping)

def parse (source file : String) : Except Fault Specification :=
  match Yaml.readValue source with
  | .error e => .error (.specParse file e.message)
  | .ok raw => ofValue raw file (some source)

def parseJson (source file : String) : Except Fault Specification :=
  match Json.read source with
  | .error e => .error (.specParse file e.message)
  | .ok raw => ofValue raw file (some source)

/-- Whether a file is read as JSON: its extension is `json` in upper or lower case. -/
def isJsonPath (file : Path) : Bool :=
  match Path.extension? file with
  | none => false
  | some e => e.toList.map Char.toLower = "json".toList

/-- The specification of the text of a file. -/
def parseFile (source : String) (file : Path) : Except Fault Specification :=
  if isJsonPath file then parseJson source file else parse source file

/-- The directory that relative paths of a specification start from. -/
def baseDirectory (s : Specification) : Path := (Path.parent? s.file).getD ""

end Specification

end ArchSpec
