import ArchSpec.FileStore.Basic
import ArchSpec.Limits
import ArchSpec.Text.Quoted
import ArchSpec.Toml.Reader

/-!
# Configurations

Where generated files go, and whether and where a cache is kept. A configuration comes from a file
beside the specification, if there is one, and from the command line.

* `Configuration.load` — the configuration of a directory.
* `Configuration.override` — what the command line says instead.
-/

namespace ArchSpec

/-- The settings of a run. -/
structure Configuration where
  outputDirectory : Path
  /-- Whether unchanged components are skipped. -/
  cache : Bool
  /-- Relative to the output directory. -/
  cacheFile : Path
  deriving DecidableEq, Repr, Inhabited

namespace Configuration

/-- The settings without a file. -/
def standard : Configuration := ⟨defaultOutputDirectory, true, defaultCacheFile⟩

def cachePath (c : Configuration) : Path := Path.join c.outputDirectory c.cacheFile

/-- The path of the cache file, if a cache is kept. -/
def cachePath? (c : Configuration) : Option Path := if c.cache then some c.cachePath else none

def set (c : Configuration) : String × Toml.Scalar → Except Toml.Fault Configuration
  | ("output_dir", .text s) => .ok { c with outputDirectory := s }
  | ("output_dir", _) => .error .wrongType
  | ("cache", .flag b) => .ok { c with cache := b }
  | ("cache", _) => .error .wrongType
  | ("cache_file", .text s) => .ok { c with cacheFile := s }
  | ("cache_file", _) => .error .wrongType
  | _ => .error .unknownKey

/-- The settings of the text of a configuration file. -/
def ofText (text : String) : Except Toml.Fault Configuration := do
  (← Toml.read text).foldlM set standard

/-- The settings seen from where the program runs, not from the directory of their file. -/
def within (c : Configuration) (directory : Path) : Configuration :=
  { c with outputDirectory := Path.join directory c.outputDirectory }

/-- Settings that can be used. -/
def validate (c : Configuration) : Except Fault Configuration :=
  if c.outputDirectory.isEmpty then .error (.config "output_dir must not be empty")
  else if c.cacheFile.isEmpty || Path.isAbsolute c.cacheFile then
    .error (.config ("cache_file must be a relative path inside output_dir, got " ++
      Text.quoted c.cacheFile))
  else .ok c

/-- The settings that the command line changes: an output directory, taken as it is, and the cache,
which it can only turn off. -/
def override (c : Configuration) (output : Option Path) (noCache : Bool) : Configuration :=
  { c with outputDirectory := output.getD c.outputDirectory, cache := c.cache && !noCache }

/-- The directory in which the configuration of a specification is looked for. -/
def directoryOf (spec : Path) : Path :=
  match Path.parent? spec with
  | none => "."
  | some parent => if parent.isEmpty then "." else parent

/-- The settings of the text of a file at a path, seen from where the program runs. -/
def ofFile (path directory : Path) (text : String) : Except Failure Configuration :=
  match ofText text with
  | .error f => .error ⟨["Failed to parse config file: " ++ path], .toml f.message⟩
  | .ok c => ((c.within directory).validate).mapError Failure.ofFault

variable {m : Type → Type} [Monad m] [FileStore m]

def load (directory : Path) : Action m Configuration := do
  let path := Path.join directory configFileName
  if !(← FileStore.existsAt (m := m) path) then return standard.within directory
  let text ← Action.ofStore ("Failed to read config file: " ++ path) (FileStore.readText path)
  ExceptT.mk (pure (ofFile path directory text))

/-- The settings of a specification. -/
def forSpecification (spec : Path) : Action m Configuration := load (directoryOf spec)

end Configuration

end ArchSpec
