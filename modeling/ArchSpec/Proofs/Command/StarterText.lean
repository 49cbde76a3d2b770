import Mathlib
import ArchSpec.Command.Init
import ArchSpec.OpenApi.Contract
import ArchSpec.Proofs.Yaml.Block
import ArchSpec.Proofs.Yaml.Plain

/-!
# What the files of a new project are read as

The name of a project is put into two texts as it is, behind the colon of a key. What surrounds it
is the same for all projects, so its tokens are found once and for all: those before the name and
those on the lines after it. If the name is read as it is written, then both texts are read back as
blocks in which it stands at its place, and all that is left open is what it means there.

* `Starter.specificationBlock`, `Starter.contractBlock` — the blocks.
* `Starter.tokens_specification`, `Starter.tokens_contract` — the texts are read as these blocks.
* `Starter.readValue_specification` — the value of the specification, by what the name means.
* `Starter.contract_eq` — the contract.
-/

namespace ArchSpec.Starter

open Command (starterSpecification starterContract)
open Yaml (Block IsPlainLine IsPlainText Lexer Token Word maxDepth plainValue)

variable {name : String}

/-! ## Lines -/

/-- The characters of lines. -/
def charsOf (lines : List String) : List Char := lines.flatMap fun l => l.toList ++ ['\n']

theorem toList_block (lines : List String) : (Output.block lines).toList = charsOf lines := by
  rw [Output.block, String.toList_join, charsOf, List.flatMap_map]
  exact List.flatMap_congr fun l _ => by simp [Output.line]

/-- The characters of lines of which one has the name behind a key. -/
theorem toList_block_name (before : List String) (key : String) (k : Nat) (l : String)
    (later : List String) :
    (Output.block (before ++ (key ++ " " ++ name) ::
      (String.ofList (List.replicate k ' ') ++ l) :: later)).toList =
      charsOf before ++ key.toList ++
        ' ' :: (name.toList ++ '\n' :: (List.replicate k ' ' ++ charsOf (l :: later))) := by
  rw [toList_block]
  simp [charsOf]

/-! ## Blocks -/

/-- A text without quotes. -/
def word (s : String) : Block := .text (.plain s)

/-- A table whose keys have no quotes. -/
def table (fields : List (String × Block)) : Block := .table (fields.map fun f => (.plain f.1, f.2))

/-- The components of a new project. -/
def components : Block :=
  .list [
    table [("id", word "server.api"), ("kind", word "http.server"),
      ("spec", table [("framework", word "hono"), ("port", word "3000"),
        ("openapi", word "./api/openapi.yaml")])],
    table [("id", word "usecase.health"), ("kind", word "usecase"),
      ("spec", table [("binds_to", word "server.api:GET:/health"),
        ("goal", word "Report that the service is up"), ("actor", word "operator"),
        ("acceptance_criteria", .list [
          word "responds with 200 while the service is running"])])]]

/-- The specification of a new project. -/
def specificationBlock (name : String) : Block :=
  table [("version", word "1.0.0"), ("name", word name),
    ("description", word "Starter specification"), ("components", components)]

/-- The contract of a new project. -/
def contractBlock (name : String) : Block :=
  .table [(.plain "openapi", .text ⟨"3.0.3", .double⟩),
    (.plain "info", table [("title", word name), ("version", word "1.0.0")]),
    (.plain "paths", table [("/health", table [("get", table [
      ("operationId", word "getHealth"), ("summary", word "Health check"),
      ("responses", .table [(⟨"200", .double⟩, table [("description", word "OK")])])])])])]

/-! ## Tokens -/

/-- The lines of a specification after its name. -/
def specificationLines : List String :=
  ["description: Starter specification",
    "components:",
    "  - id: server.api",
    "    kind: http.server",
    "    spec:",
    "      framework: hono",
    "      port: 3000",
    "      openapi: ./api/openapi.yaml",
    "  - id: usecase.health",
    "    kind: usecase",
    "    spec:",
    "      binds_to: server.api:GET:/health",
    "      goal: Report that the service is up",
    "      actor: operator",
    "      acceptance_criteria:",
    "        - responds with 200 while the service is running"]

/-- **A specification is read as its block**, whatever the name means. -/
theorem tokens_specification (hname : IsPlainLine name) :
    Yaml.tokens (starterSpecification name) =
      .ok ((specificationBlock name).tokens ++ [.streamEnd]) := by
  have hfront (cs : List Char) :
      Lexer.steps 5 (.start (charsOf ["version: 1.0.0"] ++ "name:".toList ++ ' ' :: cs)) =
        .ok (.behindColon (' ' :: cs) ⟨20, 1, 5⟩ [.value, .scalar "name" .plain, .key,
          .scalar "1.0.0" .plain, .value, .scalar "version" .plain, .key, .blockMapping] 0 [-1]
          ⟨false, true, 5, ⟨15, 1, 0⟩⟩) := by
    cbv
  have hlater : Lexer.run 100 (.atLine 2 0 0 [-1] (charsOf specificationLines)) =
      .ok (((specificationBlock "").tokens ++ [Token.streamEnd]).drop 9) := by
    decide +kernel
  have htext : (starterSpecification name).toList =
      charsOf ["version: 1.0.0"] ++ "name:".toList ++
        ' ' :: (name.toList ++ '\n' :: (List.replicate 0 ' ' ++ charsOf specificationLines)) :=
    toList_block_name ["version: 1.0.0"] "name:" 0 "description: Starter specification"
      specificationLines.tail
  refine (Yaml.tokens_value (m := ⟨20, 1, 5⟩) (k := 0) hname hfront hlater ?_ ?_ ?_ ?_ htext).trans
    ?_
  · decide
  · decide +kernel
  · decide +kernel
  · decide +kernel
  · rfl

/-- The lines of a contract before its title. -/
def titleLines : List String := ["openapi: \"3.0.3\"", "info:"]

/-- The lines of a contract after its title, from the first word on. -/
def contractLines : List String :=
  ["version: 1.0.0",
    "paths:",
    "  /health:",
    "    get:",
    "      operationId: getHealth",
    "      summary: Health check",
    "      responses:",
    "        \"200\":",
    "          description: OK"]

/-- **A contract is read as its block**, whatever the name means. -/
theorem tokens_contract (hname : IsPlainLine name) :
    Yaml.tokens (starterContract name) = .ok ((contractBlock name).tokens ++ [.streamEnd]) := by
  have hfront (cs : List Char) :
      Lexer.steps 7 (.start (charsOf titleLines ++ "  title:".toList ++ ' ' :: cs)) =
        .ok (.behindColon (' ' :: cs) ⟨31, 2, 8⟩ [.value, .scalar "title" .plain, .key,
          .blockMapping, .value, .scalar "info" .plain, .key,
          .scalar "3.0.3" .double, .value, .scalar "openapi" .plain, .key, .blockMapping] 2 [0, -1]
          ⟨false, false, 8, ⟨25, 2, 2⟩⟩) := by
    cbv
  have hlater : Lexer.run 100 (.atLine 3 2 2 [0, -1] (charsOf contractLines)) =
      .ok (((contractBlock "").tokens ++ [Token.streamEnd]).drop 13) := by
    decide +kernel
  have htext : (starterContract name).toList = charsOf titleLines ++ "  title:".toList ++
      ' ' :: (name.toList ++ '\n' :: (List.replicate 2 ' ' ++ charsOf contractLines)) :=
    toList_block_name titleLines "  title:" 2 "version: 1.0.0" contractLines.tail
  refine (Yaml.tokens_value (m := ⟨31, 2, 8⟩) (k := 2) hname hfront hlater ?_ ?_ ?_ ?_ htext).trans
    ?_
  · decide
  · decide +kernel
  · decide +kernel
  · decide +kernel
  · rfl

/-! ## The value of a specification -/

/-- The value of the components of a new project. -/
def componentsValue : Value :=
  .list [
    .object [("id", .text "server.api"), ("kind", .text "http.server"),
      ("spec", .object [("framework", .text "hono"), ("openapi", .text "./api/openapi.yaml"),
        ("port", .int 3000)])],
    .object [("id", .text "usecase.health"), ("kind", .text "usecase"),
      ("spec", .object [("acceptance_criteria", .list [
          .text "responds with 200 while the service is running"]), ("actor", .text "operator"),
        ("binds_to", .text "server.api:GET:/health"),
        ("goal", .text "Report that the service is up")])]]

/-- The value of the specification of a new project whose name means `v`. -/
def specificationValue (v : Value) : Value :=
  .object [("components", componentsValue), ("description", .text "Starter specification"),
    ("name", v), ("version", .text "1.0.0")]

theorem value_components : components.value = .ok componentsValue := by
  have hsorted : Value.list [
      .ofFields [("id", .text "server.api"), ("kind", .text "http.server"),
        ("spec", .ofFields [("framework", .text "hono"), ("port", .int 3000),
          ("openapi", .text "./api/openapi.yaml")])],
      .ofFields [("id", .text "usecase.health"), ("kind", .text "usecase"),
        ("spec", .ofFields [("binds_to", .text "server.api:GET:/health"),
          ("goal", .text "Report that the service is up"), ("actor", .text "operator"),
          ("acceptance_criteria", .list [
            .text "responds with 200 while the service is running"])])]] = componentsValue := by
    cbv
  rw [← hsorted]
  rfl

theorem value_specification (name : String) :
    (specificationBlock name).value = specificationValue <$> plainValue name := by
  have hsorted : ∀ v, Value.ofFields [("version", .text "1.0.0"), ("name", v),
      ("description", .text "Starter specification"), ("components", componentsValue)] =
        specificationValue v := by
    intro v
    cbv
  have hname : (word name).value = plainValue name := rfl
  have hversion : (word "1.0.0").value = .ok (.text "1.0.0") := rfl
  have hdescription : (word "Starter specification").value =
      .ok (.text "Starter specification") := rfl
  rw [specificationBlock, table, Block.value]
  simp only [List.map_cons, List.map_nil, Block.fieldValues, hname, hversion, hdescription,
    value_components]
  cases plainValue name with
  | error e => rfl
  | ok v => exact congrArg Except.ok (hsorted v)

/-- **The value of a specification** is one in which the name means what it means by itself. -/
theorem readValue_specification (hname : IsPlainLine name) :
    Yaml.readValue (starterSpecification name) = specificationValue <$> plainValue name := by
  rw [Block.readValue_eq ?_ (tokens_specification hname), value_specification]
  have hheight : (specificationBlock name).height = (specificationBlock "").height := rfl
  rw [hheight]
  decide +kernel

/-! ## The contract -/

/-- The only operation of a new project. -/
def operation : Operation :=
  ⟨some "getHealth", .get, "/health", "Health check", "", [], none,
    ⟨[("200", ⟨"OK", .empty⟩)], by simp⟩, []⟩

def contract (name : String) : Contract := ⟨name, "1.0.0", ⟨[("GET:/health", operation)], by simp⟩⟩

/-- The contract as it is written. -/
def document (name : String) : OpenApi.Document :=
  ⟨"3.0.3", some ⟨name, "1.0.0"⟩, ⟨[("/health", ⟨some ⟨some "getHealth", "Health check", "", [],
    [], none, ⟨[("200", ⟨"OK", .empty⟩)], by simp⟩⟩, none, none, none, none, none, none, []⟩)],
    by simp⟩⟩

/-- **The contract of a new project** is one of its only operation. The name is a title, which may
be read as it is written whatever it means. -/
theorem contract_eq (hname : IsPlainLine name) :
    OpenApi.contract (starterContract name) = .ok (contract name) := by
  obtain ⟨n, hdocument⟩ := Block.document_eq (tokens_contract hname)
  have hread : OpenApi.Document.read (starterContract name) = .ok (document name) := by
    have htree : Yaml.Document.read ⟨some (contractBlock name).tree, [], n⟩
        (OpenApi.readDocument ⟨some (contractBlock name).tree, [], n⟩ maxDepth) =
          .ok (document name) := by
      cbv
    rw [OpenApi.Document.read, hdocument]
    exact htree
  have hsupported : (document name).isSupported = true := by cbv
  have hcontract : (document name).contract = contract name := by cbv
  rw [OpenApi.contract, hread]
  simp only [hsupported, hcontract, if_true]

end ArchSpec.Starter
