import ArchSpec.Proofs.Command.Init
import ArchSpec.Proofs.Command.StarterModel
import ArchSpec.Proofs.FileStore.Fresh

/-!
# Projects that have been started

A project is started by writing its two files. Where it is new it can be started, and once it has
been, its specification passes validation under the name that was given, as long as that name means
itself where it is written without quotes. A name that is read as it is written but means something
else, such as a number, makes a specification that does not even fit the schema.

* `Command.writeFiles_ok`, `Command.readText_contract` — the files that have been written, and the
  way from one to the other.
* `Command.validation_startedTree`, `Command.refused_startedTree` — projects that pass validation
  and projects that do not.
* `Command.Startable`, `Command.initRun_ok` — where a project can be started.
* `Command.initRun_compiles` — both together; `Command.initRun_number` — a name that is a number.
-/

namespace ArchSpec.Command

open FileStore (temporaryPath replaceText)
open FileTree (ChangedAt IsPath Passable Plain Separate maxName)
open ArchSpec.Path (EndsInPiece IsName isAbsolute join)
open Yaml (IsPlainLine IsPlainText plainValue)

variable {t u : FileTree} {project base p q : Path} {name : String} {directory : Option Path}
  {force : Bool} {text : String}

/-! ## Files that have been written -/

/-- The path of the temporary file of a text that has been replaced. -/
theorem isPath_temporaryPath
    (h : (replaceText p text : Action (StateM FileTree) Unit).run t = (.ok (), u)) :
    IsPath (temporaryPath p) := by
  obtain ⟨_, v, _, h⟩ := Action.bind_ok h
  obtain ⟨_, w, hwrite, _⟩ := Action.bind_ok h
  obtain ⟨l, hl, _⟩ := except_bind_ok (FileStore.writeTemporary_ok_iff.1 hwrite)
  exact .of_resolve hl

/-- **All files are there** once they have been written, if they are in different places. -/
theorem writeFiles_ok (files : List (Path × String)) (ht : t.WellFormed)
    (hseparate : Separate t (files.map fun f => join project f.1))
    (h : ((writeFiles project files : StateM FileTree Output) t).1.outcome = .ok ()) :
    ∀ f ∈ files, ((writeFiles project files : StateM FileTree Output) t).2.readText
      (join project f.1) = .ok f.2 ∧ IsPath (temporaryPath (join project f.1)) := by
  induction files generalizing t with
  | nil => nofun
  | cons f files ih =>
    rw [run_writeFiles_cons] at h ⊢
    split at h
    · cases h
    · rename_i u hrun
      obtain ⟨hchanged, hread⟩ := FileStore.replaceText_ok ht hrun
      have hlater := hseparate.congr hchanged.workingDirectory
      intro g hg
      rcases List.mem_cons.1 hg with rfl | hg
      · refine ⟨(writeFiles_changes project files hchanged.wellFormed).readText ?_ hread,
          isPath_temporaryPath hrun⟩
        intro w hw
        obtain ⟨k, hk, hw⟩ := List.mem_flatMap.1 hw
        exact (hlater.head (List.mem_map_of_mem hk) _ (by simp) w hw).symm
      · exact ih hchanged.wellFormed hlater.tail h g hg

/-- The files of a new project are in different places. -/
theorem separate_starterFiles (t : FileTree) (project : Path) (name : String) :
    Separate t ((starterFiles name).map fun f => join project f.1) := by
  have hplain : ∀ r ∈ ["spec.yaml", "api/openapi.yaml"], Plain r := by
    intro r hr
    simp only [List.mem_cons, List.not_mem_nil, or_false] at hr
    rcases hr with rfl | rfl
    · exact plain_spec
    · exact ⟨by decide, by decide +kernel⟩
  exact FileTree.separate_of_routes t project hplain (by decide +kernel) (by decide +kernel)

/-! ## The contract beside the specification -/

/-- **The contract of a project is found from its specification**, where the specification says
that it is. -/
theorem readText_contract (hproject : EndsInPiece project)
    (hspec : u.readText (join project "spec.yaml") = .ok text)
    {contract : String} (hcontract : u.readText (join project "api/openapi.yaml") = .ok contract)
    (hpath : IsPath (join project "api/openapi.yaml.tmp")) :
    u.readText (join ((Path.parent? (join project "spec.yaml")).getD "") "./api/openapi.yaml") =
      .ok contract := by
  have hname : IsName "spec.yaml" := by decide
  have hrelative : isAbsolute "./api/openapi.yaml" = false := by decide
  have hrelative' : isAbsolute "api/openapi.yaml" = false := by decide
  obtain ⟨q, hq, hmoves, habs, hbegins⟩ := Path.parent?_join hproject hname
  obtain ⟨hresolve, hfile⟩ := FileTree.readText_ok hspec
  obtain ⟨q', hq', -, hpassable, hdirectory⟩ := FileTree.passable_parent hresolve hfile
  obtain rfl := Option.some.inj (hq'.symm.trans hq)
  have hsame : u.locate q' = u.locate project := by
    rw [FileTree.locate_eq, FileTree.locate_eq, hmoves, habs]
  have hmovesContract : Path.moves "./api/openapi.yaml" = Path.moves "api/openapi.yaml" := by
    decide +kernel
  rw [hq, Option.getD_some]
  obtain ⟨hthere, hcontractFile⟩ := FileTree.readText_ok hcontract
  have hplace : u.locate (join q' "./api/openapi.yaml") =
      u.locate (join project "api/openapi.yaml") := by
    rw [u.locate_join q' hrelative, u.locate_join project hrelative', hsame, hmovesContract]
  refine FileTree.readText_eq (FileTree.resolve_iff.2 ⟨?_, ?_, rfl⟩) (hplace ▸ hcontractFile)
  · exact FileTree.start_iff.2 (hpath.join_of_le hproject (by decide) hbegins hrelative (by decide)
      (by decide) (by decide))
  · have hbelow := (FileTree.resolve_iff.1 hthere).2.1
    rw [FileTree.route_join project hrelative', u.origin_join project hrelative',
      FileTree.passable_append, FileTree.foldl_namesOf] at hbelow
    rw [FileTree.route_join q' hrelative, u.origin_join q' hrelative, FileTree.passable_append,
      FileTree.foldl_namesOf]
    rw [FileTree.foldl_namesOf] at hdirectory
    refine ⟨hpassable, ?_⟩
    have hroute : FileTree.route "./api/openapi.yaml" =
        "." :: FileTree.route "api/openapi.yaml" := by
      decide +kernel
    rw [hroute]
    exact .cons hdirectory (.inl rfl) (hsame ▸ hbelow.2)

/-! ## Projects that have been started -/

/-- Where the specification of a project is. -/
def specificationPath (name : String) (directory : Option Path) : Path :=
  join (projectPath name directory) "spec.yaml"

/-- The name of a project says something, leads to no other directory and has no separators. -/
theorem of_isProjectName (hname : isProjectName name = true) :
    name ≠ "" ∧ name ≠ ".." ∧ '/' ∉ name.toList := by
  simp only [isProjectName, Bool.and_eq_true, Bool.not_eq_true', List.any_eq_false, Bool.or_eq_true,
    decide_eq_true_eq, not_or] at hname
  obtain ⟨⟨hempty, hup⟩, hslash⟩ := hname
  refine ⟨by simpa using hempty, ?_, fun hmem => (hslash _ hmem).1 rfl⟩
  rintro rfl
  revert hup
  decide

theorem endsInPiece_project (hname : isProjectName name = true) (directory : Option Path) :
    EndsInPiece (projectPath name directory) :=
  have ⟨hempty, _, hslash⟩ := of_isProjectName hname
  Path.endsInPiece_join _ hempty hslash

theorem isJsonPath_spec (project : Path) :
    Specification.isJsonPath (join project "spec.yaml") = false := by
  have hfile : IsName "spec.yaml" := by decide
  have hname : Path.fileName? (join project "spec.yaml") = some "spec.yaml" := by
    rw [Path.fileName?_eq_some, Path.moves_join hfile.relative, hfile.moves, List.getLast?_concat]
  unfold Specification.isJsonPath Path.extension?
  rw [hname]
  decide +kernel

/-- The tree after a start. -/
def startedTree (name : String) (directory : Option Path) (force : Bool) (t : FileTree) :
    FileTree :=
  ((initRun name directory force : StateM FileTree Output) t).2

/-- A start that succeeds has written its files. -/
theorem writeFiles_of_initRun
    (h : ((initRun name directory force : StateM FileTree Output) t).1.outcome = .ok ()) :
    isProjectName name = true ∧
    ((writeFiles (projectPath name directory) (starterFiles name) :
      StateM FileTree Output) t).1.outcome = .ok () ∧
    startedTree name directory force t =
      ((writeFiles (projectPath name directory) (starterFiles name) :
        StateM FileTree Output) t).2 := by
  rw [run_initRun] at h
  rw [startedTree, run_initRun]
  split at h
  · cases h
  · rename_i hname
    rw [if_neg hname]
    split at h
    · cases h
    · rename_i hmissing
      rw [if_neg hmissing]
      refine ⟨by simpa using hname, ?_, rfl⟩
      unfold startReport at h
      dsimp only at h
      split at h
      · exact h
      · assumption

/-- What is in the directory of the contract has a path of three parts. -/
theorem join_api (hproject : EndsInPiece project) {n : String} (hn : IsName n)
    (hrelative : isAbsolute ("api/" ++ n) = false) :
    join (join project "api") n = join project ("api/" ++ n) := by
  have hapi : IsName "api" := by decide
  rw [(Path.endsInPiece_join project hapi.noDots.1 hapi.noSlash).join_eq hn.relative,
    hproject.join_eq hapi.relative, hproject.join_eq hrelative]
  simp only [String.append_assoc]
  rfl

/-- The validation of the specification of a project. -/
def validationOf (name : String) (directory : Option Path) (config : Configuration) (all : Bool)
    (t : FileTree) : (Progress × Except Failure Unit) × FileTree :=
  Pipeline.run (Pipeline.validation : Pipeline (StateM FileTree))
    (.start (specificationPath name directory) config all) t

/-- **A project that has been started passes validation**, if its name means itself. -/
theorem validation_startedTree (ht : t.WellFormed) (hplain : IsPlainText name)
    (h : ((initRun name directory force : StateM FileTree Output) t).1.outcome = .ok ())
    (config : Configuration) (all : Bool) : ∃ s m,
    validationOf name directory config all (startedTree name directory force t) =
      (({ Progress.start (specificationPath name directory) config all with
          specification := some s, model := some m }, .ok ()), startedTree name directory force t) ∧
      s.name = name := by
  obtain ⟨hname, hwritten, htree⟩ := writeFiles_of_initRun h
  have hproject := endsInPiece_project hname directory
  have hfiles := writeFiles_ok (starterFiles name) ht (separate_starterFiles t _ name) hwritten
  rw [← htree] at hfiles
  obtain ⟨hspec, _⟩ := hfiles _ (List.mem_cons_self)
  obtain ⟨hcontract, hpath⟩ := hfiles _ (List.mem_cons_of_mem _ List.mem_cons_self)
  have hfile : IsName "openapi.yaml" := by decide
  have hapi : IsName "api" := by decide
  have htemporary : IsName ("openapi.yaml" ++ ".tmp") := by decide
  rw [show "api/openapi.yaml" = "api/" ++ "openapi.yaml" from rfl,
    ← join_api hproject hfile (by decide),
    FileStore.temporaryPath_join hfile (Path.parent?_join_join _ hapi hfile),
    join_api hproject htemporary (by decide)] at hpath
  obtain ⟨s, m, haccepted, hs⟩ := Starter.accepted (isJsonPath_spec _) hspec hplain
    (readText_contract hproject hspec hcontract hpath)
  exact ⟨s, m, haccepted.validation (p := .start (specificationPath name directory) config all), hs⟩

/-- **A project that has been started does not pass validation**, if its name is read as it is
written but means something else. -/
theorem refused_startedTree (ht : t.WellFormed) (hline : IsPlainLine name)
    (hmeans : plainValue name ≠ .ok (.text name))
    (h : ((initRun name directory force : StateM FileTree Output) t).1.outcome = .ok ())
    (config : Configuration) (all : Bool) :
    (validationOf name directory config all (startedTree name directory force t)).1.2 ≠ .ok () := by
  obtain ⟨_, hwritten, htree⟩ := writeFiles_of_initRun h
  have hfiles := writeFiles_ok (starterFiles name) ht (separate_starterFiles t _ name) hwritten
  rw [← htree] at hfiles
  obtain ⟨hspec, _⟩ := hfiles _ List.mem_cons_self
  unfold validationOf
  generalize hrun : Pipeline.run (Pipeline.validation : Pipeline (StateM FileTree)) _ _ = result
  obtain ⟨⟨q, r⟩, v⟩ := result
  rintro rfl
  obtain ⟨_, s, m, haccepted, _⟩ := Pipeline.validation_ok hrun
  exact Starter.not_accepted (isJsonPath_spec _) hspec hline hmeans haccepted

/-! ## Projects that can be started -/

/-- A directory does not yet contain a project, whose paths can be written there. -/
structure Startable (t : FileTree) (name : String) (directory : Option Path) : Prop where
  there : t.isDirectory (directory.getD ".") = true
  new : t.find? (t.locate (projectPath name directory)) = none
  shortName : name.utf8ByteSize ≤ maxName
  shortPath : (join (projectPath name directory) "api/openapi.yaml.tmp").utf8ByteSize ≤
    FileTree.maxPath

namespace Startable

theorem isName (h : Startable t name directory) (hname : isProjectName name = true) :
    IsName name := by
  obtain ⟨hempty, hup, hslash⟩ := of_isProjectName hname
  refine ⟨hslash, hempty, ?_, hup⟩
  -- a dot names the directory itself, which is there
  rintro rfl
  have hnew := h.new
  rw [projectPath, t.locate_join _ (by decide), show Path.moves "." = [] by decide +kernel,
    List.foldl_nil, (FileTree.directory_of_isDirectory h.there).2] at hnew
  cases hnew

theorem isPath (h : Startable t name directory) (hnul : '\x00' ∉ name.toList)
    (hproject : EndsInPiece (projectPath name directory)) :
    IsPath (join (projectPath name directory) "api/openapi.yaml.tmp") := by
  have hbase := IsPath.of_resolve (FileTree.directory_of_isDirectory h.there).1
  refine ⟨fun hmem => ?_, h.shortPath, fun hempty => ?_⟩
  · rcases Path.mem_join hmem with hmem | hmem | hmem
    · rcases Path.mem_join hmem with hmem | hmem | hmem
      · exact hbase.noNul hmem
      · cases hmem
      · exact hnul hmem
    · cases hmem
    · revert hmem
      decide
  · rw [hproject.join_eq (by decide)] at hempty
    simp at hempty

end Startable

/-- **The files of a new project can be written** where there is nothing yet. -/
theorem writeFiles_new {l : Location} (ht : t.WellFormed) (hproject : EndsInPiece project)
    (hparent : ∀ n, IsName n → (join project n).parent? = some project)
    (hl : t.resolve project = .ok l) (hnone : t.find? l = none)
    (hpath : IsPath (join project "api/openapi.yaml.tmp")) (name : String) :
    ((writeFiles project (starterFiles name) : StateM FileTree Output) t).1.outcome = .ok () := by
  have hspec : IsName "spec.yaml" := by decide
  have hapi : IsName "api" := by decide
  have hfile : IsName "openapi.yaml" := by decide
  have hshort : ∀ {r : Path}, isAbsolute r = false → '\x00' ∉ r.toList → r ≠ "" →
      r.utf8ByteSize ≤ 20 → IsPath (join project r) := fun hr hnul hne hle =>
    hpath.join_of_le hproject (by decide) List.prefix_rfl hr hnul hne hle
  -- the specification, which makes the directory of the project
  obtain ⟨u, hfirst, hu⟩ := FileStore.replaceText_new ht hproject (hparent _ hspec) hl hnone hspec
    (by decide) (hshort (by decide) (by decide) (by decide) (by decide))
    (starterSpecification name)
  have hchanged := (FileStore.replaceText_changes _ _).changedAt ht hfirst
  have hdirectory : u.find? l = some .directory := by
    rw [hu, if_neg (by simp), if_pos rfl]
  have hempty : u.find? (l ++ ["api"]) = none := by
    rw [hu, if_neg (by simp), if_neg (by simp)]
    by_contra hthere
    rw [ht _ _ hthere] at hnone
    cases hnone
  -- the contract, which makes a directory in that
  have hresolve := FileTree.resolve_join (hchanged.resolve hl) hdirectory hapi (by decide)
    (hshort (by decide) (by decide) (by decide) (by decide))
  obtain ⟨v, hsecond, _⟩ := FileStore.replaceText_new hchanged.wellFormed
    (Path.endsInPiece_join _ hapi.noDots.1 hapi.noSlash) (Path.parent?_join_join _ hapi hfile)
    hresolve hempty hfile (by decide)
    (by rw [join_api hproject (by decide) (by decide)]; exact hpath) (starterContract name)
  rw [join_api hproject hfile (by decide)] at hsecond
  rw [starterFiles, run_writeFiles_cons, hfirst]
  dsimp only
  rw [run_writeFiles_cons, show "api/openapi.yaml" = "api/" ++ "openapi.yaml" from rfl, hsecond]
  rfl

/-- **A project that is new in a directory can be started there.** -/
theorem initRun_ok (ht : t.WellFormed) (hname : isProjectName name = true)
    (hnul : '\x00' ∉ name.toList) (h : Startable t name directory) (force : Bool) :
    ((initRun name directory force : StateM FileTree Output) t).1.outcome = .ok () := by
  have hn := h.isName hname
  have hproject := endsInPiece_project hname directory
  have hpath := h.isPath hnul hproject
  obtain ⟨hbase, hdirectory⟩ := FileTree.directory_of_isDirectory h.there
  have hbegins : (projectPath name directory).toList <+:
      (join (projectPath name directory) "api/openapi.yaml.tmp").toList := by
    rw [hproject.join_eq (by decide)]
    simp [List.append_assoc]
  have hlocate : t.locate (projectPath name directory) =
      t.locate (directory.getD ".") ++ [name] := by
    rw [projectPath, t.locate_join _ hn.relative, hn.moves]
    rfl
  have hresolve := FileTree.resolve_join hbase hdirectory hn h.shortName
    (hpath.of_begins hbegins hproject.nonempty)
  have hnew := h.new
  have hwritten := writeFiles_new ht hproject (fun _ => Path.parent?_join_join _ hn) hresolve
    (hlocate ▸ hnew) hpath name
  have hmissing : t.existsAt (join (projectPath name directory) "spec.yaml") = false := by
    rw [Bool.eq_false_iff]
    intro hthere
    obtain ⟨_, e, he⟩ := FileTree.entry_of_existsAt hthere
    rw [plain_spec.locate] at he
    have hentry : t.find? (t.locate (projectPath name directory) ++ FileTree.route "spec.yaml") ≠
        none := by
      rw [he]
      exact Option.some_ne_none e
    rw [ht.ancestor (FileTree.route_ne_nil _) hentry] at hnew
    cases hnew
  rw [run_initRun, if_neg (by simp [hname]), if_neg (by simp [hmissing])]
  simp only [startReport, hwritten]

theorem not_mem_nul (hline : IsPlainLine name) : '\x00' ∉ name.toList := fun hnul => by
  have := List.all_eq_true.1 hline.simple _ hnul
  revert this
  decide

/-- **A new project compiles** if its name means itself: where it is new it is started, and wherever
it has been started, its specification passes every stage of validation and has its name. -/
theorem initRun_compiles (ht : t.WellFormed) (hname : isProjectName name = true)
    (hplain : IsPlainText name) (directory : Option Path) (force : Bool) :
    (Startable t name directory →
      ((initRun name directory force : StateM FileTree Output) t).1.outcome = .ok ()) ∧
    (((initRun name directory force : StateM FileTree Output) t).1.outcome = .ok () →
      ∀ config all, ∃ s m,
        validationOf name directory config all (startedTree name directory force t) =
          (({ Progress.start (specificationPath name directory) config all with
              specification := some s, model := some m }, .ok ()),
            startedTree name directory force t) ∧
          s.name = name) :=
  ⟨fun h => initRun_ok ht hname (not_mem_nul hplain.toIsPlainLine) h force,
    fun h => validation_startedTree ht hplain h⟩

/-- A working directory without anything in it. -/
def emptyTree : FileTree := .fresh ["w"]

theorem wellFormed_emptyTree : emptyTree.WellFormed :=
  FileTree.wellFormed_of_entries (by decide)

theorem initRun_compiles_shop : emptyTree.WellFormed ∧ isProjectName "shop" = true ∧
    IsPlainText "shop" ∧ Startable emptyTree "shop" none ∧
    ((initRun "shop" none false : StateM FileTree Output) emptyTree).1.outcome = .ok () ∧
    ∃ s m, validationOf "shop" none .standard false (startedTree "shop" none false emptyTree) =
      (({ Progress.start "./shop/spec.yaml" .standard false with
          specification := some s, model := some m }, .ok ()),
        startedTree "shop" none false emptyTree) ∧ s.name = "shop" := by
  have hname : isProjectName "shop" = true := by decide +kernel
  have hplain : IsPlainText "shop" := { toIsPlainLine := by decide +kernel, means := rfl }
  have hnew : Startable emptyTree "shop" none :=
    ⟨by decide +kernel, by decide +kernel, by decide, by decide +kernel⟩
  obtain ⟨hstarts, hpasses⟩ := initRun_compiles wellFormed_emptyTree hname hplain none false
  exact ⟨wellFormed_emptyTree, hname, hplain, hnew, hstarts hnew,
    hpasses (hstarts hnew) .standard false⟩

/-- **A project with a number as its name** can be started and does not pass validation. -/
theorem initRun_number : isProjectName "123" = true ∧ Startable emptyTree "123" none ∧
    ((initRun "123" none false : StateM FileTree Output) emptyTree).1.outcome = .ok () ∧
    (validationOf "123" none .standard false (startedTree "123" none false emptyTree)).1.2 ≠
      .ok () := by
  have hname : isProjectName "123" = true := by decide +kernel
  have hline : IsPlainLine "123" := by decide +kernel
  have hnew : Startable emptyTree "123" none :=
    ⟨by decide +kernel, by decide +kernel, by decide, by decide +kernel⟩
  have hmeans : plainValue "123" ≠ .ok (.text "123") := by
    have hnumber : plainValue "123" = .ok (.int 123) := rfl
    rw [hnumber]
    nofun
  have hstarts := initRun_ok wellFormed_emptyTree hname (not_mem_nul hline) hnew false
  exact ⟨hname, hnew, hstarts,
    refused_startedTree wellFormed_emptyTree hline hmeans hstarts .standard false⟩

end ArchSpec.Command
