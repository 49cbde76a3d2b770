import ArchSpec.Command.Init
import ArchSpec.Proofs.FileStore.Replace
import ArchSpec.Proofs.FileTree.Separate

/-!
# What starting a project changes

A project that is started gets a specification and a contract. Without the flag that allows it to be
overwritten, a specification that is found is kept, and so is everything else then. The other files
are not looked for: what stands where the contract or a temporary file will be is lost, and so is a
specification that cannot be found because the way to it leads through a directory that is not yet
there.

* `Command.projectPath` — the directory of a project.
* `Command.writtenPaths`, `writeFiles_changes` — the files that are written one after the other.
* `Command.run_initRun` — a start by its checks and its files.
* `Command.initRun_keeps` — the files that a start keeps; `initRun_destroys` — those it does not.
-/

namespace ArchSpec.Command

open FileStore (temporaryPath replaceText)
open FileTree (ChangedAt Passable Plain)

variable {t u : FileTree} {base p q : Path} {name text : String} {directory : Option Path}
  {force : Bool} {l : Location}

/-! ## Files that are written one after the other -/

/-- The paths that are written for some files below a directory. -/
def writtenPaths (project : Path) (files : List (Path × String)) : List Path :=
  files.flatMap fun f => [temporaryPath (Path.join project f.1), Path.join project f.1]

/-- The writing of a first file, and of the others unless it fails. -/
theorem run_writeFiles_cons (project : Path) (f : Path × String) (files : List (Path × String))
    (t : FileTree) : (writeFiles project (f :: files) : StateM FileTree Output) t =
      match (replaceText (Path.join project f.1) f.2 : Action (StateM FileTree) Unit).run t with
      | (.error e, u) => (.failed e, u)
      | (.ok (), u) =>
        let rest := (writeFiles project files : StateM FileTree Output) u
        (⟨Output.line ("  → " ++ f.1) ++ rest.1.text, rest.1.outcome⟩, rest.2) := by
  rw [writeFiles, bind_apply]
  cases (replaceText (Path.join project f.1) f.2 : Action (StateM FileTree) Unit).run t with
  | mk r u => cases r <;> rfl

/-- **No other files are changed** than those that are written and their temporary files, whether
all of them can be written or not. -/
theorem writeFiles_changes (project : Path) (files : List (Path × String)) (ht : t.WellFormed) :
    ChangedAt (writtenPaths project files) t
      ((writeFiles project files : StateM FileTree Output) t).2 := by
  induction files generalizing t with
  | nil => exact .refl ht
  | cons f files ih =>
    have hfirst : ∀ {r : Except Failure Unit} {u : FileTree},
        (replaceText (Path.join project f.1) f.2 : Action (StateM FileTree) Unit).run t = (r, u) →
          ChangedAt (writtenPaths project (f :: files)) t u := fun hrun =>
      ((FileStore.replaceText_changes _ _).changedAt ht hrun).mono
        (List.subset_append_left _ (writtenPaths project files))
    rw [run_writeFiles_cons]
    split
    · rename_i hrun
      exact hfirst hrun
    · rename_i hrun
      have hu := hfirst hrun
      exact hu.trans ((ih hu.wellFormed).mono (List.subset_append_right _ _))

/-! ## Starting a project -/

/-- The directory of a project. -/
def projectPath (name : String) (directory : Option Path) : Path :=
  Path.join (directory.getD ".") name

/-- What a start reports once it has written its files. -/
def startReport (name : String) (project : Path) (files : Output) : Output :=
  match files.outcome with
  | .error _ => files
  | .ok () => { files with text := files.text ++ nextSteps name project }

/-- A start checks the name and looks for the specification, and then writes its files. -/
theorem run_initRun (name : String) (directory : Option Path) (force : Bool) (t : FileTree) :
    (initRun name directory force : StateM FileTree Output) t =
      if isProjectName name = false then
        (.failed (.plain ("invalid project name " ++ Text.quoted name ++
          ": must be a simple directory name")), t)
      else if (t.existsAt (Path.join (projectPath name directory) "spec.yaml") &&
          !force) = true then
        (.failed (.plain ("Specification already exists at " ++
          Path.join (projectPath name directory) "spec.yaml" ++
          ". Use --force to overwrite")), t)
      else
        let written := (writeFiles (projectPath name directory) (starterFiles name) :
          StateM FileTree Output) t
        (startReport name (projectPath name directory) written.1, written.2) := by
  unfold initRun
  cases isProjectName name with
  | false => rfl
  | true =>
    have hask : (FileStore.existsAt (Path.join (Path.join (directory.getD ".") name) "spec.yaml") :
        StateM FileTree Bool) t =
          (t.existsAt (Path.join (projectPath name directory) "spec.yaml"), t) := rfl
    rw [if_neg (by decide), if_neg (by decide)]
    dsimp only
    rw [bind_apply, hask]
    split
    · rfl
    · rw [bind_apply, ← projectPath]
      cases (writeFiles (projectPath name directory) (starterFiles name) :
        StateM FileTree Output) t with
      | mk files u =>
        obtain ⟨text, outcome⟩ := files
        cases outcome <;> rfl

/-- What can be the name of a project is one name. -/
theorem namesOf_of_isProjectName (h : isProjectName name = true) :
    Path.isAbsolute name = false ∧ FileTree.namesOf name = [name] := by
  simp only [isProjectName, Bool.and_eq_true, Bool.not_eq_true', List.any_eq_false, Bool.or_eq_true,
    decide_eq_true_eq, not_or] at h
  obtain ⟨⟨hempty, _⟩, hslash⟩ := h
  have hne : name.toList ≠ [] := by
    intro hnil
    rw [String.toList_injective (hnil.trans String.toList_empty.symm)] at hempty
    cases hempty
  have hnoslash : '/' ∉ name.toList := fun hmem => (hslash '/' hmem).1 rfl
  refine ⟨?_, ?_⟩
  · rw [Path.isAbsolute, decide_eq_false_iff_not]
    exact fun hhead => hnoslash (List.mem_of_mem_head? hhead)
  · rw [FileTree.namesOf, Path.pieces, Text.splitOn_of_not_mem hnoslash]
    simp [hne]

/-- The way to a file of a project goes to the directory that the project is put into, then to the
project, and then to the file. -/
theorem passable_project (t : FileTree) (hname : isProjectName name = true) (base : Path)
    (hp : Plain p) : Passable t (t.origin (Path.join (Path.join base name) p))
      (FileTree.route (Path.join (Path.join base name) p)) ↔
    Passable t (t.origin base) (FileTree.namesOf base) ∧
      Passable t (t.locate base) (name :: FileTree.route p) := by
  obtain ⟨hrelative, hnames⟩ := namesOf_of_isProjectName hname
  have hroute : FileTree.route (Path.join (Path.join base name) p) =
      FileTree.namesOf base ++ (name :: FileTree.route p) := by
    rw [FileTree.route_join _ hp.relative, FileTree.namesOf, Path.pieces_join hrelative,
      List.map_append, List.append_assoc]
    exact congrArg (fun ns => FileTree.namesOf base ++ (ns ++ FileTree.route p)) hnames
  rw [hroute, FileTree.origin_join _ _ hp.relative, FileTree.origin_join _ _ hrelative,
    FileTree.passable_append, FileTree.foldl_namesOf]

theorem locate_project (t : FileTree) (hname : isProjectName name = true) (base : Path) :
    t.locate (Path.join base name) = FileTree.stepTo (t.locate base) name := by
  obtain ⟨hrelative, hnames⟩ := namesOf_of_isProjectName hname
  rw [← FileTree.foldl_namesOf, FileTree.namesOf, Path.pieces_join hrelative, List.map_append,
    List.foldl_append, FileTree.origin_join _ _ hrelative]
  exact congrArg₂ (List.foldl FileTree.stepTo) (FileTree.foldl_namesOf t base) hnames

/-- **What is in a project is found** if the directory that the project is put into is there, and
if the path can be followed at all. -/
theorem existsAt_of_isDirectory (ht : t.WellFormed) (hname : isProjectName name = true)
    (hbase : t.isDirectory base = true) (hp : Plain p)
    (hfile : t.textAt? (t.locate (Path.join (Path.join base name) p)) = some text)
    (hdir : u.workingDirectory = t.workingDirectory)
    (hfollowed : u.resolve (Path.join (Path.join base name) p) = .ok l) :
    t.existsAt (Path.join (Path.join base name) p) = true := by
  obtain ⟨hstart, hfollow, _⟩ := FileTree.resolve_iff.1 hfollowed
  have hshort := fun n => ((passable_project u hname base hp).1 hfollow).2.short (n := n)
  obtain ⟨hresolve, hdirectory⟩ := FileTree.directory_of_isDirectory hbase
  have hbefore := (FileTree.resolve_iff.1 hresolve).2.1
  rw [FileTree.route_eq, FileTree.passable_append] at hbefore
  have hentry := FileTree.textAt?_eq_some.1 hfile
  have hbelow : Passable t (FileTree.stepTo (t.locate base) name) (FileTree.route p) := by
    rw [hp.locate, locate_project t hname] at hentry
    refine FileTree.passable_of_entry ht hp.noDots (fun n hn => ?_) (by rw [hentry]; nofun)
    have hn' := hshort n (List.mem_cons_of_mem _ hn)
    exact (hn'.resolve_left (hp.noDots n hn).1).resolve_left (hp.noDots n hn).2
  rw [FileTree.start_congr hdir, FileTree.origin, hdir] at hstart
  have hthere := FileTree.resolve_iff.2 ⟨hstart, (passable_project t hname base hp).2
    ⟨hbefore.1, .cons hdirectory (hshort name List.mem_cons_self) hbelow⟩, rfl⟩
  exact FileTree.existsAt_of_readText (FileTree.readText_eq hthere hentry)

/-- The file of a specification in its project. -/
theorem plain_spec : Plain "spec.yaml" :=
  ⟨by decide, by decide +kernel⟩

/-- **What a start without force keeps**: every file, if the specification is found, and otherwise
all files but those that stand where a file of the project or its temporary file will be. Where the
directory is there that the project is put into, the specification is kept as well. This holds
whether the start succeeds or not. -/
theorem initRun_keeps (ht : t.WellFormed) (hfile : t.textAt? l = some text)
    (hkept : ∀ p ∈ writtenPaths (projectPath name directory) (starterFiles name), t.locate p = l →
      t.existsAt (Path.join (projectPath name directory) "spec.yaml") = true ∨
        p = Path.join (projectPath name directory) "spec.yaml" ∧
          t.isDirectory (directory.getD ".") = true) :
    ((initRun name directory false : StateM FileTree Output) t).2.textAt? l = some text := by
  rw [run_initRun]
  split
  · exact hfile
  · rename_i hname
    split
    · exact hfile
    · rename_i hmissing
      simp only [Bool.not_false, Bool.and_true] at hmissing
      rw [Bool.not_eq_false] at hname
      by_cases hfree : ∀ p ∈ writtenPaths (projectPath name directory) (starterFiles name),
          t.locate p ≠ l
      · rw [← hfile]
        exact (writeFiles_changes _ _ ht).textAt? hfree
      · -- the specification is not found, and so it cannot be written
        obtain ⟨p, hp, rfl⟩ : ∃ p ∈ _, t.locate p = l := by
          by_contra hnone
          exact hfree fun p hp heq => hnone ⟨p, hp, heq⟩
        obtain ⟨rfl, hbase⟩ := (hkept p hp rfl).resolve_left hmissing
        rw [starterFiles, run_writeFiles_cons]
        split
        · rename_i e u hrun
          rw [← hfile]
          refine (FileStore.replaceText_error ht hrun).textAt? fun q hq => ?_
          rw [List.mem_singleton.1 hq]
          exact t.locate_temporaryPath_ne _
        · rename_i u hrun
          obtain ⟨hchanged, hread⟩ := FileStore.replaceText_ok ht hrun
          exact absurd (existsAt_of_isDirectory ht hname hbase plain_spec hfile
            hchanged.workingDirectory (FileTree.readText_ok hread).1) hmissing

/-- A working directory with a directory of a project, in which the user keeps a file. -/
def ownTree (path : Location) : FileTree :=
  ⟨[(["w"], .directory), (["w", "shop"], .directory), (["w", "shop", "api"], .directory),
    (["w", "shop"] ++ path, .file "mine")], ["w"]⟩

/-- The start of that project, without force. -/
def ownStart (path : Location) (directory : Option Path) : Output × FileTree :=
  (initRun "shop" directory false : StateM FileTree Output) (ownTree path)

/-- A project that was started before: the user keeps a specification and a contract in it. -/
def secondTree : FileTree :=
  ⟨[(["w"], .directory), (["w", "shop"], .directory), (["w", "shop", "api"], .directory),
    (["w", "shop", "spec.yaml"], .file "mine"),
    (["w", "shop", "api", "openapi.yaml"], .file "mine, too")], ["w"]⟩

/-- A file at no written path is kept by a start that succeeds. Where the specification is found,
the contract is kept as well, although its place is that of a written path. -/
theorem initRun_keeps_readme : (ownTree ["readme"]).WellFormed ∧
    (ownTree ["readme"]).textAt? ["w", "shop", "readme"] = some "mine" ∧
    (ownTree ["readme"]).existsAt (Path.join (projectPath "shop" none) "spec.yaml") = false ∧
    (ownStart ["readme"] none).1.outcome.isOk = true ∧
    (ownStart ["readme"] none).2.textAt? ["w", "shop", "readme"] = some "mine" ∧
    secondTree.WellFormed ∧
    secondTree.existsAt (Path.join (projectPath "shop" none) "spec.yaml") = true ∧
    ["w", "shop", "api", "openapi.yaml"] ∈
      (writtenPaths (projectPath "shop" none) (starterFiles "shop")).map secondTree.locate ∧
    ((initRun "shop" none false : StateM FileTree Output) secondTree).1.outcome.isOk = false ∧
    ((initRun "shop" none false : StateM FileTree Output) secondTree).2.textAt?
      ["w", "shop", "spec.yaml"] = some "mine" ∧
    ((initRun "shop" none false : StateM FileTree Output) secondTree).2.textAt?
      ["w", "shop", "api", "openapi.yaml"] = some "mine, too" := by
  have hwell : (ownTree ["readme"]).WellFormed := FileTree.wellFormed_of_entries (by decide)
  have hfile : (ownTree ["readme"]).textAt? ["w", "shop", "readme"] = some "mine" := by decide
  have hplaces : ∀ p ∈ writtenPaths (projectPath "shop" none) (starterFiles "shop"),
      (ownTree ["readme"]).locate p ≠ ["w", "shop", "readme"] := by
    decide +kernel
  have hstarted : secondTree.WellFormed := FileTree.wellFormed_of_entries (by decide)
  have hfound : secondTree.existsAt (Path.join (projectPath "shop" none) "spec.yaml") = true := by
    decide +kernel
  exact ⟨hwell, hfile, by decide +kernel, by decide +kernel,
    initRun_keeps hwell hfile fun p hp hplace => absurd hplace (hplaces p hp),
    hstarted, hfound, by decide +kernel, by decide +kernel,
    initRun_keeps hstarted (by decide) fun _ _ _ => .inl hfound,
    initRun_keeps hstarted (by decide) fun _ _ _ => .inl hfound⟩

/-- **Files that are lost without force**: a contract, a file with the name of a temporary file, and
a specification that is put into a directory of which the path is followed only once it is made. -/
theorem initRun_destroys :
    ((ownTree ["api", "openapi.yaml"]).textAt? ["w", "shop", "api", "openapi.yaml"] = some "mine" ∧
      (ownStart ["api", "openapi.yaml"] none).1.outcome.isOk = true ∧
      (ownStart ["api", "openapi.yaml"] none).2.textAt? ["w", "shop", "api", "openapi.yaml"] =
        some (starterContract "shop")) ∧
    ((ownTree ["spec.yaml.tmp"]).textAt? ["w", "shop", "spec.yaml.tmp"] = some "mine" ∧
      (ownStart ["spec.yaml.tmp"] none).1.outcome.isOk = true ∧
      (ownStart ["spec.yaml.tmp"] none).2.textAt? ["w", "shop", "spec.yaml.tmp"] = none) ∧
    (ownTree ["spec.yaml"]).textAt? ["w", "shop", "spec.yaml"] = some "mine" ∧
      (ownStart ["spec.yaml"] (some "missing/..")).1.outcome.isOk = true ∧
      (ownStart ["spec.yaml"] (some "missing/..")).2.textAt? ["w", "shop", "spec.yaml"] =
        some (starterSpecification "shop") := by
  decide +kernel

end ArchSpec.Command
