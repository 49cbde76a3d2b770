import ArchSpec.Proofs.FileStore.Reading
import ArchSpec.Proofs.FileTree.Separate

/-!
# Settings that are found again

The settings of a specification are looked for beside it. Where the specification can be read, that
directory can be reached, so settings that have not been there before are not found afterwards
unless they have been written.

* `Configuration.load_ok` — what settings are loaded.
* `Configuration.passable_settings` — the way to the settings of a specification that can be read.
* `Configuration.forSpecification_again` — the same settings, after changes elsewhere.
-/

namespace ArchSpec.Configuration

open FileTree (ChangedAt Passable Plain namesOf origin route stepTo lastChar?)

variable {t u : FileTree} {c c' : Configuration} {directory source : Path} {ps : List Path}

/-- Settings that are loaded are those of a file, or the standard ones if there is none. -/
theorem load_ok (h : (load directory : Action (StateM FileTree) Configuration).run t = (.ok c, u)) :
    (t.existsAt (Path.join directory configFileName) = false ∧ c = standard.within directory) ∨
      ∃ text, t.readText (Path.join directory configFileName) = .ok text ∧
        ofFile (Path.join directory configFileName) directory text = .ok c := by
  obtain ⟨there, v, hask, h⟩ := Action.bind_ok h
  cases hask
  cases hthere : t.existsAt (Path.join directory configFileName) with
  | false =>
    rw [hthere] at h
    cases h
    exact .inl ⟨rfl, rfl⟩
  | true =>
    rw [hthere] at h
    obtain ⟨text, v, htext, h⟩ := Action.bind_ok h
    exact .inr ⟨text, congrArg Prod.fst (Action.ofStore_ok htext), congrArg Prod.fst h⟩

/-! ## The way to the settings -/

theorem route_configFileName : route configFileName = [configFileName] :=
  FileTree.route_of_name (by decide) (by decide)

theorem plain_configFileName : Plain configFileName where
  relative := by decide
  noDots := by
    rw [route_configFileName]
    decide

/-- The directory in which settings are looked for can be reached if the specification can. -/
theorem passable_directoryOf {text : String} (h : t.readText source = .ok text) :
    Passable t (t.origin (directoryOf source)) (namesOf (directoryOf source)) ∧
      t.find? ((namesOf (directoryOf source)).foldl stepTo (t.origin (directoryOf source))) =
        some .directory := by
  obtain ⟨hresolve, hfile⟩ := FileTree.readText_ok h
  obtain ⟨parent, hparent, _, hpassable, hdirectory⟩ := FileTree.passable_parent hresolve hfile
  rw [directoryOf, hparent]
  simp only
  split
  · rename_i hempty
    obtain rfl : parent = "" := by simpa using hempty
    -- the directory of a mere name is called by a dot
    have hdirectory : t.find? t.workingDirectory = some .directory := hdirectory
    exact ⟨.cons hdirectory (.inl rfl) (.nil _), hdirectory⟩
  · exact ⟨hpassable, hdirectory⟩

/-- **The way to the settings** of a specification that can be read can be followed. -/
theorem passable_settings {text : String} (h : t.readText source = .ok text) :
    Passable t (t.origin (Path.join (directoryOf source) configFileName))
      (route (Path.join (directoryOf source) configFileName)) := by
  rw [FileTree.origin_join t _ plain_configFileName.relative,
    FileTree.route_join _ plain_configFileName.relative, FileTree.passable_append,
    route_configFileName]
  obtain ⟨hpassable, hdirectory⟩ := passable_directoryOf h
  exact ⟨hpassable, .cons hdirectory (.inr (.inr (by decide))) (.nil _)⟩

/-- **The same settings are found again** after changes elsewhere. -/
theorem forSpecification_again {text : String} (hsource : t.readText source = .ok text)
    (h : (forSpecification source : Action (StateM FileTree) Configuration).run t = (.ok c, t))
    (h' : (forSpecification source : Action (StateM FileTree) Configuration).run u = (.ok c', u))
    (hchanged : ChangedAt ps t u) (hps : ∀ p ∈ ps, lastChar? (t.locate p) ≠ some 'l') : c' = c := by
  have hlocate : ∀ p ∈ ps, t.locate p ≠
      t.locate (Path.join (directoryOf source) configFileName) := by
    intro p hp heq
    refine hps p hp ?_
    rw [heq, plain_configFileName.lastChar?, route_configFileName]
    decide
  rcases load_ok h with ⟨hnone, rfl⟩ | ⟨settings, hread, hc⟩
  · rcases load_ok h' with ⟨_, rfl⟩ | ⟨settings, hread, _⟩
    · rfl
    · have hway := passable_settings hsource
      have hthere := FileTree.readText_before hchanged hlocate hway hread
      rw [FileTree.existsAt_of_readText hthere] at hnone
      cases hnone
  · have hread' := hchanged.readText hlocate hread
    rcases load_ok h' with ⟨hnone, _⟩ | ⟨settings', hread'', hc'⟩
    · rw [FileTree.existsAt_of_readText hread'] at hnone
      cases hnone
    · rw [hread', Except.ok.injEq] at hread''
      subst hread''
      rw [hc, Except.ok.injEq] at hc'
      exact hc'.symm

end ArchSpec.Configuration
