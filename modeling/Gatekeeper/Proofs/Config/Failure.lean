import Gatekeeper.Proofs.Config.Persist

set_option autoImplicit false

/-!
# Recording that fails

Where an interpreter cannot be recorded, all that has happened is that directories were made on the
way to the file (`persist_eq_error`). Nothing that was on the disk is touched, and what the path
leads to is what it led to before; only a path that comes back by `..` from a missing directory may
lead somewhere now that the directory is there (`failure_leaves_the_file`).
-/

namespace Gatekeeper.Config

open Machine

variable {d d' : Disk} {cwd : Location} {path interpreter : String} {e : Error}

theorem prepare_eq_ok (made : prepare d cwd path = .ok d') : prepared d cwd path = d' := by
  rw [prepared, Disk.makeTree_eq_ok_iff.mp made]

theorem exists_of_prepare_eq_error {cause : IoError} (unmade : prepare d cwd path = .error cause) :
    ∃ q ∈ (Path.ancestors path).tail, (prepared d cwd path).isDir cwd q = false := by
  rw [prepare, Disk.makeTree] at unmade
  split at unmade
  · cases unmade
  · next d₁ cause grown =>
    rw [prepared, grown]
    exact Disk.exists_not_isDir grown

/-- Where the directory of a file cannot be made, there is nothing at the path. -/
theorem not_occupied_of_prepare {cause : IoError} (tree : d.IsTree) (dir : d.IsDirAt cwd)
    (unmade : prepare d cwd path = .error cause) :
    ¬(prepared d cwd path).occupied cwd path = true := by
  intro there
  -- a directory on the way is missing still, and a path to something leads through it
  obtain ⟨q, member, missing⟩ := exists_of_prepare_eq_error unmade
  obtain ⟨-, behind, -, -, goesOn, -, isAbove⟩ := Path.exists_above member
  obtain ⟨more, tree'⟩ := Disk.growTree_spec d cwd (Path.ancestors path).tail
  obtain ⟨x, f, found⟩ := Disk.occupied_iff_find.mp there
  have isDir := Disk.isDir_of_find (tree' tree) (dir.extends more) isAbove goesOn found
  cases missing.symm.trans isDir

/-- **How recording an interpreter fails**: the directory of the file cannot be made, the file
cannot be read, or the new one cannot be written. -/
theorem persist_eq_error (failed : persist d cwd path interpreter = (d', some e)) :
    d' = prepared d cwd path ∧
      ((∃ cause, prepare d cwd path = .error cause ∧ e = .write path (.io cause)) ∨
      (∃ cause, contents d' cwd path = .error cause ∧ e = .read path cause) ∨
      ∃ old fault, contents d' cwd path = .ok old ∧ e = .write path fault) := by
  rw [persist] at failed
  split at failed
  · next cause unmade =>
    cases failed
    exact ⟨rfl, .inl ⟨cause, unmade, rfl⟩⟩
  · next d₀ made =>
    rw [prepare_eq_ok made]
    split at failed
    · next cause unread =>
      cases failed
      exact ⟨rfl, .inr (.inl ⟨cause, unread, rfl⟩)⟩
    · next old read =>
      have writes : d' = d₀ ∧ ∃ fault, e = .write path fault := by
        split at failed
        · next fault _ =>
          cases failed
          exact ⟨rfl, fault, rfl⟩
        · split at failed
          · next cause _ =>
            cases failed
            exact ⟨rfl, .io cause, rfl⟩
          · cases failed
      obtain ⟨rfl, fault, rfl⟩ := writes
      exact ⟨rfl, .inr (.inr ⟨old, fault, read, rfl⟩)⟩

theorem contents_eq_error_iff {cause : IoError} : contents d cwd path = .error cause ↔
    d.occupied cwd path = true ∧ d.readText cwd path = .error cause := by
  rw [contents]
  split
  · next there => exact ⟨fun unread => ⟨there, unread⟩, And.right⟩
  · next free =>
    constructor
    · intro unread
      cases unread
    · exact fun unread => absurd unread.1 free

/-- **What an error says**: the file was there and could not be read, or else the new one could not
be written. -/
theorem persist_error_kind (tree : d.IsTree) (dir : d.IsDirAt cwd)
    (failed : persist d cwd path interpreter = (d', some e)) :
    (∀ cause, e = .read path cause ↔
      d'.occupied cwd path = true ∧ d'.readText cwd path = .error cause) ∧
    ((∃ cause, e = .read path cause) ∨ ∃ fault, e = .write path fault) := by
  obtain ⟨rfl, ⟨cause, unmade, rfl⟩ | ⟨cause, unread, rfl⟩ | ⟨old, fault, read, rfl⟩⟩ :=
    persist_eq_error failed
  · refine ⟨fun other => ⟨nofun, fun ⟨there, _⟩ => ?_⟩, .inr ⟨_, rfl⟩⟩
    exact absurd there (not_occupied_of_prepare tree dir unmade)
  · refine ⟨fun other => ?_, .inl ⟨cause, rfl⟩⟩
    rw [← contents_eq_error_iff, unread, Error.read.injEq, Except.error.injEq]
    exact ⟨And.right, fun same => ⟨rfl, same⟩⟩
  · refine ⟨fun other => ⟨nofun, fun unread => ?_⟩, .inr ⟨fault, rfl⟩⟩
    cases read.symm.trans (contents_eq_error_iff.mpr unread)

/-- Nothing is touched where directories are made. -/
theorem get?_prepared (d : Disk) (cwd : Location) (path : String) (x : Location) :
    (prepared d cwd path).get? x = d.get? x ∨
      d.get? x = none ∧ (prepared d cwd path).get? x = some (.dir true) := by
  obtain ⟨more, -⟩ := Disk.growTree_spec d cwd (Path.ancestors path).tail
  cases before : d.get? x with
  | some f => exact .inl (more x f before)
  | none =>
      cases after : (prepared d cwd path).get? x with
      | none => exact .inl rfl
      | some f =>
          rcases Disk.get?_growTree after with there | rfl
          · cases before.symm.trans there
          · exact .inr ⟨rfl, rfl⟩

/-- **A failure leaves the file alone.** Where the path leads to a place, the disk is what it was.
Where it does not, only directories have been made, and unless the path comes back by `..` from
where nothing was, it leads to nothing still. An error is about reading exactly where there is
something at the path, once its directories are made, that cannot be read as text; any other is
about writing. -/
theorem failure_leaves_the_file (tree : d.IsTree) (dir : d.IsDirAt cwd)
    (failed : persist d cwd path interpreter = (d', some e)) :
    (∀ follow p, d.find cwd path follow = .ok p → d' = d) ∧
    (∀ x, d'.get? x = d.get? x ∨ d.get? x = none ∧ d'.get? x = some (.dir true)) ∧
    (¬Disk.ComesBack d cwd path →
      (∀ follow x f, d'.find cwd path follow = .ok (.entry x f) ↔
        d.find cwd path follow = .ok (.entry x f)) ∧
      ∀ cause, e = .read path cause ↔
        d.occupied cwd path = true ∧ d.readText cwd path = .error cause) ∧
    (∀ cause, e = .read path cause ↔
      d'.occupied cwd path = true ∧ d'.readText cwd path = .error cause) ∧
    ((∃ cause, e = .read path cause) ∨ ∃ fault, e = .write path fault) := by
  obtain ⟨kind, either⟩ := persist_error_kind tree dir failed
  obtain ⟨rfl, -⟩ := persist_eq_error failed
  have untouched (follow : Bool) (p : Place) (found : d.find cwd path follow = .ok p) :
      prepared d cwd path = d := by
    rw [prepared, Disk.growTree_of_find tree dir found]
  refine ⟨untouched, get?_prepared d cwd path, fun onwards => ?_, kind, either⟩
  have same := Disk.find_growTree_iff tree dir onwards
  refine ⟨same, fun cause => ?_⟩
  by_cases there : d.occupied cwd path = true
  · obtain ⟨x, f, found⟩ := Disk.occupied_iff_find.mp there
    rw [kind, untouched true _ found]
  · have nothing : ¬(prepared d cwd path).occupied cwd path = true := by
      rw [Disk.occupied_iff_find] at there ⊢
      exact fun ⟨x, f, found⟩ => there ⟨x, f, (same true x f).mp found⟩
    rw [kind]
    exact ⟨fun unread => absurd unread.1 nothing, fun unread => absurd unread.1 there⟩

/-- A file in which a number stands in the place of the table. -/
theorem failure_leaves_the_file_scalar :
    ∃ d', persist (configDisk "interpreter = 2\n") [] "config.toml" "/envs/nlp/bin/python" =
        (d', some (.write "config.toml" .notTable)) ∧
      d' = configDisk "interpreter = 2\n" := by
  have edited : withInterpreter "interpreter = 2\n" "/envs/nlp/bin/python" = .error .notTable := by
    decide +kernel
  have failed : persist (configDisk "interpreter = 2\n") [] "config.toml" "/envs/nlp/bin/python" =
      (configDisk "interpreter = 2\n", some (.write "config.toml" .notTable)) :=
    persist_of_withInterpreter_eq_error Disk.isTree_single Disk.isDirAt_single
      (readText_config _) edited
  obtain ⟨untouched, -⟩ := failure_leaves_the_file Disk.isTree_single Disk.isDirAt_single failed
  exact ⟨_, failed, untouched true _ (Disk.find_single isFileName_config true)⟩

/-! ## A path that comes back -/

section Back

variable {content : String}

/-- The disk with a configuration file and an empty directory `a` beside it. -/
def besideDisk (content : String) : Disk := (configDisk content).put ["a"] (.dir true)

/-- No path leads through a missing directory. -/
theorem find_configDisk_behind {n : String} {more : List String} {follow : Bool}
    (isPath : Disk.IsPath n) (steps : Disk.steps n = "a" :: ".." :: more) :
    (configDisk content).find [] n follow = .error .noEntry := by
  have free : (configDisk content).get? ["a"] = none := rfl
  have short : ¬Disk.maxName < "a".utf8ByteSize := by decide
  rw [Disk.find, if_neg isPath.noNul, if_neg isPath.nonempty, if_neg isPath.short, ite_self, steps]
  simp [Disk.walk, free, short]

theorem find_back_besideDisk (follow : Bool) :
    (besideDisk content).find [] "a/../config.toml" follow =
      .ok (.entry ["config.toml"] (.file { bytes := Text.Utf8.encode content.toList })) := by
  have steps : Disk.steps "a/../config.toml" = ["a", "..", "config.toml"] := by decide
  refine Disk.find_eq_ok_iff.mpr ⟨⟨by decide, by decide, by decide⟩, ?_⟩
  rw [steps]
  refine .dir ⟨by decide, by decide, by decide⟩ (Disk.get?_put_self _ _ _) (.up ?_)
  exact .file isFileName_config.isName rfl

/-- The way to the file leads through the missing directory, which is made. -/
theorem prepare_back :
    prepare (configDisk content) [] "a/../config.toml" = .ok (besideDisk content) := by
  have parents : (Path.ancestors "a/../config.toml").tail = ["a/..", "a"] := by decide
  have missing : (configDisk content).makeDir [] "a/.." = .error .noEntry := by
    rw [Disk.makeDir, find_configDisk_behind ⟨by decide, by decide, by decide⟩
      (show _ = "a" :: ".." :: [] by decide)]
    rfl
  have free : (configDisk content).find [] "a" false = .ok (.vacant ["a"]) :=
    Disk.find_eq_ok_iff.mpr ⟨⟨by decide, by decide, by decide⟩,
      .vacant ⟨by decide, by decide, by decide⟩ rfl⟩
  have made : (configDisk content).makeDir [] "a" = .ok (besideDisk content) := by
    rw [Disk.makeDir, free]
    rfl
  have dir : (besideDisk content).isDir [] "a/.." = true :=
    Disk.isDir_iff_find.mpr ⟨[], true, Disk.find_eq_ok_iff.mpr ⟨⟨by decide, by decide, by decide⟩,
      .dir ⟨by decide, by decide, by decide⟩ (Disk.get?_put_self _ _ _) (.up .done)⟩⟩
  rw [prepare, parents, Disk.makeTree]
  simp only [Disk.growTree, missing, made, Disk.makeDir_of_isDir dir, dir, if_true]

/-- **Not every path leads where it did.** One that comes back from a missing directory leads to a
file when the directory has been made. -/
theorem not_failure_leaves_the_path :
    ¬∀ (d d' : Disk) (cwd : Location) (path interpreter : String) (e : Error),
      d.IsTree → d.IsDirAt cwd → persist d cwd path interpreter = (d', some e) →
      ∀ follow x f, d'.find cwd path follow = .ok (.entry x f) ↔
        d.find cwd path follow = .ok (.entry x f) := by
  intro all
  have edited : withInterpreter "[interpreter\n" "/p/bin/python" = .error .notToml := by
    decide +kernel
  have read : (besideDisk "[interpreter\n").readText [] "a/../config.toml" =
      .ok "[interpreter\n" := by
    rw [Disk.readText, Disk.read, find_back_besideDisk]
    simp [Except.bind, Text.Utf8.decode_encode]
  have failed : persist (configDisk "[interpreter\n") [] "a/../config.toml" "/p/bin/python" =
      (besideDisk "[interpreter\n", some (.write "a/../config.toml" .notToml)) := by
    simp only [persist, prepare_back, contents_of_readText read, edited]
  have found := (all _ _ _ _ _ _ Disk.isTree_single Disk.isDirAt_single failed true _ _).mp
    (find_back_besideDisk true)
  cases found.symm.trans (find_configDisk_behind ⟨by decide, by decide, by decide⟩
    (show _ = "a" :: ".." :: ["config.toml"] by decide))

end Back

end Gatekeeper.Config
