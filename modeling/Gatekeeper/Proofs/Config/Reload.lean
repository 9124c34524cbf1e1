import Gatekeeper.Proofs.Config.Persist
import Gatekeeper.Session.Live

set_option autoImplicit false

/-!
# The interpreter of the next run

A recorded interpreter is kept letter by letter, but a configured one is expanded and trimmed before
it is used. Exactly the paths that neither of the two changes are the interpreters that a later run
starts with (`persisted_is_default`): those without blanks at their ends that refer to no variable
(`IsVerbatim`).
-/

namespace Gatekeeper

/-! ## Texts that are expanded to themselves -/

namespace Environment

/-- The characters that are read of a reference, with the mark that opens it. -/
def opened : Option (List Char) → List Char
  | none => []
  | some name => openMark ++ name.reverse

/-- A text without references is expanded to itself. -/
theorem expandFrom_of_references (env : Environment) {o : Option (List Char)} {s : List Char}
    (noReferences : referencesFrom o s = []) : expandFrom env o s = opened o ++ s := by
  fun_induction referencesFrom o s with
  | case1 => rfl
  | case2 name => rw [expandFrom, List.append_nil, opened]
  | case3 => cases noReferences
  | case4 name c rest notClosed ih =>
      have longer : opened (some (c :: name)) = opened (some name) ++ [c] := by
        simp [opened]
      rw [expandFrom, if_neg notClosed, ih noReferences, longer, List.append_assoc]
      rfl
  | case5 => rfl
  | case6 c d rest opens ih =>
      obtain ⟨dollar, brace⟩ := Bool.and_eq_true_iff.mp opens
      rw [expandFrom, if_pos opens, ih noReferences, beq_iff_eq.mp dollar, beq_iff_eq.mp brace]
      rfl
  | case7 c d rest notOpens ih =>
      rw [expandFrom, if_neg notOpens, ih noReferences]
      rfl

/-- Where no variable is set, every reference takes three characters away at least. -/
theorem length_expandFrom (o : Option (List Char)) (s : List Char) :
    (expandFrom [] o s).length + 3 * (referencesFrom o s).length ≤
      (opened o).length + s.length := by
  fun_induction referencesFrom o s with
  | case1 => exact Nat.le_refl _
  | case2 name =>
      rw [expandFrom, opened]
      exact Nat.le_refl _
  | case3 name c rest closed ih =>
      have nothing : valueOf [] name.reverse = [] := by
        unfold valueOf
        split <;> rfl
      rw [expandFrom, if_pos closed, nothing, List.nil_append, List.length_cons, List.length_cons]
      have mark : (opened (some name)).length = 2 + name.length := by
        simp [opened, openMark]
        omega
      have inner : (opened none).length = 0 := rfl
      omega
  | case4 name c rest notClosed ih =>
      rw [expandFrom, if_neg notClosed, List.length_cons]
      have mark : (opened (some (c :: name))).length = (opened (some name)).length + 1 := by
        simp [opened]
        omega
      omega
  | case5 c => exact Nat.le_of_eq (Nat.add_comm 1 0)
  | case6 c d rest opens ih =>
      rw [expandFrom, if_pos opens, List.length_cons, List.length_cons]
      have mark : (opened (some [])).length = 2 := rfl
      have inner : (opened none).length = 0 := rfl
      omega
  | case7 c d rest notOpens ih =>
      rw [expandFrom, if_neg notOpens, List.length_cons, List.length_cons]
      omega

end Environment

namespace Text

theorem length_trim (s : List Char) : (trim s).length ≤ s.length := by
  rw [trim, trimEnd, dropEndWhile, List.length_reverse, trimStart]
  calc ((s.dropWhile isBlank).reverse.dropWhile isBlank).length
      ≤ (s.dropWhile isBlank).reverse.length := (List.dropWhile_sublist _).length_le
    _ = (s.dropWhile isBlank).length := List.length_reverse
    _ ≤ s.length := (List.dropWhile_sublist _).length_le

end Text

namespace Config

open Machine Toml

/-- Whether a configured path is used as it is written. -/
structure IsVerbatim (p : String) : Prop where
  noBlanks : Text.trim p.toList = p.toList
  noReferences : Environment.references p = []

variable {p : String}

theorem default?_eq_some_iff {i : Interpreter} {env : Environment} {raw : String}
    (set : i.defaultPath = some raw) : i.default? env = some p ↔
      Text.trim (env.expand raw).toList = p.toList ∧ p.toList ≠ [] := by
  rw [Interpreter.default?, set, Option.bind_some]
  by_cases blank : Text.trim (env.expand raw).toList = []
  · rw [blank]
    exact ⟨nofun, fun ⟨same, nonempty⟩ => absurd same.symm nonempty⟩
  · have used : ¬(Text.trim (env.expand raw).toList).isEmpty = true := by simpa using blank
    simp only [if_neg used, Option.some.injEq]
    constructor
    · rintro rfl
      rw [String.toList_ofList]
      exact ⟨rfl, blank⟩
    · rintro ⟨same, -⟩
      rw [same, String.ofList_toList]

/-- **A path is the interpreter in every environment** just where it is used as it is written. -/
theorem default?_iff_isVerbatim {i : Interpreter} (set : i.defaultPath = some p)
    (nonblank : Text.trim p.toList ≠ []) :
    (∀ env, i.default? env = some p) ↔ IsVerbatim p := by
  have expand (env : Environment) (none_ : Environment.references p = []) :
      (env.expand p).toList = p.toList := by
    rw [Environment.expand, String.toList_ofList, Environment.expandFrom_of_references env none_]
    rfl
  constructor
  · intro used
    -- an environment without variables tells
    obtain ⟨trimmed, -⟩ := (default?_eq_some_iff set).mp (used [])
    have enough : p.toList.length ≤ (Environment.expand [] p).toList.length :=
      trimmed ▸ Text.length_trim _
    rw [Environment.expand, String.toList_ofList] at enough
    -- were there a reference, less would be left than there is to begin with
    have shorter := Environment.length_expandFrom none p.toList
    have empty : (Environment.opened none).length = 0 := rfl
    have noReferences : Environment.references p = [] :=
      List.length_eq_zero_iff.mp
        (show (Environment.referencesFrom none p.toList).length = 0 by omega)
    rw [expand [] noReferences] at trimmed
    exact ⟨trimmed, noReferences⟩
  · intro verbatim env
    rw [default?_eq_some_iff set, expand env verbatim.noReferences, verbatim.noBlanks]
    exact ⟨rfl, verbatim.noBlanks ▸ nonblank⟩

/-! ## The file when it is loaded again -/

section Reload

variable {d d' : Disk} {cwd : Location} {path content content' : String} {config : Config}

theorem load_eq_ok (loaded : load d cwd path = .ok (some config)) :
    ∃ content, d.readText cwd path = .ok content ∧ ofText? content = some config := by
  rw [load] at loaded
  split at loaded
  · cases read : d.readText cwd path with
    | error e =>
        rw [read] at loaded
        cases loaded
    | ok content =>
        rw [read] at loaded
        cases decoded : ofText? content with
        | none =>
            simp only [decoded] at loaded
            cases loaded
        | some c =>
            simp only [decoded] at loaded
            cases loaded
            exact ⟨content, rfl, decoded⟩
  · cases loaded

/-- **What is recorded is loaded**: the same configuration with another default path. -/
theorem load_of_persist (tree : d.IsTree) (dir : d.IsDirAt cwd)
    (loaded : load d cwd path = .ok (some config)) (persisted : persist d cwd path p = (d', none)) :
    load d' cwd path = .ok (some
      { config with interpreter := { config.interpreter with defaultPath := some p } }) := by
  obtain ⟨content, read, decoded⟩ := load_eq_ok loaded
  obtain ⟨content', edited, read'⟩ := readText_of_persist tree dir read persisted
  obtain ⟨doc, fields, _, parses, editable, put, -⟩ := withInterpreter_eq_ok edited
  have isTable v (stands : fields.lookup "interpreter" = some v) :=
    Document.table_of_putString? parses put stands
  obtain ⟨content'', doc', fields', inner', edited', parses', sets⟩ :=
    withInterpreter_setsIn parses editable isTable p
  rw [edited] at edited'
  cases edited'
  rw [load_of_readText read', ofText?_setsIn parses parses' isTable sets decoded]

/-- A file that the editor takes is written where it is alone on its disk. -/
theorem exists_persist_config (edited : withInterpreter content p = .ok content') :
    ∃ d', persist (configDisk content) [] "config.toml" p = (d', none) :=
  exists_persist Disk.isTree_single Disk.isDirAt_single (isWritable_config _)
    (readText_config _) edited

/-- **A recorded interpreter is the one of the next run** in every environment just where its path
is used as it is written. A new controller then prefers it, or the interpreter in it where it is the
directory of an environment. -/
theorem persisted_is_default (tree : d.IsTree) (dir : d.IsDirAt cwd)
    (nonblank : Text.trim p.toList ≠ []) (loaded : load d cwd path = .ok (some config))
    (persisted : persist d cwd path p = (d', none)) :
    ∃ config', load d' cwd path = .ok (some config') ∧
      ((∀ env, config'.interpreter.default? env = some p) ↔ IsVerbatim p) ∧
      (IsVerbatim p → ∀ (env : Environment) (live : Session.Live),
        (Session.Controller.initial
          { defaultInterpreter := config'.interpreter.default? env
            followChanges := config'.interpreter.followChanges }
          live.surroundings).preferred =
          some (Discovery.resolve live.fleet.world.disk live.fleet.world.cwd p)) := by
  have verbatim := default?_iff_isVerbatim
    (i := { config.interpreter with defaultPath := some p }) rfl nonblank
  refine ⟨_, load_of_persist tree dir loaded persisted, verbatim, fun isVerbatim env live => ?_⟩
  have used := verbatim.mpr isVerbatim env
  simp only [Session.Controller.initial, used, Option.map_some, Session.Live.surroundings]

/-- The interpreter of an environment, recorded in an empty file. -/
theorem persisted_is_default_nlp :
    ∃ d' config', persist (configDisk "") [] "config.toml" "/envs/nlp/bin/python" = (d', none) ∧
      load d' [] "config.toml" = .ok (some config') ∧
      ∀ env, config'.interpreter.default? env = some "/envs/nlp/bin/python" := by
  have edited : withInterpreter "" "/envs/nlp/bin/python" =
      .ok "[interpreter]\ndefault_path = \"/envs/nlp/bin/python\"\n" := by decide +kernel
  obtain ⟨d', persisted⟩ := exists_persist_config edited
  have loaded : load (configDisk "") [] "config.toml" = .ok (some {}) := load_config rfl
  obtain ⟨config', loaded', used, -⟩ := persisted_is_default Disk.isTree_single Disk.isDirAt_single
    (p := "/envs/nlp/bin/python") (by decide) loaded persisted
  exact ⟨d', config', persisted, loaded', used.mpr ⟨by decide, by decide⟩⟩

/-- The root directory is taken for an environment. -/
theorem resolve_root : Discovery.resolve (configDisk content) [] "/" = "/bin/python" := by
  have found : (configDisk content).find [] "/" true = .ok (.entry [] (.dir true)) := by
    have here : Disk.steps "/" = ["."] := by decide
    refine Disk.find_eq_ok_iff.mpr ⟨⟨by decide, by decide, by decide⟩, ?_⟩
    rw [here]
    exact .stay .done
  have dir : (configDisk content).isDir [] "/" = true := by
    rw [Disk.isDir, Disk.entry?, found]
  have interpreter : Discovery.interpreterIn "/" = "/bin/python" := by decide
  rw [Discovery.resolve, if_pos dir, interpreter]

/-- **Not every path is the interpreter of the next run.** One that refers to a variable is
expanded, and one of a directory stands for the interpreter in it. -/
theorem not_persisted_is_default :
    (¬∀ (d d' : Disk) (cwd : Location) (path p : String) (config : Config),
      d.IsTree → d.IsDirAt cwd → Text.trim p.toList ≠ [] → load d cwd path = .ok (some config) →
      persist d cwd path p = (d', none) →
      ∃ config', load d' cwd path = .ok (some config') ∧
        ∀ env, config'.interpreter.default? env = some p) ∧
    (¬∀ (d d' : Disk) (cwd : Location) (path p : String) (config : Config),
      d.IsTree → d.IsDirAt cwd → Text.trim p.toList ≠ [] → load d cwd path = .ok (some config) →
      persist d cwd path p = (d', none) → IsVerbatim p →
      ∃ config', load d' cwd path = .ok (some config') ∧
        ∀ (env : Environment) (live : Session.Live), (Session.Controller.initial
          { defaultInterpreter := config'.interpreter.default? env
            followChanges := config'.interpreter.followChanges }
          live.surroundings).preferred = some p) := by
  have loaded : load (configDisk "") [] "config.toml" = .ok (some {}) := load_config rfl
  constructor
  · intro all
    have edited : withInterpreter "" "/envs/$\x7bNLP\x7d/bin/python" =
        .ok "[interpreter]\ndefault_path = \"/envs/$\x7bNLP\x7d/bin/python\"\n" := by decide +kernel
    obtain ⟨d', persisted⟩ := exists_persist_config edited
    obtain ⟨config', loaded', used⟩ :=
      all _ d' [] "config.toml" _ {} Disk.isTree_single Disk.isDirAt_single
        (by decide) loaded persisted
    rw [load_of_persist Disk.isTree_single Disk.isDirAt_single loaded persisted] at loaded'
    cases loaded'
    have verbatim := (default?_iff_isVerbatim rfl (by decide)).mp used
    exact absurd verbatim.noReferences (by decide)
  · intro all
    have edited : withInterpreter "" "/" = .ok "[interpreter]\ndefault_path = \"/\"\n" := by
      decide +kernel
    obtain ⟨d', persisted⟩ := exists_persist_config edited
    have verbatim : IsVerbatim "/" := ⟨by decide, by decide⟩
    obtain ⟨config', loaded', prefers⟩ := all _ d' [] "config.toml" _ {} Disk.isTree_single
      Disk.isDirAt_single (by decide) loaded persisted verbatim
    rw [load_of_persist Disk.isTree_single Disk.isDirAt_single loaded persisted] at loaded'
    cases loaded'
    have used :=
      (default?_iff_isVerbatim (i := { defaultPath := some "/" }) rfl (by decide)).mpr verbatim []
    have preferred := prefers []
      { equipment := { host := {}, spec := { module := "server", root := "/" }, requirements := [] }
        fleet := { world := { disk := configDisk "" } } }
    simp only [Session.Controller.initial, used, Option.map_some, Session.Live.surroundings,
      resolve_root, Option.some.injEq] at preferred
    exact absurd preferred (by decide)

end Reload

end Config

end Gatekeeper
