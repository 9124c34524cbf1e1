import Gatekeeper.Config.Store
import Gatekeeper.Proofs.Machine.Directories
import Gatekeeper.Proofs.Text.Utf8
import Gatekeeper.Proofs.Toml.Put

set_option autoImplicit false

/-!
# Recording an interpreter

Recording an interpreter gives one key of the configuration file a string: the new file is read back
and says everything else as before, so it configures the same but for the default interpreter. The
editor takes integers of 64 bits only, and leaves a file with greater ones alone. Both cases are in
`persist_setsIn`, and that the second one occurs is `not_persist_all`.
-/

namespace Gatekeeper.Config

open Machine Toml

/-! ## Integers -/

section Integers

variable {low high : Int} {fields fields' : List (String × Value)} {name : String} {v : Value}

theorem fieldsWithin_iff (fields : List (String × Value)) :
    (Value.table fields).integersWithin low high = true ↔
      ∀ f ∈ fields, f.2.integersWithin low high = true := by
  rw [Value.integersWithin]
  induction fields with
  | nil => simp [Value.integersWithin.fieldsWithin]
  | cons f fields ih => simp [Value.integersWithin.fieldsWithin, ih]

theorem mem_of_lookup (found : fields.lookup name = some v) : (name, v) ∈ fields := by
  obtain ⟨before, after, rfl, -⟩ := List.lookup_eq_some_iff.mp found
  exact List.mem_append_right _ List.mem_cons_self

/-- A field is found under its name if no other one has it. -/
theorem lookup_of_mem (once : (fields.map (·.1)).Nodup) (member : (name, v) ∈ fields) :
    fields.lookup name = some v := by
  obtain ⟨before, after, rfl⟩ := List.append_of_mem member
  refine List.lookup_eq_some_iff.mpr ⟨before, after, rfl, fun f inside => ?_⟩
  rw [List.map_append, List.nodup_append] at once
  have apart := once.2.2 f.1 (List.mem_map_of_mem inside) name List.mem_cons_self
  simpa using Ne.symm apart

/-- Integers stay within bounds when one field is set. -/
theorem integersWithin_of_sets (sets : Sets name v fields fields')
    (once : (fields'.map (·.1)).Nodup) (within : v.integersWithin low high = true)
    (all : (Value.table fields).integersWithin low high = true) :
    (Value.table fields').integersWithin low high = true := by
  rw [fieldsWithin_iff] at all ⊢
  rintro ⟨m, w⟩ member
  have found := lookup_of_mem once member
  by_cases own : m = name
  · rw [own, sets.own] at found
    exact Option.some.inj found ▸ within
  · rw [sets.others m own] at found
    exact all _ (mem_of_lookup found)

/-- The same where the field is in a table. -/
theorem integersWithin_of_setsIn {table key value : String} {inner' : List (String × Value)}
    (sets : SetsIn table key value fields fields' inner')
    (all : (Value.table fields).integersWithin low high = true) :
    (Value.table fields').integersWithin low high = true := by
  have inner : (Value.table (fieldsAt (fields.lookup table))).integersWithin low high = true := by
    unfold fieldsAt
    split
    · next found => exact (fieldsWithin_iff fields).mp all _ (mem_of_lookup found)
    · rfl
  exact integersWithin_of_sets sets.outer sets.onceOuter
    (integersWithin_of_sets sets.inner sets.onceInner rfl inner) all

end Integers

/-! ## What is configured -/

section Decode

variable {fields fields' inner' : List (String × Value)} {path : String} {config : Config}

/-- The settings about the interpreter, decoded from a table or none. -/
theorem interpreter?_sets {i : Interpreter}
    (decoded : interpreter? (.table fields) = some i)
    (sets : Sets "default_path" (.string path) fields inner') :
    interpreter? (.table inner') = some { i with defaultPath := some path } := by
  have follow := sets.others "follow_changes" (by decide)
  have timeout := sets.others "probe_timeout_secs" (by decide)
  simp only [interpreter?, fieldsOf?, List.map_cons, List.map_nil] at decoded ⊢
  rw [sets.own, follow, timeout]
  obtain ⟨p, -, rest⟩ := Option.bind_eq_some_iff.mp decoded
  obtain ⟨f, readFollow, rest⟩ := Option.bind_eq_some_iff.mp rest
  obtain ⟨t, readTimeout, rest⟩ := Option.bind_eq_some_iff.mp rest
  cases rest
  change ((decodeOr true bool? (fields.lookup "follow_changes")).bind fun followChanges =>
    (decodeOr 10 number? (fields.lookup "probe_timeout_secs")).bind fun probeTimeout =>
      some ({ defaultPath := some path, followChanges, probeTimeout } : Interpreter)) = _
  rw [readFollow, Option.bind_some, readTimeout, Option.bind_some]

/-- **What a file configures with another default interpreter.** -/
theorem ofFields?_setsIn (decoded : ofFields? fields = some config)
    (isTable : ∀ v, fields.lookup "interpreter" = some v → ∃ inner, v = .table inner)
    (sets : SetsIn "interpreter" "default_path" path fields fields' inner') :
    ofFields? fields' =
      some { config with interpreter := { config.interpreter with defaultPath := some path } } := by
  obtain ⟨i, readInterpreter, rest⟩ := Option.bind_eq_some_iff.mp decoded
  obtain ⟨s, readServer, rest⟩ := Option.bind_eq_some_iff.mp rest
  obtain ⟨r, readRequirements, rest⟩ := Option.bind_eq_some_iff.mp rest
  cases rest
  have old : interpreter? (.table (fieldsAt (fields.lookup "interpreter"))) = some i := by
    cases found : fields.lookup "interpreter" with
    | none =>
        -- what is missing configures what an empty table does
        rw [found] at readInterpreter
        cases readInterpreter
        rfl
    | some v =>
        obtain ⟨inner, rfl⟩ := isTable v found
        rw [found] at readInterpreter
        exact readInterpreter
  have new : decodeOr {} interpreter? (fields'.lookup "interpreter") =
      some { i with defaultPath := some path } := by
    rw [sets.outer.own]
    exact interpreter?_sets old sets.inner
  have server := sets.outer.others "server" (by decide)
  have requirements := sets.outer.others "requirements" (by decide)
  change ((decodeOr ({} : Interpreter) interpreter? (fields'.lookup "interpreter")).bind
    fun interpreter =>
    (decodeOr ({} : Server) server? (fields'.lookup "server")).bind fun server =>
      (decodeOr Requirement.defaults (list? requirement?) (fields'.lookup "requirements")).bind
        fun requirements => some ({ interpreter, server, requirements } : Config)) = _
  rw [new, Option.bind_some, server, readServer, Option.bind_some, requirements, readRequirements,
    Option.bind_some]

theorem ofText?_eq {content : String} {doc : Document}
    (parses : Document.read? content.toList = some (doc, fields)) :
    ofText? content = if integersFit fields then ofFields? fields else none := by
  rw [ofText?, parses]
  rfl

/-- A file that is edited configures the same but for the default interpreter. -/
theorem ofText?_setsIn {content content' : String} {doc doc' : Document}
    (parses : Document.read? content.toList = some (doc, fields))
    (parses' : Document.read? content'.toList = some (doc', fields'))
    (isTable : ∀ v, fields.lookup "interpreter" = some v → ∃ inner, v = .table inner)
    (sets : SetsIn "interpreter" "default_path" path fields fields' inner')
    (decoded : ofText? content = some config) :
    ofText? content' =
      some { config with interpreter := { config.interpreter with defaultPath := some path } } := by
  rw [ofText?_eq parses] at decoded
  rw [ofText?_eq parses']
  by_cases fit : integersFit fields = true
  · rw [if_pos fit] at decoded
    have fit' : integersFit fields' = true := integersWithin_of_setsIn sets fit
    rw [if_pos fit']
    exact ofFields?_setsIn decoded isTable sets
  · rw [if_neg fit] at decoded
    cases decoded

end Decode

/-! ## The new file -/

section Persist

variable {d : Disk} {cwd : Location} {path content interpreter : String} {doc : Document}
  {fields : List (String × Value)}

/-- **The new contents** say what the old ones do but for the interpreter. -/
theorem withInterpreter_setsIn (parses : Document.read? content.toList = some (doc, fields))
    (editable : integersEditable fields = true)
    (isTable : ∀ v, fields.lookup "interpreter" = some v → ∃ inner, v = .table inner)
    (interpreter : String) :
    ∃ content' doc' fields' inner', withInterpreter content interpreter = .ok content' ∧
      Document.read? content'.toList = some (doc', fields') ∧
      SetsIn "interpreter" "default_path" interpreter fields fields' inner' := by
  obtain ⟨doc', fields', inner', put, parses', sets⟩ :=
    Document.putString?_setsIn parses isTable "default_path" interpreter
  refine ⟨String.ofList doc'.render, doc', fields', inner', ?_, ?_, sets⟩
  · rw [withInterpreter, parses]
    simp only [editable, if_true, put]
  · rw [String.toList_ofList]
    exact parses'

/-- A file that is given an interpreter is a TOML document with integers of 64 bits, and has a place
for it. -/
theorem withInterpreter_eq_ok {content' : String}
    (edited : withInterpreter content interpreter = .ok content') :
    ∃ doc fields doc', Document.read? content.toList = some (doc, fields) ∧
      integersEditable fields = true ∧
      doc.putString? "interpreter" "default_path" interpreter = some doc' ∧
      content' = String.ofList doc'.render := by
  rw [withInterpreter] at edited
  split at edited
  · cases edited
  · next doc fields read =>
    split at edited
    · next editable =>
      split at edited
      · next doc' put =>
        cases edited
        exact ⟨doc, fields, doc', read, editable, put, rfl⟩
      · cases edited
    · cases edited

theorem withInterpreter_of_not_editable
    (parses : Document.read? content.toList = some (doc, fields))
    (greater : integersEditable fields = false) (interpreter : String) :
    withInterpreter content interpreter = .error .notToml := by
  rw [withInterpreter, parses]
  simp only [greater, Bool.false_eq_true, if_false]

/-- Text that is read is what the bytes of the file encode. -/
theorem readText_of_read (s : String) (read : d.read cwd path = .ok (Text.Utf8.encode s.toList)) :
    d.readText cwd path = .ok s := by
  rw [Disk.readText, read, Except.bind, Text.Utf8.decode_encode]
  simp

theorem read_of_readText (read : d.readText cwd path = .ok content) :
    ∃ bytes, d.read cwd path = .ok bytes := by
  rw [Disk.readText] at read
  cases stored : d.read cwd path with
  | error e =>
      rw [stored] at read
      cases read
  | ok bytes => exact ⟨bytes, rfl⟩

theorem occupied_of_readText (read : d.readText cwd path = .ok content) :
    d.occupied cwd path = true := by
  obtain ⟨bytes, read⟩ := read_of_readText read
  obtain ⟨x, f, found, -, -⟩ := Disk.read_eq_ok read
  exact Disk.occupied_iff_find.mpr ⟨x, _, found⟩

/-- A file that is there is loaded as its contents say. -/
theorem load_of_readText (read : d.readText cwd path = .ok content) :
    load d cwd path = match ofText? content with
      | some config => .ok (some config)
      | none => .error (.parse path) := by
  rw [load, if_pos (occupied_of_readText read)]
  generalize d.readText cwd path = r at read ⊢
  cases read
  rfl

theorem contents_of_readText (read : d.readText cwd path = .ok content) :
    contents d cwd path = .ok content := by
  rw [contents, if_pos (occupied_of_readText read), read]

/-- Making the directory of a file leaves the file. -/
theorem contents_prepare {d₀ : Disk} (tree : d.IsTree) (dir : d.IsDirAt cwd)
    (read : d.readText cwd path = .ok content) (made : prepare d cwd path = .ok d₀) :
    contents d₀ cwd path = .ok content := by
  obtain ⟨bytes, stored⟩ := read_of_readText read
  have stored' := Disk.read_extends tree dir (Disk.makeTree_spec made).1 stored
  refine contents_of_readText ?_
  rw [Disk.readText, stored']
  rw [Disk.readText, stored] at read
  exact read

/-- A file that is there and cannot be given an interpreter is left alone, and so is the disk. -/
theorem persist_of_withInterpreter_eq_error {fault : WriteFault} (tree : d.IsTree)
    (dir : d.IsDirAt cwd) (read : d.readText cwd path = .ok content)
    (refused : withInterpreter content interpreter = .error fault) :
    persist d cwd path interpreter = (d, some (.write path fault)) := by
  obtain ⟨bytes, stored⟩ := read_of_readText read
  obtain ⟨x, f, found, -, -⟩ := Disk.read_eq_ok stored
  have made : prepare d cwd path = .ok d :=
    Disk.makeTree_eq_ok_iff.mpr (Disk.growTree_of_find tree dir found)
  simp only [persist, made, contents_of_readText read, refused]

/-- **What recording an interpreter does.** -/
theorem persist_eq_ok_iff {d' : Disk} : persist d cwd path interpreter = (d', none) ↔
    ∃ d₀ old new, prepare d cwd path = .ok d₀ ∧ contents d₀ cwd path = .ok old ∧
      withInterpreter old interpreter = .ok new ∧
      d₀.install cwd path (Text.Utf8.encode new.toList) = .ok d' := by
  constructor
  · intro persisted
    rw [persist] at persisted
    split at persisted
    · cases persisted
    · next d₀ made =>
      split at persisted
      · cases persisted
      · next old read =>
        split at persisted
        · cases persisted
        · next new edited =>
          split at persisted
          · cases persisted
          · next installed =>
            cases persisted
            exact ⟨d₀, old, new, made, read, edited, installed⟩
  · rintro ⟨d₀, old, new, made, read, edited, installed⟩
    simp only [persist, made, read, edited, installed]

/-- What is recorded is read back. -/
theorem readText_of_persist {d' : Disk} (tree : d.IsTree) (dir : d.IsDirAt cwd)
    (read : d.readText cwd path = .ok content)
    (persisted : persist d cwd path interpreter = (d', none)) :
    ∃ content', withInterpreter content interpreter = .ok content' ∧
      d'.readText cwd path = .ok content' := by
  obtain ⟨d₀, old, content', made, read', edited, installed⟩ := persist_eq_ok_iff.mp persisted
  rw [contents_prepare tree dir read made] at read'
  cases read'
  obtain ⟨more, tree'⟩ := Disk.makeTree_spec made
  obtain ⟨bytes, stored⟩ := read_of_readText read
  have stored' := Disk.read_extends tree dir more stored
  refine ⟨content', edited, readText_of_read content' ?_⟩
  exact Disk.read_install (tree' tree) (dir.extends more) stored' installed

/-- Whether the file at a path can be replaced: its directory is there or can be made, and may be
changed. -/
structure IsWritable (d : Disk) (cwd : Location) (path : String) : Prop where
  directory : ∃ d₀, prepare d cwd path = .ok d₀
  replaceable : d.Replaceable cwd path

/-- A file that can be replaced is. -/
theorem exists_persist {content' : String} (tree : d.IsTree) (dir : d.IsDirAt cwd)
    (writable : IsWritable d cwd path) (read : d.readText cwd path = .ok content)
    (edited : withInterpreter content interpreter = .ok content') :
    ∃ d', persist d cwd path interpreter = (d', none) := by
  obtain ⟨d₀, made⟩ := writable.directory
  obtain ⟨bytes, stored⟩ := read_of_readText read
  obtain ⟨d', installed⟩ := Disk.exists_install tree dir writable.replaceable stored
    (Disk.makeTree_spec made).1 (Text.Utf8.encode content'.toList)
  exact ⟨d', persist_eq_ok_iff.mpr
    ⟨d₀, content, content', made, contents_prepare tree dir read made, edited, installed⟩⟩

/-! ### A configuration file alone on its disk -/

/-- The disk with a configuration file in the root directory. -/
def configDisk (content : String) : Disk :=
  .single "config.toml" (Text.Utf8.encode content.toList)

theorem isFileName_config : Disk.IsFileName "config.toml" :=
  ⟨⟨by decide, by decide, by decide⟩, ⟨by decide, by decide, by decide⟩, by decide, by decide⟩

/-- The file is in no directory that would have to be made. -/
theorem prepare_config (d : Disk) : prepare d [] "config.toml" = .ok d := by
  have noParents : (Path.ancestors "config.toml").tail = [] := by decide
  rw [prepare, noParents]
  rfl

theorem isWritable_config (content : String) : IsWritable (configDisk content) [] "config.toml" :=
  ⟨⟨_, prepare_config _⟩, Disk.replaceable_single isFileName_config (by decide)⟩

theorem readText_config (content : String) :
    (configDisk content).readText [] "config.toml" = .ok content :=
  Disk.readText_single isFileName_config content

theorem load_config {config : Config} (decoded : ofText? content = some config) :
    load (configDisk content) [] "config.toml" = .ok (some config) := by
  rw [load_of_readText (readText_config content), decoded]

instance (o : Option Value) : Decidable (∀ v, o = some v → ∃ inner, v = .table inner) :=
  match o with
  | none => isTrue nofun
  | some (.table inner) => isTrue fun _ same => ⟨inner, (Option.some.inj same).symm⟩
  | some (.string _) | some (.integer _) | some (.float _) | some (.boolean _) | some (.date _)
  | some (.array _) => isFalse fun all => nomatch all _ rfl

/-! ### The file afterwards -/

/-- **Recording an interpreter edits one key.** On a writable file that is a TOML document, in which
a table or nothing stands under `interpreter`, it succeeds if all integers have 64 bits, whatever
characters the interpreter has; the new file says what the old one says but for the default path,
and what it configures is the same but for that. With a greater integer the editor takes the file
for no TOML document, which is reported as a write error about invalid data, and the disk stays as
it is. -/
theorem persist_setsIn (tree : d.IsTree) (dir : d.IsDirAt cwd) (writable : IsWritable d cwd path)
    (read : d.readText cwd path = .ok content)
    (parses : Document.read? content.toList = some (doc, fields))
    (isTable : ∀ v, fields.lookup "interpreter" = some v → ∃ inner, v = .table inner)
    (interpreter : String) :
    (integersEditable fields = true → ∃ d' content' doc' fields' inner',
      persist d cwd path interpreter = (d', none) ∧
      d'.readText cwd path = .ok content' ∧
      Document.read? content'.toList = some (doc', fields') ∧
      SetsIn "interpreter" "default_path" interpreter fields fields' inner' ∧
      ∀ config, load d cwd path = .ok (some config) →
        load d' cwd path = .ok (some { config with
          interpreter := { config.interpreter with defaultPath := some interpreter } })) ∧
    (integersEditable fields = false →
      persist d cwd path interpreter = (d, some (.write path .notToml))) := by
  refine ⟨fun editable => ?_, fun greater => ?_⟩
  · obtain ⟨content', doc', fields', inner', edited, parses', sets⟩ :=
      withInterpreter_setsIn parses editable isTable interpreter
    obtain ⟨d', persisted⟩ := exists_persist tree dir writable read edited
    obtain ⟨content'', edited', read'⟩ := readText_of_persist tree dir read persisted
    rw [edited] at edited'
    cases edited'
    refine ⟨d', content', doc', fields', inner', persisted, read', parses', sets,
      fun config loaded => ?_⟩
    rw [load_of_readText read] at loaded
    rw [load_of_readText read']
    cases decoded : ofText? content with
    | none =>
        rw [decoded] at loaded
        cases loaded
    | some c =>
        rw [decoded] at loaded
        cases loaded
        rw [ofText?_setsIn parses parses' isTable sets decoded]
  · have refused := withInterpreter_of_not_editable parses greater interpreter
    exact persist_of_withInterpreter_eq_error tree dir read refused

/-- A file with a comment and another setting, and a path with a quotation mark. -/
theorem persist_setsIn_quoted :
    ∃ d' config, persist (configDisk "[interpreter] # mine\nfollow_changes = false\n") []
        "config.toml" "/envs/\"nlp\"/bin/python" = (d', none) ∧
      load d' [] "config.toml" = .ok (some config) ∧
      config.interpreter =
        { defaultPath := some "/envs/\"nlp\"/bin/python", followChanges := false } := by
  obtain ⟨⟨doc, fields⟩, parses⟩ := Option.isSome_iff_exists.mp (show (Document.read?
    "[interpreter] # mine\nfollow_changes = false\n".toList).isSome = true by decide +kernel)
  have checked : ((Document.read? "[interpreter] # mine\nfollow_changes = false\n".toList).all
      fun r => integersEditable r.2 && decide
        (∀ v, r.2.lookup "interpreter" = some v → ∃ inner, v = .table inner)) = true := by
    decide +kernel
  rw [parses, Option.all_some, Bool.and_eq_true, decide_eq_true_eq] at checked
  obtain ⟨config, decoded⟩ := Option.isSome_iff_exists.mp (show (ofText?
    "[interpreter] # mine\nfollow_changes = false\n").isSome = true by decide +kernel)
  have settings : (ofText? "[interpreter] # mine\nfollow_changes = false\n").map (·.interpreter) =
      some { followChanges := false } := by decide +kernel
  rw [decoded] at settings
  have interpreter : config.interpreter = { followChanges := false } := Option.some.inj settings
  obtain ⟨d', content', doc', fields', inner', persisted, -, -, -, loads⟩ :=
    (persist_setsIn Disk.isTree_single Disk.isDirAt_single (isWritable_config _) (readText_config _)
      parses checked.2 "/envs/\"nlp\"/bin/python").1 checked.1
  refine ⟨d', _, persisted, loads config (load_config decoded), ?_⟩
  simp only [interpreter]

/-- **Not every file is edited.** A file that is loaded may have an integer of more than 64 bits,
which the editor does not take. -/
theorem not_persist_all :
    ¬∀ (d : Disk) (cwd : Location) (path content interpreter : String) (doc : Document)
      (fields : List (String × Value)) (config : Config),
      d.IsTree → d.IsDirAt cwd → IsWritable d cwd path → d.readText cwd path = .ok content →
      Document.read? content.toList = some (doc, fields) →
      (∀ v, fields.lookup "interpreter" = some v → ∃ inner, v = .table inner) →
      load d cwd path = .ok (some config) →
      ∃ d', persist d cwd path interpreter = (d', none) := by
  intro all
  obtain ⟨⟨doc, fields⟩, parses⟩ := Option.isSome_iff_exists.mp (show (Document.read?
    "[interpreter]\nprobe_timeout_secs = 9223372036854775808\n".toList).isSome = true
      by decide +kernel)
  have checked : ((Document.read?
      "[interpreter]\nprobe_timeout_secs = 9223372036854775808\n".toList).all fun r => decide
        (∀ v, r.2.lookup "interpreter" = some v → ∃ inner, v = .table inner)) = true := by
    decide +kernel
  rw [parses, Option.all_some, decide_eq_true_eq] at checked
  obtain ⟨config, decoded⟩ := Option.isSome_iff_exists.mp (show (ofText?
    "[interpreter]\nprobe_timeout_secs = 9223372036854775808\n").isSome = true by decide +kernel)
  obtain ⟨d', persisted⟩ := all _ [] "config.toml" _ "/envs/nlp/bin/python" doc fields config
    Disk.isTree_single Disk.isDirAt_single (isWritable_config _) (readText_config _) parses checked
    (load_config decoded)
  obtain ⟨content', edited, -⟩ := readText_of_persist Disk.isTree_single Disk.isDirAt_single
    (readText_config _) persisted
  have refused : withInterpreter "[interpreter]\nprobe_timeout_secs = 9223372036854775808\n"
      "/envs/nlp/bin/python" = .error .notToml := by decide +kernel
  rw [refused] at edited
  cases edited

end Persist

end Gatekeeper.Config
