import Gatekeeper.Proofs.Config.Persist
import Gatekeeper.Proofs.Machine.Install
import Gatekeeper.Proofs.Toml.Overwrite

set_option autoImplicit false

/-!
# Recording one interpreter after another

Of two interpreters that are recorded one after another, the second one leaves the file that it
would have left alone, byte for byte (`last_write_wins`): wherever the first one was put, with
whatever blanks and quotation marks, the second one takes its place. There is one kind of file where
a trace of the first remains (`not_last_write_wins`). In a hollow table, `interpreter = { }`, what
stands between the braces goes behind the first interpreter, and the second one does not keep it.
-/

namespace Gatekeeper.Config

open Machine Toml

/-! ## Contents -/

/-- Whether a configuration file has blanks, comments or line ends, but no fields, between the
braces after `interpreter`. -/
def isHollow (content : String) : Bool :=
  (Document.read? content.toList).any fun r => r.1.isHollow "interpreter"

/-- The text of a configuration file, with nothing between the braces after `interpreter` if it is
hollow. -/
def tight (content : String) : String :=
  match Document.read? content.toList with
  | some (doc, _) => String.ofList (doc.tight "interpreter").render
  | none => content

section Contents

variable {content content' first : String} {doc : Document} {fields : List (String × Value)}

/-- A file that is a document with integers of 64 bits is given an interpreter if it has a place for
it. -/
theorem withInterpreter_of_read? (read : Document.read? content.toList = some (doc, fields))
    (editable : integersEditable fields = true) (interpreter : String) :
    withInterpreter content interpreter =
      match doc.putString? "interpreter" "default_path" interpreter with
      | some doc => .ok (String.ofList doc.render)
      | none => .error .notTable := by
  rw [withInterpreter, read]
  exact if_pos editable

/-- A file that is given one interpreter is given any other. -/
theorem exists_withInterpreter (edited : withInterpreter content first = .ok content')
    (second : String) : ∃ content'', withInterpreter content second = .ok content'' := by
  obtain ⟨doc, fields, doc', read, editable, put, -⟩ := withInterpreter_eq_ok edited
  obtain ⟨content'', -, -, -, edited', -⟩ := withInterpreter_setsIn read editable
    (fun v stands => Document.table_of_putString? read put stands) second
  exact ⟨content'', edited'⟩

/-- The text of a document is read as the file was. -/
theorem read?_tight (read : Document.read? content.toList = some (doc, fields)) :
    Document.read? (tight content).toList = some (doc.tight "interpreter", fields) := by
  have text : tight content = String.ofList (doc.tight "interpreter").render := by rw [tight, read]
  rw [text, String.toList_ofList]
  exact Document.read?_tight read "interpreter"

/-- A file that is not hollow is given the same as its text. -/
theorem withInterpreter_tight (solid : isHollow content = false)
    (edited : withInterpreter content first = .ok content') (second : String) :
    withInterpreter (tight content) second = withInterpreter content second := by
  obtain ⟨doc, fields, -, read, editable, -, -⟩ := withInterpreter_eq_ok edited
  rw [isHollow, read] at solid
  have same : doc.tight "interpreter" = doc := Document.tight_of_not solid
  rw [withInterpreter_of_read? (read?_tight read) editable, withInterpreter_of_read? read editable,
    same]

/-- **The second interpreter wins**, and it finds no hollow table. -/
theorem withInterpreter_withInterpreter (edited : withInterpreter content first = .ok content') :
    isHollow content' = false ∧
      ∀ second, withInterpreter content' second = withInterpreter (tight content) second := by
  obtain ⟨doc, fields, doc', read, editable, put, rfl⟩ := withInterpreter_eq_ok edited
  obtain ⟨doc'', fields', inner', same, read', sets⟩ := Document.putString?_setsIn read
    (fun v stands => Document.table_of_putString? read put stands) "default_path" first
  rw [put] at same
  cases same
  obtain ⟨solid, again⟩ := Document.putString?_putString? read put
  have editable' : integersEditable fields' = true := integersWithin_of_setsIn sets editable
  have text : (String.ofList doc'.render).toList = doc'.render := String.toList_ofList
  rw [← text] at read'
  refine ⟨by rw [isHollow, read']; exact solid, fun second => ?_⟩
  rw [withInterpreter_of_read? read' editable', again second,
    withInterpreter_of_read? (read?_tight read) editable]

/-- What stood between the braces of a hollow table is written behind the first interpreter. -/
theorem withInterpreter_tight_ne (hollow : isHollow content = true)
    (edited : withInterpreter content first = .ok content') :
    withInterpreter (tight content) first ≠ .ok content' := by
  obtain ⟨doc, fields, doc', read, editable, put, rfl⟩ := withInterpreter_eq_ok edited
  rw [isHollow, read] at hollow
  intro both
  obtain ⟨docTight, fieldsTight, docTight', readTight, -, putTight, same⟩ :=
    withInterpreter_eq_ok both
  rw [read?_tight read] at readTight
  cases readTight
  -- equal texts are read as equal documents
  have readBack {doc doc' : Document} {fields : List (String × Value)} {s : List Char}
      (read : Document.read? s = some (doc, fields))
      (put : doc.putString? "interpreter" "default_path" first = some doc') :
      ∃ fields', Document.read? doc'.render = some (doc', fields') := by
    obtain ⟨doc'', fields', -, same, read', -⟩ := Document.putString?_setsIn read
      (fun v stands => Document.table_of_putString? read put stands) "default_path" first
    rw [put] at same
    cases same
    exact ⟨fields', read'⟩
  obtain ⟨fields', read'⟩ := readBack read put
  obtain ⟨fieldsTight', readTight'⟩ := readBack (read?_tight read) putTight
  have texts : doc'.render = docTight'.render := by
    rw [← String.toList_ofList (l := doc'.render), same, String.toList_ofList]
  rw [texts, readTight'] at read'
  cases read'
  exact Document.putString?_tight_ne read hollow put putTight

end Contents

/-! ## Files -/

section Persist

variable {d d₁ d₂ : Disk} {cwd : Location} {path first second : String}

/-- **The second of two interpreters leaves the file that it would have left alone**, byte for byte,
if and only if the file was not hollow when it was first looked at, with its directory made. Where
it was hollow, the second interpreter leaves what it would have left had nothing been between the
braces. What the first one leaves is never hollow, so from there on the last one wins. The same
interpreter leaves nothing else when it is recorded again. -/
theorem last_write_wins (tree : d.IsTree) (dir : d.IsDirAt cwd)
    (persisted : persist d cwd path first = (d₁, none))
    (again : persist d₁ cwd path second = (d₂, none)) :
    ∃ d₀ old kept new d₃, prepare d cwd path = .ok d₀ ∧ contents d₀ cwd path = .ok old ∧
      persist d cwd path second = (d₃, none) ∧
      d₂.read cwd path = .ok (Text.Utf8.encode new.toList) ∧
      (d₃.read cwd path = d₂.read cwd path ↔ isHollow old = false) ∧
      (first = second → isHollow old = false → d₁.read cwd path = d₂.read cwd path) ∧
      withInterpreter (tight old) second = .ok new ∧
      d₁.readText cwd path = .ok kept ∧ isHollow kept = false := by
  obtain ⟨d₀, old, kept, made, read, edited, installed⟩ := persist_eq_ok_iff.mp persisted
  obtain ⟨d₁', kept', new, made', read', edited', installed'⟩ := persist_eq_ok_iff.mp again
  obtain ⟨more, keeps⟩ := Disk.makeTree_spec made
  obtain ⟨readFirst, readFirst', readSecond, replace⟩ := Disk.install_install (keeps tree)
    (dir.extends more) installed (Disk.makeTree_spec made').1 installed'
  rw [contents_of_readText (readText_of_read kept readFirst')] at read'
  cases read'
  obtain ⟨solid, wins⟩ := withInterpreter_withInterpreter edited
  obtain ⟨alone, editedAlone⟩ := exists_withInterpreter edited second
  obtain ⟨d₃, installedAlone, readAlone⟩ := replace (Text.Utf8.encode alone.toList)
  have persistedAlone : persist d cwd path second = (d₃, none) :=
    persist_eq_ok_iff.mpr ⟨d₀, old, alone, made, read, editedAlone, installedAlone⟩
  rw [wins second] at edited'
  have same : d₃.read cwd path = d₂.read cwd path ↔ isHollow old = false := by
    rw [readAlone, readSecond]
    constructor
    · intro bytes
      have texts := congrArg Text.Utf8.decode (Except.ok.inj bytes)
      rw [Text.Utf8.decode_encode, Text.Utf8.decode_encode] at texts
      rw [← Bool.not_eq_true]
      intro hollow
      refine withInterpreter_tight_ne hollow editedAlone ?_
      rw [edited', String.toList_inj.mp (Except.ok.inj texts)]
    · intro solid
      rw [withInterpreter_tight solid edited, editedAlone] at edited'
      cases edited'
      rfl
  refine ⟨d₀, old, kept, new, d₃, made, read, persistedAlone, readSecond, same, ?_, edited',
    readText_of_read kept readFirst, solid⟩
  rintro rfl solid
  rw [persisted] at persistedAlone
  cases persistedAlone
  exact same.mpr solid

/-- A configuration file alone on its disk. -/
theorem persist_config {content content' : String}
    (edited : withInterpreter content first = .ok content') :
    persist (configDisk content) [] "config.toml" first = (configDisk content', none) := by
  refine persist_eq_ok_iff.mpr
    ⟨_, content, content', prepare_config _, contents_of_readText (readText_config _), edited, ?_⟩
  refine Disk.install_eq_ok_iff.mpr ⟨by decide, _, _, Disk.find_single isFileName_config false,
    .entry _ nofun, rfl, ?_⟩
  simp [configDisk, Disk.single, Disk.put]

/-- A table below a header, with a comment behind its first interpreter. -/
theorem last_write_wins_commented :
    ∃ d₁ d₂ d₃, persist (configDisk "[interpreter] # mine\ndefault_path = '/old' # pinned\n") []
        "config.toml" "/envs/\"a\"/bin/python" = (d₁, none) ∧
      persist d₁ [] "config.toml" "/envs/b/bin/python" = (d₂, none) ∧
      persist (configDisk "[interpreter] # mine\ndefault_path = '/old' # pinned\n") []
        "config.toml" "/envs/b/bin/python" = (d₃, none) ∧
      d₃.read [] "config.toml" = d₂.read [] "config.toml" := by
  have edited : withInterpreter "[interpreter] # mine\ndefault_path = '/old' # pinned\n"
      "/envs/\"a\"/bin/python" =
      .ok "[interpreter] # mine\ndefault_path = '/envs/\"a\"/bin/python'\n" := by decide +kernel
  have again : withInterpreter "[interpreter] # mine\ndefault_path = '/envs/\"a\"/bin/python'\n"
      "/envs/b/bin/python" =
      .ok "[interpreter] # mine\ndefault_path = \"/envs/b/bin/python\"\n" := by decide +kernel
  obtain ⟨d₀, old, kept, new, d₃, made, read, alone, -, same, -⟩ :=
    last_write_wins Disk.isTree_single Disk.isDirAt_single (persist_config edited)
      (persist_config again)
  refine ⟨_, _, d₃, persist_config edited, persist_config again, alone, same.mpr ?_⟩
  rw [prepare_config] at made
  cases made
  cases (contents_of_readText (readText_config _)).symm.trans read
  decide +kernel

/-- **Not every interpreter is recorded as if it were alone.** The blank between the braces of a
hollow table is behind the first interpreter, and gone with the second. -/
theorem not_last_write_wins :
    ¬∀ (d d₁ d₂ d₃ : Disk) (cwd : Location) (path first second : String), d.IsTree → d.IsDirAt cwd →
      persist d cwd path first = (d₁, none) → persist d₁ cwd path second = (d₂, none) →
      persist d cwd path second = (d₃, none) → d₃.read cwd path = d₂.read cwd path := by
  intro all
  have edited : withInterpreter "interpreter = \x7b \x7d\n" "/new/bin/python" =
      .ok "interpreter = \x7b default_path = \"/new/bin/python\"  \x7d\n" := by decide +kernel
  have again : withInterpreter "interpreter = \x7b default_path = \"/new/bin/python\"  \x7d\n"
      "/new/bin/python" = .ok "interpreter = \x7b default_path = \"/new/bin/python\" \x7d\n" := by
    decide +kernel
  have same := all _ _ _ _ [] "config.toml" _ _ Disk.isTree_single Disk.isDirAt_single
    (persist_config edited) (persist_config again) (persist_config edited)
  have texts := readText_config "interpreter = \x7b default_path = \"/new/bin/python\"  \x7d\n"
  rw [Disk.readText, same, ← Disk.readText, readText_config] at texts
  exact absurd (Except.ok.inj texts) (by decide)

end Persist

end Gatekeeper.Config
