import Gatekeeper.Proofs.Toml.Edit

set_option autoImplicit false

/-!
# A string at a key of a document

`Document.putString?` gives a key of a table at the top level a string, in whichever way the table
is written: the document that it makes is read back from its text, says the string at that key, and
says everything else as before (`Document.putString?_setsIn`).
-/

namespace Gatekeeper.Toml

/-! ## Inline tables -/

/-- A field by what it does. -/
def Field.line (f : Field) : Line := ⟨[], .puts f.key.names (some f.value)⟩

theorem Inline.children?_eq (t : Inline) :
    t.children? = runAll Line.step [] (t.fields.map Field.line) := by
  rw [runAll, List.foldlM_map]
  rfl

theorem Field.Good.names {f : Field} (good : f.Good) : f.key.names ≠ [] := by
  obtain ⟨first, -, key⟩ := good.key
  obtain ⟨rest, befores, -⟩ := key.spaced
  intro nothing
  rw [List.map_eq_nil_iff.mp nothing] at befores
  cases befores

namespace Assignment

variable {a : Assignment} {t : Inline} {f : Field} {key : Key} {first : List Char}

/-- A field with the value is good. -/
theorem good_fieldOf (filler : Filler first) (good : key.Good first) {after : List Char}
    (rest : Filler after) (isLast : Bool) : Field.Good { a.fieldOf key isLast with after } := by
  have quoted := Field.good_string filler good a.value.toList rest
  rw [String.ofList_toList] at quoted
  exact quoted

theorem isFieldUnder_eq (good : f.Good) : a.isFieldUnder f = (f.line.name == a.key) := by
  have names := good.names
  rw [isFieldUnder, Line.name, Field.line]
  generalize f.key.names = path at names
  cases path with
  | nil => exact absurd rfl names
  | cons n rest => rfl

/-- **The fields of an inline table**: one gets the value, and the others stay. -/
structure PutsField (a : Assignment) (fs fs' : List Field) : Prop where
  good : ∀ f ∈ fs', f.Good
  put : ∃ f : Field, f.line = ⟨[], .puts [a.key] (some (.string a.value))⟩ ∧
    fs'.filter a.isFieldUnder = [f]
  kept : (fs'.filter fun f => !a.isFieldUnder f) = fs.filter fun f => !a.isFieldUnder f

theorem PutsField.assigns {fs fs' : List Field} (good : ∀ f ∈ fs, f.Good)
    (puts : a.PutsField fs fs') :
    Line.Assigns a.key (.string a.value) (fs.map Field.line) (fs'.map Field.line) where
  own := by
    obtain ⟨f, line, only⟩ := puts.put
    rw [Line.named, List.filter_map]
    have same : fs'.filter ((fun l => l.name == a.key) ∘ Field.line) = fs'.filter a.isFieldUnder :=
      List.filter_congr fun f member => (isFieldUnder_eq (puts.good f member)).symm
    rw [same, only, ← line]
    rfl
  others m other := by
    have kept (fs : List Field) (good : ∀ f ∈ fs, f.Good) : Line.named m (fs.map Field.line) =
        Line.named m ((fs.filter fun f => !a.isFieldUnder f).map Field.line) := by
      rw [Line.named, Line.named, List.filter_map, List.filter_map, List.filter_filter]
      refine congrArg _ (List.filter_congr fun f member => ?_)
      by_cases own : f.line.name = m
      · simp [isFieldUnder_eq (good f member), own, other]
      · simp [own]
    rw [kept fs' puts.good, puts.kept, ← kept fs good]

/-- A field with the value in the place of another one is good. -/
theorem good_field (filler : Filler first) (good : key.Good first) (names : key.names = [a.key])
    (isLast : Bool) : (a.fieldOf key isLast).Good ∧
      (a.fieldOf key isLast).line = ⟨[], .puts [a.key] (some (.string a.value))⟩ := by
  constructor
  · cases isLast with
    | true => exact good_fieldOf filler good blank_space.filler true
    | false => exact good_fieldOf filler good filler_nil false
  · rw [← names]
    rfl

theorem isFieldUnder_of_line (good : f.Good)
    (line : f.line = ⟨[], .puts [a.key] (some (.string a.value))⟩) : a.isFieldUnder f = true := by
  rw [isFieldUnder_eq good, line]
  exact beq_iff_eq.mpr rfl

/-- A field is added to an inline table that has none about the key. -/
theorem putsField_append {fs : List Field} (good : ∀ f ∈ fs, f.Good) (new : f.Good)
    (line : f.line = ⟨[], .puts [a.key] (some (.string a.value))⟩)
    (no : ∀ f ∈ fs, a.isFieldUnder f = false) : a.PutsField fs (fs ++ [f]) := by
  have under := isFieldUnder_of_line new line
  refine ⟨fun f' member => ?_, ⟨f, line, ?_⟩, ?_⟩
  · rcases List.mem_append.mp member with inside | last
    · exact good f' inside
    · exact List.mem_singleton.mp last ▸ new
  · have nothing : fs.filter a.isFieldUnder = [] :=
      List.filter_eq_nil_iff.mpr fun f' inside => by simp [no f' inside]
    rw [List.filter_append, nothing, List.filter_cons_of_pos under]
    rfl
  · rw [List.filter_append, List.filter_cons_of_neg (by simp [under]), List.filter_nil,
      List.append_nil]

/-- A new field is good, whatever comes after it. -/
theorem good_newField (a : Assignment) {after : List Char} (filler : Filler after) :
    Field.Good { a.newField with after } ∧
      Field.line { a.newField with after } = ⟨[], .puts [a.key] (some (.string a.value))⟩ := by
  have part : KeyPart.Good { KeyPart.ofName a.key with before := [' '], after := [' '] } :=
    KeyPart.good_ofName a.key blank_space
  exact ⟨good_fieldOf blank_space.filler (Key.good_singleton part) filler true, rfl⟩

/-- The key of a field that takes the place of another one. -/
theorem good_fieldKey (good : f.Good) (under : a.isFieldUnder f = true) :
    ∃ first, Filler first ∧ (fieldKey f).Good first ∧ (fieldKey f).names = [a.key] := by
  obtain ⟨first, filler, key⟩ := good.key
  rw [isFieldUnder] at under
  rw [fieldKey]
  match f.key, key, under with
  | [p], key, under =>
      have name : p.name = a.key := Option.some.inj (beq_iff_eq.mp under)
      exact ⟨first, filler, key, congrArg (· :: []) name⟩
  | p :: q :: rest, key, under =>
      have name : p.name = a.key := Option.some.inj (beq_iff_eq.mp under)
      have part := key.parts p List.mem_cons_self
      have single : Key.Good [' '] [{ p with before := [' '], after := [' '] }] :=
        Key.good_singleton (part.withBlanks blank_space)
      exact ⟨[' '], blank_space.filler, single, congrArg (· :: []) name⟩

/-- **An inline table with the value** is good, and its other fields stay. -/
theorem putInline_spec (good : t.Good) :
    (a.putInline t).Good ∧ a.PutsField t.fields (a.putInline t).fields := by
  unfold putInline
  split
  · next nothing =>
    have no : ∀ f ∈ t.fields, a.isFieldUnder f = false := fun f member => by
      simpa using List.dropWhile_eq_nil_iff.mp nothing f member
    split
    · next comma =>
      obtain ⟨new, line⟩ := good_newField a blank_space.filler
      have appended : a.PutsField t.fields (t.fields ++ [a.newField]) :=
        putsField_append good.fields new line no
      refine ⟨⟨appended.good, good.last, fun _ => ?_, fun noComma => ?_⟩, appended⟩
      · exact List.append_ne_nil_of_right_ne_nil _ (List.cons_ne_nil _ _)
      · exact absurd comma (by rw [show t.comma = false from noComma]; decide)
    · next noComma =>
      obtain ⟨new, line⟩ := good_newField a (blank_space.filler.append good.last)
      have appended := putsField_append good.fields new line no
      exact ⟨⟨appended.good, filler_nil, fun comma => absurd comma noComma,
        fun _ _ => rfl⟩, appended⟩
  · next f rest split =>
    obtain ⟨member, under⟩ := mem_of_dropWhile split
    obtain ⟨first, filler, goodKey, names⟩ := good_fieldKey (good.fields f member) under
    obtain ⟨new, line⟩ := good_field filler goodKey names
      (rest.filter fun f => !a.isFieldUnder f).isEmpty
    obtain ⟨only, kept⟩ := filter_replaced (isFieldUnder_of_line new line) split
    have some_ : t.fields ≠ [] := List.ne_nil_of_mem member
    have each : ∀ f' ∈ (t.fields.takeWhile fun f => !a.isFieldUnder f) ++
        a.fieldOf (fieldKey f) (rest.filter fun f => !a.isFieldUnder f).isEmpty ::
          rest.filter fun f => !a.isFieldUnder f, f'.Good := by
      intro f' inside
      rcases List.mem_append.mp inside with before | inside
      · exact good.fields f' ((List.takeWhile_sublist _).subset before)
      rcases List.mem_cons.mp inside with rfl | after
      · exact new
      · have later : f' ∈ f :: rest := List.mem_cons_of_mem _ (List.mem_filter.mp after).1
        exact good.fields f' ((List.dropWhile_sublist _).subset (split ▸ later))
    refine ⟨⟨each, good.last, fun _ => ?_, fun noComma _ => good.bare noComma some_⟩,
      ⟨each, ⟨_, line, only⟩, kept⟩⟩
    exact List.append_ne_nil_of_right_ne_nil _ (List.cons_ne_nil _ _)

end Assignment

/-! ## What documents say -/

/-- The fields of a table, none if there is no table. -/
def fieldsAt : Option Value → List (String × Value)
  | some (.table fields) => fields
  | _ => []

/-- Whether fields are others with a string at a key of a table. -/
structure SetsIn (table key value : String) (fields fields' inner' : List (String × Value)) :
    Prop where
  outer : Sets table (.table inner') fields fields'
  inner : Sets key (.string value) (fieldsAt (fields.lookup table)) inner'
  onceOuter : (fields'.map (·.1)).Nodup
  onceInner : (inner'.map (·.1)).Nodup

theorem Sets.fields {name : String} {n : Node} {cs cs' : Children} (sets : Sets name n cs cs') :
    Sets name n.value (Node.fields cs) (Node.fields cs') where
  own := by
    rw [lookup_fields, sets.own]
    rfl
  others m other := by rw [lookup_fields, lookup_fields, sets.others m other]

/-- What an inline table with the value says. -/
theorem Assignment.putInline_value? {a : Assignment} {t : Inline} (good : t.Good)
    {fields : List (String × Value)} (meaning : t.value? = some (.table fields)) :
    ∃ fields', (a.putInline t).value? = some (.table fields') ∧ (fields'.map (·.1)).Nodup ∧
      Sets a.key (.string a.value) fields fields' := by
  obtain ⟨kids, read, made⟩ := Option.map_eq_some_iff.mp meaning
  cases made
  rw [Inline.children?_eq] at read
  obtain ⟨-, puts⟩ := putInline_spec (a := a) good
  obtain ⟨kids', read', once, sets⟩ := (puts.assigns good.fields).run read
  refine ⟨Node.fields kids', ?_, ?_, sets.fields⟩
  · rw [Inline.value?, Inline.children?_eq, read']
    rfl
  · rw [keys_fields]
    exact once

namespace Layout

variable {a : Assignment} {l l' : Layout} {cs : Children}

/-- **Where the lines about a table leave it one**, an edited layout says what it should. -/
theorem setsIn_edited (sound : l.Sound) (plain : l.IsPlain a.table)
    (read : runAll Line.step [] l.lines = some cs) (edited : a.Edited l l') :
    ∃ cs' inner', runAll Line.step [] l'.lines = some cs' ∧
      SetsIn a.table a.key a.value (Node.fields cs) (Node.fields cs') inner' := by
  obtain ⟨cs', o, kids, o', kids', read', old, empty, once, sets, onceInner, setsInner⟩ :=
    Line.run_within read (sound.isTabular plain) (edited.sound.isTabular edited.plain) edited.touch
      (fun m other => edited.edits.others other) edited.edits.assigns
  refine ⟨cs', Node.fields kids', read', sets.fields, ?_, ?_, ?_⟩
  · have inner : fieldsAt ((Node.fields cs).lookup a.table) = Node.fields kids := by
      rw [lookup_fields, old]
      cases o with
      | none =>
          rw [empty rfl]
          rfl
      | some o => rfl
    rw [inner]
    exact setsInner.fields
  · rw [keys_fields]
    exact once
  · rw [keys_fields]
    exact onceInner

/-- A line with an inline table gets another one. -/
theorem putInStatement?_spec {s : Statement} (entry : s.IsEntry)
    (names : s.body.key.names = [a.table]) {fields : List (String × Value)}
    (line : s.line [] = ⟨[], .puts [a.table] (some (.table fields))⟩) :
    ∃ s' fields', a.putInStatement? s = some s' ∧ s'.IsEntry ∧
      s'.line [] = ⟨[], .puts [a.table] (some (.table fields'))⟩ ∧ (fields'.map (·.1)).Nodup ∧
      Sets a.key (.string a.value) fields fields' := by
  have goodKey := entry.goodKey
  have filler := entry.good.lead
  have goodValue := entry.good.value
  have header := entry.entry
  obtain ⟨lead, body, tail⟩ := s
  cases body with
  | header array key => cases header
  | entry key before value =>
      have ownNames : key.names = [a.table] := names
      have meaning : value.value? = some (.table fields) := (Deed.puts.inj (Line.mk.inj line).2).2
      have good := goodValue key before value rfl
      cases value with
      | plain text v =>
          -- what is written otherwise is no table
          exact absurd (Option.some.inj meaning) (good fields)
      | inline t =>
          obtain ⟨fields', meaning', once, sets⟩ :=
            Assignment.putInline_value? (a := a) good.2.1 meaning
          have good' : (Written.inline (a.putInline t)).Good before tail :=
            ⟨good.1, (Assignment.putInline_spec good.2.1).1, good.2.2⟩
          refine ⟨⟨lead, .entry key before (.inline (a.putInline t)), tail⟩, fields', ?_,
            ⟨Statement.good_inline filler goodKey good', rfl⟩, ?_, once, sets⟩
          · exact if_pos (beq_iff_eq.mpr names)
          · change Line.mk [] (.puts key.names (a.putInline t).value?) = _
            rw [ownNames, meaning']

/-- Lines of other names stay. -/
theorem mapM_others {ss : List Statement} (entries : ∀ s ∈ ss, s.IsEntry)
    (none_ : Line.named a.table (ss.map (Statement.line [])) = []) :
    ss.mapM a.putInStatement? = some ss := by
  have stay : ∀ s ∈ ss, a.putInStatement? s = some s := by
    intro s member
    refine if_neg fun names => ?_
    refine List.filter_eq_nil_iff.mp none_ (s.line []) (List.mem_map_of_mem member) ?_
    rw [beq_iff_eq, Line.name, (entries s member).path_line, beq_iff_eq.mp names]
    rfl
  clear entries none_
  induction ss with
  | nil => rfl
  | cons s ss ih =>
      rw [List.mapM_cons, stay s List.mem_cons_self,
        ih fun s' member => stay s' (List.mem_cons_of_mem _ member)]
      rfl

/-- **Where the table is inline**, it alone changes. -/
theorem put?_inline (sound : l.Sound) (read : runAll Line.step [] l.lines = some cs)
    (table : ∀ v, (Node.fields cs).lookup a.table = some v → ∃ inner, v = .table inner)
    {s : Statement} (member : s ∈ l.top) (names : s.body.key.names = [a.table]) :
    ∃ l' cs' inner', a.put? l = some l' ∧ l'.Sound ∧ runAll Line.step [] l'.lines = some cs' ∧
      SetsIn a.table a.key a.value (Node.fields cs) (Node.fields cs') inner' := by
  have entry := sound.top s member
  obtain ⟨value, line⟩ := entry.line_eq []
  rw [names] at line
  have name : (s.line []).name = a.table := by
    rw [line]
    rfl
  have inLines : s.line [] ∈ Line.named a.table l.lines :=
    List.mem_filter.mpr ⟨List.mem_append_left _ (List.mem_map_of_mem member), beq_iff_eq.mpr name⟩
  have stands : runOn Line.act none (Line.named a.table l.lines) = some (cs.lookup a.table) :=
    Line.lookup_run read a.table
  obtain ⟨only, n, v, own, leaf⟩ := Line.leaf_alone stands inLines
    (by rw [line]; exact ⟨rfl, _, _, rfl⟩)
  obtain ⟨inner, rfl⟩ := table v (by rw [lookup_fields, leaf]; rfl)
  rw [line] at own
  obtain ⟨-, same⟩ := Line.mk.inj own
  rw [(Deed.puts.inj same).2] at line
  obtain ⟨s', inner', put, entry', line', once, sets⟩ := putInStatement?_spec entry names line
  have name' : (s'.line []).name = a.table := by
    rw [line']
    rfl
  obtain ⟨before, after, split⟩ := List.append_of_mem member
  have lines (x : Statement) : Layout.lines ⟨before ++ x :: after, l.blocks⟩ =
      before.map (Statement.line []) ++ x.line [] ::
        (after.map (Statement.line []) ++ l.blocks.flatMap Block.lines) := by
    simp [Layout.lines]
  have old : l.lines = Layout.lines ⟨before ++ s :: after, l.blocks⟩ := by rw [← split]
  rw [old, lines] at only read
  obtain ⟨noneBefore, noneAfter⟩ := Line.named_around only name
  rw [Line.named_append, List.append_eq_nil_iff] at noneAfter
  have putTop : l.top.mapM a.putInStatement? = some (before ++ s' :: after) := by
    have entries (x : Statement) (member : x ∈ before ∨ x ∈ after) : x.IsEntry := by
      refine sound.top x (split ▸ ?_)
      exact member.elim (List.mem_append_left _) fun inside =>
        List.mem_append_right _ (List.mem_cons_of_mem _ inside)
    rw [split, List.mapM_append, mapM_others (fun x member => entries x (.inl member)) noneBefore,
      List.mapM_cons, put, mapM_others (fun x member => entries x (.inr member)) noneAfter.1]
    rfl
  have put_ : a.put? l = some ⟨before ++ s' :: after, l.blocks⟩ := by
    have found : (l.top.any fun s => s.body.key.names == [a.table]) = true :=
      List.any_eq_true.mpr ⟨s, member, beq_iff_eq.mpr names⟩
    rw [Assignment.put?, if_pos found, putTop]
    rfl
  have sound' : Layout.Sound ⟨before ++ s' :: after, l.blocks⟩ := by
    refine ⟨fun x inside => ?_, sound.blocks⟩
    rcases List.mem_append.mp inside with inside | inside
    · exact sound.top x (split ▸ List.mem_append_left _ inside)
    rcases List.mem_cons.mp inside with rfl | inside
    · exact entry'
    · exact sound.top x (split ▸ List.mem_append_right _ (List.mem_cons_of_mem _ inside))
  have stands' :
      runOn Line.act none (Line.named a.table (Layout.lines ⟨before ++ s' :: after, l.blocks⟩)) =
      some (some (.leaf (.table inner'))) := by
    rw [lines, Line.named_append, Line.named_cons, if_pos name', Line.named_append, noneBefore,
      noneAfter.1, noneAfter.2, line']
    rfl
  obtain ⟨cs', read', onceOuter, setsOuter⟩ := Line.sets_run read stands' fun m other => by
    rw [lines]
    exact Line.named_replace name name' other
  refine ⟨_, cs', inner', put_, sound', read', setsOuter.fields, ?_, ?_, once⟩
  · have here : fieldsAt ((Node.fields cs).lookup a.table) = inner := by
      rw [lookup_fields, leaf]
      rw [(Deed.puts.inj same).2] at own
      rfl
    rw [here]
    exact sets
  · rw [keys_fields]
    exact onceOuter

/-- An element of an array of tables is a line that makes one. -/
theorem isElement_of_isArrayHead {b : Block} (array : a.isArrayHead b = true) :
    (b.head.line []).IsElement ∧ (b.head.line []).name = a.table := by
  unfold Assignment.isArrayHead at array
  split at array
  · next key body =>
    have names : key.names = [a.table] := beq_iff_eq.mp array
    have line : b.head.line [] = ⟨[], .opens true a.table⟩ := by
      rw [Statement.line, body]
      change Line.mk key.names.dropLast (.opens true (key.names.getLastD "")) = _
      rw [names]
      rfl
    rw [line]
    exact ⟨⟨rfl, a.table, rfl⟩, rfl⟩
  · cases array

/-- A table of which neither an inline table nor an element of an array has the name. -/
theorem isPlain_of_not (inline : ¬(l.top.any fun s => s.body.key.names == [a.table]) = true)
    (array : ¬l.blocks.any a.isArrayHead = true) : l.IsPlain a.table := by
  refine ⟨fun s member names => inline ?_, fun b member key body names => array ?_⟩
  · exact List.any_eq_true.mpr ⟨s, member, beq_iff_eq.mpr names⟩
  · refine List.any_eq_true.mpr ⟨b, member, ?_⟩
    unfold Assignment.isArrayHead
    rw [body]
    exact beq_iff_eq.mpr names

/-- **A string at a key of a table**, whichever way the table is written. -/
theorem put?_setsIn (sound : l.Sound) (read : runAll Line.step [] l.lines = some cs)
    (table : ∀ v, (Node.fields cs).lookup a.table = some v → ∃ inner, v = .table inner) :
    ∃ l' cs' inner', a.put? l = some l' ∧ l'.Sound ∧ runAll Line.step [] l'.lines = some cs' ∧
      SetsIn a.table a.key a.value (Node.fields cs) (Node.fields cs') inner' := by
  by_cases inline : (l.top.any fun s => s.body.key.names == [a.table]) = true
  · obtain ⟨s, member, names⟩ := List.any_eq_true.mp inline
    exact put?_inline sound read table member (beq_iff_eq.mp names)
  by_cases array : l.blocks.any a.isArrayHead = true
  · -- an array of tables under the name is no table
    obtain ⟨b, member, head⟩ := List.any_eq_true.mp array
    obtain ⟨element, name⟩ := isElement_of_isArrayHead head
    have inLines : b.head.line [] ∈ Line.named a.table l.lines := by
      refine List.mem_filter.mpr ⟨List.mem_append_right _ ?_, beq_iff_eq.mpr name⟩
      exact List.mem_flatMap.mpr ⟨b, member, List.mem_cons_self⟩
    have stands : runOn Line.act none (Line.named a.table l.lines) = some (cs.lookup a.table) :=
      Line.lookup_run read a.table
    obtain ⟨es, tables⟩ := Line.tables_of_isElement stands inLines element
    obtain ⟨inner, same⟩ := table (.array (Node.elements es [])) (by
      rw [lookup_fields, tables, Option.map_some, Node.value])
    cases same
  have plain : l.IsPlain a.table := isPlain_of_not inline array
  have edited : ∃ l', a.put? l = some l' ∧ a.Edited l l' := by
    rw [Assignment.put?, if_neg inline, if_neg array]
    by_cases dotted : l.top.any (Assignment.isUnder [a.table]) = true
    · rw [if_pos dotted]
      exact ⟨_, rfl, Assignment.edited_putDotted sound plain read (List.any_eq_true.mp dotted)⟩
    have noDotted : ∀ s ∈ l.top, Assignment.isUnder [a.table] s = false := fun s member => by
      rw [← Bool.not_eq_true]
      exact fun under => dotted (List.any_eq_true.mpr ⟨s, member, under⟩)
    rw [if_neg dotted]
    by_cases head : l.blocks.any a.isHead = true
    · rw [if_pos head]
      exact ⟨_, rfl, Assignment.edited_putInBlock sound plain read noDotted head⟩
    · rw [if_neg head]
      refine ⟨_, rfl, Assignment.edited_putInNewBlock sound plain noDotted fun b member names => ?_⟩
      exact head (List.any_eq_true.mpr ⟨b, member, beq_iff_eq.mpr names⟩)
  obtain ⟨l', put, edited⟩ := edited
  obtain ⟨cs', inner', read', sets⟩ := setsIn_edited sound plain read edited
  exact ⟨l', cs', inner', put, edited.sound, read', sets⟩

theorem isSome_of_mapM {α β : Type} {f : α → Option β} {l : List α} {l' : List β}
    (all : l.mapM f = some l') : ∀ x ∈ l, (f x).isSome := by
  induction l generalizing l' with
  | nil => nofun
  | cons x l ih =>
      rw [List.mapM_cons] at all
      obtain ⟨y, first, all⟩ := Option.bind_eq_some_iff.mp all
      obtain ⟨rest, later, -⟩ := Option.bind_eq_some_iff.mp all
      exact List.forall_mem_cons.mpr ⟨Option.isSome_of_eq_some first, ih later⟩

/-- Where a line gets the string, it has an inline table. -/
theorem table_of_putInStatement? {s : Statement} {v : Value} (names : s.body.key.names = [a.table])
    (put : (a.putInStatement? s).isSome) (line : s.line [] = ⟨[], .puts [a.table] (some v)⟩) :
    ∃ inner, v = .table inner := by
  rw [Assignment.putInStatement?, if_pos (beq_iff_eq.mpr names)] at put
  split at put
  · next key before t body =>
    rw [Statement.line, body] at line
    have meaning : t.value? = some v := (Deed.puts.inj (Line.mk.inj line).2).2
    obtain ⟨kids, -, rfl⟩ := Option.map_eq_some_iff.mp meaning
    exact ⟨_, rfl⟩
  · cases put

/-- **What is no table is left alone.** -/
theorem table_of_put? (sound : l.Sound) (read : runAll Line.step [] l.lines = some cs)
    (put : a.put? l = some l') {v : Value} (stands : (Node.fields cs).lookup a.table = some v) :
    ∃ inner, v = .table inner := by
  rw [Assignment.put?] at put
  by_cases inline : (l.top.any fun s => s.body.key.names == [a.table]) = true
  · rw [if_pos inline] at put
    obtain ⟨top, all, -⟩ := Option.map_eq_some_iff.mp put
    obtain ⟨s, member, names⟩ := List.any_eq_true.mp inline
    have names := beq_iff_eq.mp names
    obtain ⟨value, line⟩ := (sound.top s member).line_eq []
    rw [names] at line
    have inLines : s.line [] ∈ Line.named a.table l.lines := by
      refine List.mem_filter.mpr
        ⟨List.mem_append_left _ (List.mem_map_of_mem member), beq_iff_eq.mpr ?_⟩
      rw [line]
      rfl
    obtain ⟨-, n, w, own, leaf⟩ := Line.leaf_alone (Line.lookup_run read a.table) inLines
      (by rw [line]; exact ⟨rfl, _, _, rfl⟩)
    rw [lookup_fields, leaf] at stands
    cases stands
    have same : n = a.table := by
      rw [line] at own
      exact (List.cons.inj (Deed.puts.inj (Line.mk.inj own).2).1).1.symm
    exact table_of_putInStatement? names (isSome_of_mapM all s member) (same ▸ own)
  by_cases array : l.blocks.any a.isArrayHead = true
  · rw [if_neg inline, if_pos array] at put
    cases put
  · have plain := isPlain_of_not inline array
    obtain ⟨o, kids, -, old, -⟩ := Line.exists_run_inside read (sound.isTabular plain)
    rw [lookup_fields, old] at stands
    obtain ⟨n, table, rfl⟩ := Option.map_eq_some_iff.mp stands
    obtain ⟨origin, -, rfl⟩ := Option.map_eq_some_iff.mp table
    exact ⟨_, rfl⟩

end Layout

/-- A document that is read is good, and its lines are read. -/
theorem Document.run_of_read? {s : List Char} {d : Document} {fields : List (String × Value)}
    (read : Document.read? s = some (d, fields)) :
    d.Good ∧ (Layout.ofStatements d.statements).Sound ∧
      ∃ cs, runAll Line.step [] (Layout.ofStatements d.statements).lines = some cs ∧
        fields = Node.fields cs := by
  obtain ⟨d₀, layout, rest⟩ := Option.bind_eq_some_iff.mp read
  obtain ⟨fields₀, meaning, same⟩ := Option.map_eq_some_iff.mp rest
  cases same
  have good := good_of_layout? layout
  have sound := Layout.sound_ofStatements good.statements
  have parts := Layout.fields?_eq sound d.rest
  rw [Layout.statements_ofStatements, meaning] at parts
  obtain ⟨cs, run, made⟩ := Option.map_eq_some_iff.mp parts.symm
  exact ⟨good, sound, cs, run, made.symm⟩

/-- **A string at a key of a document.** Where a document says a table under a name or nothing, it
can be given a string at a key of that table. The new document is read back from its text, and it
says what the old one says but for that string. -/
theorem Document.putString?_setsIn {s : List Char} {d : Document} {fields : List (String × Value)}
    {table : String} (read : Document.read? s = some (d, fields))
    (isTable : ∀ v, fields.lookup table = some v → ∃ inner, v = .table inner) (key value : String) :
    ∃ d' fields' inner', d.putString? table key value = some d' ∧
      Document.read? d'.render = some (d', fields') ∧
        SetsIn table key value fields fields' inner' := by
  obtain ⟨good, sound, cs, run, made⟩ := Document.run_of_read? read
  subst made
  obtain ⟨l', cs', inner', put, sound', run', sets⟩ :=
    Layout.put?_setsIn (a := ⟨table, key, value⟩) sound run isTable
  have good' : Document.Good { d with statements := l'.statements } := ⟨sound'.good, good.rest⟩
  refine ⟨{ d with statements := l'.statements }, Node.fields cs', inner', ?_, ?_, sets⟩
  · rw [Document.putString?, put]
    rfl
  · rw [Document.read?, good'.read, Option.bind_some, Layout.fields?_eq sound' d.rest, run']
    rfl

/-- What a document says under a name that can be given a string at a key is a table, if
anything. -/
theorem Document.table_of_putString? {s : List Char} {d d' : Document}
    {fields : List (String × Value)} {table key value : String}
    (read : Document.read? s = some (d, fields)) (put : d.putString? table key value = some d')
    {v : Value} (stands : fields.lookup table = some v) : ∃ inner, v = .table inner := by
  obtain ⟨-, sound, cs, run, made⟩ := Document.run_of_read? read
  subst made
  obtain ⟨l', put, -⟩ := Option.map_eq_some_iff.mp put
  exact Layout.table_of_put? (a := ⟨table, key, value⟩) sound run put stands

end Gatekeeper.Toml
