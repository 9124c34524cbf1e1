import Gatekeeper.Proofs.Toml.Compose
import Gatekeeper.Proofs.Toml.Lines
import Gatekeeper.Toml.Edit

set_option autoImplicit false

/-!
# Documents as lines

The lines of a document by table (`Layout`) are those of the document in their order, and what the
document says is what they make when they are read one after another (`Layout.fields?_eq`). A table
at the top level is written with dotted keys before the first header, or by headers and entries
after it, which decides how it comes to be.
-/

namespace Gatekeeper.Toml

/-- A statement by what it does; `table` is the path of the open table. -/
def Statement.line (table : List String) (s : Statement) : Line :=
  match s.body with
  | .header array key => ⟨key.names.dropLast, .opens array (key.names.getLastD "")⟩
  | .entry key _ value => ⟨table, .puts key.names value.value?⟩

/-- A key of a good statement has a name. -/
theorem Statement.Good.names {s : Statement} (good : s.Good) : s.body.key.names ≠ [] := by
  obtain ⟨first, key, -⟩ := good.key
  obtain ⟨rest, befores, -⟩ := key.spaced
  intro nothing
  rw [List.map_eq_nil_iff.mp nothing] at befores
  cases befores

/-- The lines of a table with a header. -/
def Block.lines (b : Block) : List Line :=
  b.head.line [] :: b.entries.map (Statement.line b.head.body.key.names)

/-- The lines of a document. -/
def Layout.lines (l : Layout) : List Line :=
  l.top.map (Statement.line []) ++ l.blocks.flatMap Block.lines

/-- A good statement that opens a table. -/
structure Statement.IsHead (s : Statement) : Prop where
  good : s.Good
  header : s.body.isHeader = true

/-- A good statement that gives a value to a key. -/
structure Statement.IsEntry (s : Statement) : Prop where
  good : s.Good
  entry : s.body.isHeader = false

/-- A block is a header with entries. -/
structure Block.Sound (b : Block) : Prop where
  head : b.head.IsHead
  entries : ∀ s ∈ b.entries, s.IsEntry

/-- The headers of a layout are where headers belong. -/
structure Layout.Sound (l : Layout) : Prop where
  top : ∀ s ∈ l.top, s.IsEntry
  blocks : ∀ b ∈ l.blocks, b.Sound

/-! ## Reading lines -/

section Reading

variable {s : Statement} {ss : List Statement} {cs : Children} {table : List String}

/-- A header is read as its line is. -/
theorem add_header (head : s.IsHead) :
    Contents.add ⟨cs, table⟩ s.body = ((s.line table).apply cs).map fun cs =>
      ⟨cs, s.body.key.names⟩ := by
  have names := head.good.names
  obtain ⟨lead, body, tail⟩ := s
  cases body with
  | entry key before value => cases head.header
  | header array k =>
      have names : k.names ≠ [] := names
      obtain ⟨last, above, reverse⟩ :=
        List.exists_cons_of_ne_nil (mt List.reverse_eq_nil_iff.mp names)
      have split : k.names = above.reverse ++ [last] := by
        rw [← List.reverse_reverse k.names, reverse, List.reverse_cons]
      have path : k.names.dropLast = above.reverse := by rw [split, List.dropLast_concat]
      have name : k.names.getLastD "" = last := by rw [split, List.getLastD_concat]
      simp only [Contents.add, Statement.line, reverse, path, name]
      rfl

theorem within_none : Children.within (fun _ => none) = fun _ => none := by
  funext n
  unfold Children.within
  split <;> rfl

theorem descend_none (path : List String) (cs : Children) :
    Children.descend path (fun _ => none) cs = none := by
  induction path generalizing cs with
  | nil => rfl
  | cons name path ih =>
      have deeper : Children.descend path (fun _ => none) = fun _ => none := funext ih
      rw [Children.descend, deeper, within_none, Line.update_none]

/-- An entry is read as its line is. -/
theorem add_entry (entry : s.IsEntry) :
    Contents.add ⟨cs, table⟩ s.body = ((s.line table).apply cs).map fun cs => ⟨cs, table⟩ := by
  obtain ⟨lead, body, tail⟩ := s
  cases body with
  | header array k => cases entry.entry
  | entry key before value =>
      simp only [Contents.add, Statement.line, Line.apply]
      cases value.value? with
      | some v => rfl
      | none => exact (congrArg (Option.map _) (descend_none table cs)).symm

/-- The entries of a table are read one after another. -/
theorem read_entries (entries : ∀ s ∈ ss, s.IsEntry) :
    ss.foldlM (fun (c : Contents) s => c.add s.body) ⟨cs, table⟩ =
      (runAll Line.step cs (ss.map (Statement.line table))).map fun cs => ⟨cs, table⟩ := by
  induction ss generalizing cs with
  | nil => rfl
  | cons s ss ih =>
      rw [List.foldlM_cons, add_entry (entries s List.mem_cons_self), List.map_cons]
      change _ = (((s.line table).apply cs).bind fun cs =>
        runAll Line.step cs (ss.map (Statement.line table))).map _
      cases (s.line table).apply cs with
      | none => rfl
      | some cs => exact ih fun s member => entries s (List.mem_cons_of_mem _ member)

/-- A table with a header is read as its lines are. -/
theorem read_block {b : Block} (sound : b.Sound) :
    (b.head :: b.entries).foldlM (fun (c : Contents) s => c.add s.body) ⟨cs, table⟩ =
      (runAll Line.step cs b.lines).map fun cs => ⟨cs, b.head.body.key.names⟩ := by
  have first : b.head.line table = b.head.line [] := by
    have header := sound.head.header
    unfold Statement.line
    cases same : b.head.body with
    | header array key => rfl
    | entry key before value =>
        rw [same] at header
        cases header
  rw [List.foldlM_cons, add_header sound.head, first]
  change _ = (((b.head.line []).apply cs).bind
    fun cs => runAll Line.step cs (b.entries.map (Statement.line b.head.body.key.names))).map _
  cases (b.head.line []).apply cs with
  | none => rfl
  | some cs => exact read_entries sound.entries

/-- Tables with headers are read one after another. -/
theorem read_blocks {bs : List Block} (sound : ∀ b ∈ bs, b.Sound) :
    ((bs.flatMap fun b => b.head :: b.entries).foldlM (fun (c : Contents) s => c.add s.body)
      ⟨cs, table⟩).map Contents.children = runAll Line.step cs (bs.flatMap Block.lines) := by
  induction bs generalizing cs table with
  | nil => rfl
  | cons b bs ih =>
      rw [List.flatMap_cons, List.foldlM_append, read_block (sound b List.mem_cons_self),
        List.flatMap_cons, runAll_append]
      cases runAll Line.step cs b.lines with
      | none => rfl
      | some cs => exact ih fun b' member => sound b' (List.mem_cons_of_mem _ member)

end Reading

namespace Layout

variable {l : Layout}

/-- **What a document says is what its lines make.** -/
theorem fields?_eq (sound : l.Sound) (rest : List Char) :
    Document.fields? ⟨l.statements, rest⟩ = (runAll Line.step [] l.lines).map Node.fields := by
  have whole : ((l.statements.foldlM (fun (c : Contents) s => c.add s.body) {}).map
      Contents.children) = runAll Line.step [] l.lines := by
    rw [statements, lines, List.foldlM_append, read_entries sound.top, runAll_append]
    cases runAll Line.step [] (l.top.map (Statement.line [])) with
    | none => rfl
    | some cs => exact read_blocks sound.blocks
  rw [← whole, Option.map_map]
  rfl

theorem ofStatements_cons (s : Statement) (ss : List Statement) :
    ofStatements (s :: ss) = if s.body.isHeader
      then ⟨[], ⟨s, (ofStatements ss).top⟩ :: (ofStatements ss).blocks⟩
      else ⟨s :: (ofStatements ss).top, (ofStatements ss).blocks⟩ := rfl

theorem statements_ofStatements (ss : List Statement) : (ofStatements ss).statements = ss := by
  induction ss with
  | nil => rfl
  | cons s ss ih =>
      rw [ofStatements_cons]
      split
      · exact congrArg (s :: ·) ih
      · exact congrArg (s :: ·) ih

theorem sound_ofStatements {ss : List Statement} (good : ∀ s ∈ ss, s.Good) :
    (ofStatements ss).Sound := by
  induction ss with
  | nil => exact ⟨nofun, nofun⟩
  | cons s ss ih =>
      have first := good s List.mem_cons_self
      have rest := ih fun s' member => good s' (List.mem_cons_of_mem _ member)
      rw [ofStatements_cons]
      split
      · next header =>
        exact ⟨nofun, List.forall_mem_cons.mpr ⟨⟨⟨first, header⟩, rest.top⟩, rest.blocks⟩⟩
      · next entry =>
        have entry : s.IsEntry := ⟨first, Bool.not_eq_true _ ▸ entry⟩
        exact ⟨List.forall_mem_cons.mpr ⟨entry, rest.top⟩, rest.blocks⟩

/-- The statements of a layout are good. -/
theorem Sound.good (sound : l.Sound) : ∀ s ∈ l.statements, s.Good := by
  intro s member
  rcases List.mem_append.mp member with inTop | inBlocks
  · exact (sound.top s inTop).good
  · obtain ⟨b, inside, member⟩ := List.mem_flatMap.mp inBlocks
    rcases List.mem_cons.mp member with rfl | member
    · exact (sound.blocks b inside).head.good
    · exact ((sound.blocks b inside).entries s member).good

end Layout

/-! ## Where the lines of a table are -/

section Statement

variable {s : Statement} {t key : String} {table : List String}

/-- A line about a key is about what is at it. -/
theorem Statement.isUnder_of_names {path : List String} (names : s.body.key.names = path) :
    Assignment.isUnder path s = true := by
  rw [Assignment.isUnder, names]
  exact List.isPrefixOf_iff_prefix.mpr List.prefix_rfl

theorem Statement.IsEntry.line_eq (entry : s.IsEntry) (table : List String) :
    ∃ value, s.line table = ⟨table, .puts s.body.key.names value⟩ := by
  obtain ⟨lead, body, tail⟩ := s
  cases body with
  | header array key => cases entry.entry
  | entry key before value => exact ⟨_, rfl⟩

theorem Statement.IsHead.line_eq (head : s.IsHead) : ∃ array, s.body = .header array s.body.key ∧
    s.line [] = ⟨s.body.key.names.dropLast, .opens array (s.body.key.names.getLastD "")⟩ := by
  obtain ⟨lead, body, tail⟩ := s
  cases body with
  | header array key => exact ⟨array, rfl, rfl⟩
  | entry key before value => cases head.header

theorem Statement.IsEntry.path_line (entry : s.IsEntry) (table : List String) :
    (s.line table).path = table ++ s.body.key.names := by
  obtain ⟨value, line⟩ := entry.line_eq table
  rw [line]
  rfl

theorem Statement.IsHead.path_line (head : s.IsHead) : (s.line []).path = s.body.key.names := by
  obtain ⟨array, -, line⟩ := head.line_eq
  have names := head.good.names
  rw [line]
  change s.body.key.names.dropLast ++ [s.body.key.names.getLastD ""] = _
  rw [List.getLastD_eq_getLast?, List.getLast?_eq_some_getLast names]
  exact List.dropLast_concat_getLast names

theorem Statement.IsEntry.isHead_line (entry : s.IsEntry) (table : List String) :
    (s.line table).isHead = false := by
  obtain ⟨value, line⟩ := entry.line_eq table
  rw [line]
  cases table <;> rfl

/-- A header opens a table at the top level if it has one name and one bracket. -/
theorem Statement.IsHead.isHead_line (head : s.IsHead) :
    (s.line []).isHead = true ↔
      s.body = .header false s.body.key ∧ s.body.key.names.length = 1 := by
  obtain ⟨array, body, line⟩ := head.line_eq
  have names := head.good.names
  rw [line, body]
  match s.body.key.names, names with
  | [name], _ => cases array <;> simp [Line.isHead, Body.key]
  | first :: second :: rest, _ => simp [Line.isHead, Body.key]

end Statement

namespace Block

variable {b : Block} {t key : String}

/-- Whether the header of a block is that of a table below a path. -/
def IsUnder (path : List String) (b : Block) : Prop := Assignment.isUnder path b.head = true

/-- Whether a block is no element of an array of tables of the given name. -/
def IsPlain (t : String) (b : Block) : Prop :=
  ∀ key : Key, b.head.body = .header true key → key.names ≠ [t]

theorem mem_lines {x : Line} (member : x ∈ b.lines) :
    x = b.head.line [] ∨ ∃ s ∈ b.entries, x = s.line b.head.body.key.names := by
  rcases List.mem_cons.mp member with same | inside
  · exact .inl same
  · obtain ⟨s, inside, same⟩ := List.mem_map.mp inside
    exact .inr ⟨s, inside, same.symm⟩

/-- The path of every line of a block begins with that of the header. -/
theorem Sound.prefix_path (sound : b.Sound) {x : Line} (member : x ∈ b.lines) :
    b.head.body.key.names <+: x.path := by
  rcases mem_lines member with rfl | ⟨s, inside, rfl⟩
  · exact sound.head.path_line ▸ List.prefix_rfl
  · rw [(sound.entries s inside).path_line]
    exact List.prefix_append _ _

theorem Sound.complete (sound : b.Sound) {x : Line} (member : x ∈ b.lines) : x.deed.path ≠ [] := by
  rcases mem_lines member with rfl | ⟨s, inside, rfl⟩
  · obtain ⟨array, -, line⟩ := sound.head.line_eq
    rw [line]
    exact List.cons_ne_nil _ _
  · obtain ⟨value, line⟩ := (sound.entries s inside).line_eq b.head.body.key.names
    rw [line]
    exact (sound.entries s inside).good.names

/-- In a block below a key all lines are about it. -/
theorem Sound.filter_under (sound : b.Sound) (under : b.IsUnder [t, key]) :
    b.lines.filter (Line.isApart t key) = [] := by
  refine List.filter_eq_nil_iff.mpr fun x member => ?_
  have about : Line.isAbout [t, key] x = true :=
    List.isPrefixOf_iff_prefix.mpr
      ((List.isPrefixOf_iff_prefix.mp under).trans (sound.prefix_path member))
  simp [Line.isApart, about]

/-- A path of two names begins a path whose beginning is neither below it nor the first of them. -/
theorem isPrefixOf_pair {first rest : List String} (nonempty : first ≠ [])
    (elsewhere : ¬[t, key] <+: first) (other : first ≠ [t]) : ¬[t, key] <+: first ++ rest := by
  intro both
  match first with
  | [] => exact nonempty rfl
  | [x] =>
      obtain ⟨same, -⟩ := List.cons_prefix_cons.mp both
      exact other (by rw [same])
  | x :: y :: more =>
      obtain ⟨same, inner⟩ := List.cons_prefix_cons.mp both
      obtain ⟨same', -⟩ := List.cons_prefix_cons.mp inner
      exact elsewhere ⟨more, by rw [same, same']; rfl⟩

/-- A line that opens a table at the top level is a header with its name. -/
theorem Sound.names_of_opens (sound : b.Sound) (opens : (b.head.line []).isHead = true)
    (name : (b.head.line []).name = t) : b.head.body.key.names = [t] := by
  obtain ⟨-, single⟩ := sound.head.isHead_line.mp opens
  obtain ⟨n, names⟩ := List.length_eq_one_iff.mp single
  rw [Line.name, sound.head.path_line, names] at name
  rw [names, show n = t from name]

/-- In a block of another table no line is about a key. -/
theorem Sound.filter_other (sound : b.Sound) (elsewhere : ¬b.IsUnder [t, key])
    (other : b.head.body.key.names ≠ [t]) :
    b.lines.filter (Line.isAbout [t, key]) = [] ∧
      b.lines.filter (Line.isApart t key) = b.lines := by
  have none_ : ∀ x ∈ b.lines, Line.isAbout [t, key] x = false := by
    intro x member
    obtain ⟨rest, path⟩ := sound.prefix_path member
    rw [← Bool.not_eq_true, Line.isAbout, ← path, List.isPrefixOf_iff_prefix]
    exact isPrefixOf_pair sound.head.good.names (mt List.isPrefixOf_iff_prefix.mpr elsewhere) other
  refine ⟨List.filter_eq_nil_iff.mpr fun x member => by simp [none_ x member],
    List.filter_eq_self.mpr fun x member => ?_⟩
  have noHead : (x.isHead && x.name == t) = false := by
    rcases mem_lines member with rfl | ⟨s, inside, rfl⟩
    · rw [← Bool.not_eq_true, Bool.and_eq_true, beq_iff_eq]
      exact fun opens => other (sound.names_of_opens opens.1 opens.2)
    · rw [(sound.entries s inside).isHead_line, Bool.false_and]
  simp [Line.isApart, none_ x member, noHead]

/-- The header of the table itself opens it. -/
theorem Sound.opens (sound : b.Sound) (plain : b.IsPlain t) (head : b.head.body.key.names = [t]) :
    (b.head.line []).isHead = true ∧ (b.head.line []).name = t := by
  constructor
  · refine sound.head.isHead_line.mpr ⟨?_, by rw [head]; rfl⟩
    obtain ⟨array, body, -⟩ := sound.head.line_eq
    cases array with
    | false => exact body
    | true => exact absurd head (plain _ body)
  · rw [Line.name, sound.head.path_line, head]
    rfl

/-- The lines of a block that open the table of a name. -/
theorem Sound.length_heads (sound : b.Sound) (plain : b.IsPlain t) :
    ((Line.named t b.lines).filter Line.isHead).length =
      if b.head.body.key.names = [t] then 1 else 0 := by
  have entries : (b.entries.map (Statement.line b.head.body.key.names)).filter
      (fun x => x.isHead && x.name == t) = [] := by
    refine List.filter_eq_nil_iff.mpr fun x member => ?_
    obtain ⟨s, inside, rfl⟩ := List.mem_map.mp member
    simp [(sound.entries s inside).isHead_line]
  rw [Line.named, List.filter_filter, lines, List.filter_cons, entries]
  by_cases head : b.head.body.key.names = [t]
  · obtain ⟨opens, name⟩ := sound.opens plain head
    simp [opens, name, head]
  · have closed : ¬((b.head.line []).isHead = true ∧ (b.head.line []).name = t) :=
      fun opens => head (sound.names_of_opens opens.1 opens.2)
    simp [closed, head]

/-- The lines of a block are about the table of a name in it or open it, if they have that name. -/
theorem Sound.isHead_or_isInside (sound : b.Sound) (plain : b.IsPlain t) {x : Line}
    (member : x ∈ b.lines) (name : x.name = t) :
    (x.isHead = true ∧ b.head.body.key.names = [t]) ∨ x.IsInside := by
  rcases mem_lines member with rfl | ⟨s, inside, rfl⟩
  · rw [Line.name, sound.head.path_line] at name
    by_cases single : b.head.body.key.names = [t]
    · exact .inl ⟨(sound.opens plain single).1, single⟩
    · obtain ⟨array, -, line⟩ := sound.head.line_eq
      have names := sound.head.good.names
      right
      rw [line]
      generalize b.head.body.key.names = path at names name single
      rcases path with _ | ⟨n, _ | ⟨m, rest⟩⟩
      · exact absurd rfl names
      · exact absurd (congrArg (· :: []) name) single
      · exact List.cons_ne_nil _ _
  · right
    obtain ⟨value, line⟩ := (sound.entries s inside).line_eq b.head.body.key.names
    rw [line]
    exact sound.head.good.names

/-- In the block of the table itself the entries decide. -/
theorem Sound.filter_head (sound : b.Sound) (plain : b.IsPlain t)
    (head : b.head.body.key.names = [t]) :
    b.lines.filter (Line.isAbout [t, key]) =
        (b.entries.filter (Assignment.isUnder [key])).map (Statement.line [t]) ∧
      b.lines.filter (Line.isApart t key) =
        (b.entries.filter fun s => !Assignment.isUnder [key] s).map (Statement.line [t]) := by
  obtain ⟨opens, name⟩ := sound.opens plain head
  have notAbout : Line.isAbout [t, key] (b.head.line []) = false := by
    rw [Line.isAbout, sound.head.path_line, head]
    simp [List.isPrefixOf]
  have about (s : Statement) (member : s ∈ b.entries) :
      Line.isAbout [t, key] (s.line [t]) = Assignment.isUnder [key] s := by
    rw [Line.isAbout, (sound.entries s member).path_line]
    simp [Assignment.isUnder]
  have apart (s : Statement) (member : s ∈ b.entries) :
      Line.isApart t key (s.line [t]) = !Assignment.isUnder [key] s := by
    rw [Line.isApart, about s member, (sound.entries s member).isHead_line]
    simp
  rw [lines, head]
  constructor
  · rw [List.filter_cons_of_neg (by simp [notAbout]), List.filter_map]
    exact congrArg _ (List.filter_congr about)
  · rw [List.filter_cons_of_neg (by simp [Line.isApart, opens, name]), List.filter_map]
    exact congrArg _ (List.filter_congr apart)

end Block

namespace Layout

variable {l l' : Layout} {t key : String} {cs : Children}

/-- Whether all lines about a name leave a table under it. -/
structure IsPlain (t : String) (l : Layout) : Prop where
  top : ∀ s ∈ l.top, s.body.key.names ≠ [t]
  blocks : ∀ b ∈ l.blocks, b.IsPlain t

theorem mem_lines {x : Line} (member : x ∈ l.lines) :
    (∃ s ∈ l.top, x = s.line []) ∨ ∃ b ∈ l.blocks, x ∈ b.lines := by
  rcases List.mem_append.mp member with inTop | inBlocks
  · obtain ⟨s, inside, same⟩ := List.mem_map.mp inTop
    exact .inl ⟨s, inside, same.symm⟩
  · exact .inr (List.mem_flatMap.mp inBlocks)

theorem Sound.complete (sound : l.Sound) : ∀ x ∈ l.lines, x.deed.path ≠ [] := by
  intro x member
  rcases mem_lines member with ⟨s, inside, rfl⟩ | ⟨b, inside, line⟩
  · obtain ⟨value, line⟩ := (sound.top s inside).line_eq []
    rw [line]
    exact (sound.top s inside).good.names
  · exact (sound.blocks b inside).complete line

theorem Sound.isDotted_top (sound : l.Sound) : ∀ x ∈ l.top.map (Statement.line []), x.IsDotted := by
  intro x member
  obtain ⟨s, inside, rfl⟩ := List.mem_map.mp member
  obtain ⟨value, line⟩ := (sound.top s inside).line_eq []
  exact ⟨by rw [line], _, value, by rw [line]⟩

theorem Sound.isTabular (sound : l.Sound) (plain : l.IsPlain t) :
    ∀ x ∈ Line.named t l.lines, x.IsTabular := by
  intro x member
  obtain ⟨member, name⟩ := List.mem_filter.mp member
  have name : x.name = t := beq_iff_eq.mp name
  rcases mem_lines member with ⟨s, inside, rfl⟩ | ⟨b, inside, line⟩
  · obtain ⟨value, line⟩ := (sound.top s inside).line_eq []
    have other := plain.top s inside
    have names := (sound.top s inside).good.names
    rw [line] at name ⊢
    match s.body.key.names, names, other, name with
    | [n], _, other, name => exact absurd (congrArg (· :: []) name) other
    | n :: m :: rest, _, _, _ => exact Nat.le_add_left 2 rest.length
  · rcases (sound.blocks b inside).isHead_or_isInside (plain.blocks b inside) line name with
      ⟨head, -⟩ | within
    · exact Line.isTabular_of_isHead head
    · exact Line.isTabular_of_isInside within

/-- The lines of a name: dotted keys, then headers and what comes after them. -/
theorem named_lines (t : String) (l : Layout) : Line.named t l.lines =
    Line.named t (l.top.map (Statement.line [])) ++ Line.named t (l.blocks.flatMap Block.lines) :=
  Line.named_append _ _ _

/-- A dotted key makes a table. -/
theorem Sound.runOn_touch_top (sound : l.Sound)
    (dotted : ∃ s ∈ l.top, Assignment.isUnder [t] s = true) :
    runOn Line.touch none (Line.named t (l.top.map (Statement.line []))) = some (some .dotted) := by
  refine Line.runOn_touch_dotted_none (fun x member => ?_) fun nothing => ?_
  · exact sound.isDotted_top x (List.mem_filter.mp member).1
  · obtain ⟨s, member, under⟩ := dotted
    obtain ⟨rest, names⟩ := List.isPrefixOf_iff_prefix.mp under
    refine List.filter_eq_nil_iff.mp nothing (s.line []) (List.mem_map_of_mem member) ?_
    rw [beq_iff_eq, Line.name, (sound.top s member).path_line, ← names]
    rfl

/-- Without a header of the table, headers do not close it. -/
theorem Sound.isSome_runOn_touch_dotted (sound : l.Sound) (plain : l.IsPlain t)
    (dotted : ∃ s ∈ l.top, Assignment.isUnder [t] s = true)
    (noHead : ∀ b ∈ l.blocks, b.head.body.key.names ≠ [t]) :
    (runOn Line.touch none (Line.named t l.lines)).isSome := by
  rw [named_lines, runOn_append, sound.runOn_touch_top dotted]
  refine Line.isSome_runOn_touch_inside (fun x member => ?_) _
  obtain ⟨member, name⟩ := List.mem_filter.mp member
  obtain ⟨b, inside, line⟩ := List.mem_flatMap.mp member
  rcases (sound.blocks b inside).isHead_or_isInside (plain.blocks b inside) line
    (beq_iff_eq.mp name) with ⟨-, head⟩ | within
  · exact absurd head (noHead b inside)
  · exact within

/-- **Where dotted keys make a table, no header opens it.** -/
theorem Sound.no_head (sound : l.Sound) (plain : l.IsPlain t)
    (read : runAll Line.step [] l.lines = some cs)
    (dotted : ∃ s ∈ l.top, Assignment.isUnder [t] s = true) :
    ∀ b ∈ l.blocks, b.head.body.key.names ≠ [t] := by
  intro b member head
  have came := Line.isSome_runOn_touch read (sound.isTabular plain)
  rw [named_lines, runOn_append, sound.runOn_touch_top dotted] at came
  obtain ⟨o, came⟩ := Option.isSome_iff_exists.mp came
  obtain ⟨opens, name⟩ := (sound.blocks b member).opens (plain.blocks b member) head
  have inside : b.head.line [] ∈ Line.named t (l.blocks.flatMap Block.lines) :=
    List.mem_filter.mpr ⟨List.mem_flatMap.mpr ⟨b, member, List.mem_cons_self⟩, beq_iff_eq.mpr name⟩
  have closed := Line.runOn_touch_closed (by decide) came _ inside
  rw [opens] at closed
  cases closed

/-- The lines that open the table of a name are its headers. -/
theorem length_heads {bs : List Block} (sounds : ∀ b ∈ bs, b.Sound)
    (plains : ∀ b ∈ bs, b.IsPlain t) :
    ((Line.named t (bs.flatMap Block.lines)).filter Line.isHead).length =
      (bs.filter fun b => b.head.body.key.names == [t]).length := by
  induction bs with
  | nil => rfl
  | cons b bs ih =>
      have first := (sounds b List.mem_cons_self).length_heads (plains b List.mem_cons_self)
      have rest := ih (fun b' member => sounds b' (List.mem_cons_of_mem _ member))
        fun b' member => plains b' (List.mem_cons_of_mem _ member)
      simp only [Line.named] at first rest ⊢
      rw [List.flatMap_cons, List.filter_append, List.filter_append, List.length_append,
        first, rest, List.filter_cons]
      by_cases head : b.head.body.key.names = [t]
      · rw [if_pos head, if_pos (beq_iff_eq.mpr head), List.length_cons]
        omega
      · rw [if_neg head, if_neg (by simpa using head)]
        omega

/-- **No table has two headers.** -/
theorem Sound.heads_le_one (sound : l.Sound) (plain : l.IsPlain t)
    (read : runAll Line.step [] l.lines = some cs) :
    (l.blocks.filter fun b => b.head.body.key.names == [t]).length ≤ 1 := by
  have came := Line.isSome_runOn_touch read (sound.isTabular plain)
  obtain ⟨o, came⟩ := Option.isSome_iff_exists.mp came
  have once := Line.heads_le_one came
  rw [named_lines, List.filter_append, List.length_append,
    length_heads sound.blocks plain.blocks] at once
  omega

/-- A header opens a table of which there are no dotted keys. -/
theorem Sound.isSome_runOn_touch_heads (sound : l.Sound) (plain : l.IsPlain t)
    (noDotted : ∀ s ∈ l.top, Assignment.isUnder [t] s = false)
    (once : (l.blocks.filter fun b => b.head.body.key.names == [t]).length ≤ 1) :
    (runOn Line.touch none (Line.named t l.lines)).isSome := by
  have top : Line.named t (l.top.map (Statement.line [])) = [] := by
    refine List.filter_eq_nil_iff.mpr fun x member name => ?_
    obtain ⟨s, inside, rfl⟩ := List.mem_map.mp member
    have elsewhere := noDotted s inside
    have names := (sound.top s inside).good.names
    rw [beq_iff_eq, Line.name, (sound.top s inside).path_line] at name
    rw [Assignment.isUnder] at elsewhere
    generalize s.body.key.names = path at names name elsewhere
    cases path with
    | nil => exact absurd rfl names
    | cons n rest =>
        have same : n = t := name
        simp [same] at elsewhere
  rw [named_lines, top, List.nil_append]
  refine Line.isSome_runOn_touch_heads (fun x member => ?_) ?_ (.inl rfl)
  · obtain ⟨member, name⟩ := List.mem_filter.mp member
    obtain ⟨b, inside, line⟩ := List.mem_flatMap.mp member
    exact ((sound.blocks b inside).isHead_or_isInside (plain.blocks b inside) line
      (beq_iff_eq.mp name)).imp_left And.left
  · rw [length_heads sound.blocks plain.blocks]
    exact once

/-- Of the lines before the first header those are about a key that are written so. -/
theorem filter_top {ss : List Statement} (entries : ∀ s ∈ ss, s.IsEntry) :
    (ss.map (Statement.line [])).filter (Line.isAbout [t, key]) =
        (ss.filter (Assignment.isUnder [t, key])).map (Statement.line []) ∧
      (ss.map (Statement.line [])).filter (Line.isApart t key) =
        (ss.filter fun s => !Assignment.isUnder [t, key] s).map (Statement.line []) := by
  have about (s : Statement) (member : s ∈ ss) :
      Line.isAbout [t, key] (s.line []) = Assignment.isUnder [t, key] s := by
    rw [Line.isAbout, (entries s member).path_line]
    rfl
  have apart (s : Statement) (member : s ∈ ss) :
      Line.isApart t key (s.line []) = !Assignment.isUnder [t, key] s := by
    rw [Line.isApart, about s member, (entries s member).isHead_line]
    simp
  rw [List.filter_map, List.filter_map]
  exact ⟨congrArg _ (List.filter_congr about), congrArg _ (List.filter_congr apart)⟩

/-- **A value at a key is alone there**, if it is put before the first header. -/
theorem Sound.alone_top (sound : l.Sound) (plain : l.IsPlain t)
    (read : runAll Line.step [] l.lines = some cs)
    {s : Statement} (member : s ∈ l.top) (names : s.body.key.names = [t, key]) :
    l.top.filter (Assignment.isUnder [t, key]) = [s] := by
  have entry := sound.top s member
  obtain ⟨value, line⟩ := entry.line_eq []
  rw [names] at line
  have inLines : s.line [] ∈ l.lines := List.mem_append_left _ (List.mem_map_of_mem member)
  have under := Statement.isUnder_of_names names
  have about : Line.isAbout [t, key] (s.line []) = true := by
    rw [Line.isAbout, entry.path_line]
    exact under
  have alone := Line.about_alone read (sound.isTabular plain) sound.complete inLines about
    (by rw [line]; rfl : _ = some ⟨[], .puts [key] value⟩) ⟨rfl, key, value, rfl⟩
  refine Line.eq_singleton (List.mem_filter.mpr ⟨member, under⟩) ?_
  have short := congrArg List.length alone
  rw [lines, List.filter_append, List.length_append, (filter_top sound.top).1, List.length_map,
    List.length_singleton] at short
  omega

/-- The same if it is put below the header of the table. -/
theorem Sound.alone_block (sound : l.Sound) (plain : l.IsPlain t)
    (read : runAll Line.step [] l.lines = some cs) {b : Block} (inside : b ∈ l.blocks)
    (head : b.head.body.key.names = [t]) {s : Statement} (member : s ∈ b.entries)
    (names : s.body.key.names = [key]) : b.entries.filter (Assignment.isUnder [key]) = [s] := by
  have entry := (sound.blocks b inside).entries s member
  obtain ⟨value, line⟩ := entry.line_eq [t]
  rw [names] at line
  have inBlock : s.line [t] ∈ b.lines :=
    head ▸ List.mem_cons_of_mem _ (List.mem_map_of_mem member)
  have inLines : s.line [t] ∈ l.lines :=
    List.mem_append_right _ (List.mem_flatMap.mpr ⟨b, inside, inBlock⟩)
  have under := Statement.isUnder_of_names names
  have about : Line.isAbout [t, key] (s.line [t]) = true := by
    rw [Line.isAbout, entry.path_line, names]
    exact List.isPrefixOf_iff_prefix.mpr List.prefix_rfl
  have alone := Line.about_alone read (sound.isTabular plain) sound.complete inLines about
    (by rw [line]; rfl : _ = some ⟨[], .puts [key] value⟩) ⟨rfl, key, value, rfl⟩
  refine Line.eq_singleton (List.mem_filter.mpr ⟨member, under⟩) ?_
  have part : b.lines.Sublist l.lines := by
    obtain ⟨before, after, split⟩ := List.append_of_mem inside
    rw [lines, split, List.flatMap_append, List.flatMap_cons]
    exact (List.sublist_append_left _ _).trans
      ((List.sublist_append_right _ _).trans (List.sublist_append_right _ _))
  have short := (part.filter (Line.isAbout [t, key])).length_le
  rw [alone, ((sound.blocks b inside).filter_head (plain.blocks b inside) head).1,
    List.length_map] at short
  exact short

/-- The blocks below a key have no lines but those about it. -/
theorem flatMap_keep {bs : List Block} (sounds : ∀ b ∈ bs, b.Sound) :
    ((bs.filter fun b => !Assignment.isUnder [t, key] b.head).flatMap Block.lines).filter
      (Line.isApart t key) = (bs.flatMap Block.lines).filter (Line.isApart t key) := by
  induction bs with
  | nil => rfl
  | cons b bs ih =>
      have rest := ih fun b' member => sounds b' (List.mem_cons_of_mem _ member)
      rw [List.flatMap_cons, List.filter_append]
      by_cases under : b.IsUnder [t, key]
      · have gone : ¬(!Assignment.isUnder [t, key] b.head) = true := by
          simpa [Block.IsUnder] using under
        rw [List.filter_cons, if_neg gone, rest, (sounds b List.mem_cons_self).filter_under under,
          List.nil_append]
      · have kept : (!Assignment.isUnder [t, key] b.head) = true := by
          simpa [Block.IsUnder] using under
        rw [List.filter_cons, if_pos kept, List.flatMap_cons, List.filter_append, rest]

/-- Blocks of other tables have no lines about a key. -/
theorem flatMap_other {bs : List Block} (sounds : ∀ b ∈ bs, b.Sound)
    (elsewhere : ∀ b ∈ bs, ¬b.IsUnder [t, key]) (other : ∀ b ∈ bs, b.head.body.key.names ≠ [t]) :
    (bs.flatMap Block.lines).filter (Line.isAbout [t, key]) = [] := by
  rw [List.filter_flatMap, List.flatMap_eq_nil_iff]
  intro b member
  exact ((sounds b member).filter_other (elsewhere b member) (other b member)).1

end Layout

end Gatekeeper.Toml
