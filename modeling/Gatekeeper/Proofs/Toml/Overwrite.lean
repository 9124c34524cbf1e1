import Gatekeeper.Proofs.Toml.Put

set_option autoImplicit false

/-!
# A string in the place of another one

Of two strings that are put at the same key, the second takes the place of the first, and the blanks
around it are those that the first one got: the document is the one that the second string alone
would have made (`Layout.put?_put?`). This holds of every way in which a table is written but one.
An inline table without fields may be *hollow*, with blanks, comments or line ends between its
braces. The first string leaves them after it, where they belong to its field, and the second one
takes the place of the whole field; so the document is that of the table without them
(`Document.tight`).
-/

namespace Gatekeeper.Toml

/-! ## Hollow tables -/

/-- Whether something stands between the braces of an inline table without fields. -/
def Inline.isHollow (t : Inline) : Bool := t.fields.isEmpty && !t.last.isEmpty

/-- An inline table with nothing between its braces if it has no fields. -/
def Inline.tight (t : Inline) : Inline := if t.fields.isEmpty then { t with last := [] } else t

/-- Whether a line gives a name a hollow table. -/
def Statement.isHollow (table : String) (s : Statement) : Bool :=
  match s.body with
  | .entry key _ (.inline t) => key.names == [table] && t.isHollow
  | _ => false

/-- A line with nothing between the braces of the table that it gives a name. -/
def Statement.tight (table : String) (s : Statement) : Statement :=
  match s.body with
  | .entry key before (.inline t) =>
    if key.names == [table] then { s with body := .entry key before (.inline t.tight) } else s
  | _ => s

/-- Whether a hollow table stands under a name. -/
def Layout.isHollow (table : String) (l : Layout) : Bool := l.top.any (Statement.isHollow table)

/-- The lines of a document with nothing between the braces of the table of a name. -/
def Layout.tight (table : String) (l : Layout) : Layout :=
  { l with top := l.top.map (Statement.tight table) }

/-- Whether a document has a hollow table under a name. -/
def Document.isHollow (table : String) (d : Document) : Bool :=
  (Layout.ofStatements d.statements).isHollow table

/-- A document with nothing between the braces of the table of a name, if that has no fields. -/
def Document.tight (table : String) (d : Document) : Document :=
  { d with statements := ((Layout.ofStatements d.statements).tight table).statements }

section Tight

variable {t : Inline} {table : String} {s : Statement} {l : Layout}

theorem Inline.tight_of_not (solid : t.isHollow = false) : t.tight = t := by
  obtain ⟨fields, comma, last⟩ := t
  cases fields with
  | cons f fields => rfl
  | nil =>
      cases last with
      | nil => rfl
      | cons c last => cases solid

theorem Inline.value?_tight (t : Inline) : t.tight.value? = t.value? := by
  unfold Inline.tight
  split <;> rfl

theorem Inline.Good.tight (good : t.Good) : t.tight.Good := by
  unfold Inline.tight
  split
  · exact ⟨good.fields, filler_nil, good.comma, fun _ _ => rfl⟩
  · exact good

theorem Statement.tight_of_names (other : s.body.key.names ≠ [table]) : s.tight table = s := by
  obtain ⟨lead, body, tail⟩ := s
  unfold Statement.tight
  split
  · next key before t body =>
    cases body
    exact if_neg fun own => other (beq_iff_eq.mp own)
  · rfl

theorem Statement.key_tight (table : String) (s : Statement) :
    (s.tight table).body.key = s.body.key := by
  obtain ⟨lead, body, tail⟩ := s
  unfold Statement.tight
  split
  · next key before t body =>
    cases body
    split <;> rfl
  · rfl

theorem Statement.tight_of_not (solid : s.isHollow table = false) : s.tight table = s := by
  obtain ⟨lead, body, tail⟩ := s
  unfold Statement.isHollow at solid
  unfold Statement.tight
  split
  · next key before t body =>
    cases body
    split
    · next own =>
      have solid : (key.names == [table] && t.isHollow) = false := solid
      rw [own, Bool.true_and] at solid
      rw [Inline.tight_of_not solid]
    · rfl
  · rfl

/-- What a line says does not depend on what stands between the braces. -/
theorem Statement.line_tight (path : List String) : (s.tight table).line path = s.line path := by
  obtain ⟨lead, body, tail⟩ := s
  unfold Statement.tight
  split
  · next key before t body =>
    cases body
    split
    · change Line.mk path (.puts key.names t.tight.value?) = Line.mk path (.puts key.names t.value?)
      rw [Inline.value?_tight]
    · rfl
  · rfl

theorem Statement.IsEntry.tight (entry : s.IsEntry) : (s.tight table).IsEntry := by
  have goodKey := entry.goodKey
  have filler := entry.good.lead
  have goodValue := entry.good.value
  unfold Statement.tight
  split
  · next key before t body =>
    split
    · rw [body] at goodKey
      obtain ⟨blank, good, trail⟩ := goodValue key before _ body
      exact ⟨Statement.good_inline filler goodKey ⟨blank, good.tight, trail⟩, rfl⟩
    · exact entry
  · exact entry

theorem Layout.tight_of_not (solid : l.isHollow table = false) : l.tight table = l := by
  have each : ∀ s ∈ l.top, s.tight table = s := fun s member =>
    Statement.tight_of_not (by simpa using List.any_eq_false.mp solid s member)
  rw [Layout.tight, List.map_congr_left each, List.map_id']

/-- Where a table is not inline, there are no braces. -/
theorem Layout.isHollow_of_names (other : ∀ s ∈ l.top, s.body.key.names ≠ [table]) :
    l.isHollow table = false := by
  refine List.any_eq_false.mpr fun s member hollow => other s member ?_
  unfold Statement.isHollow at hollow
  split at hollow
  · next key before t body =>
    rw [body]
    exact beq_iff_eq.mp (Bool.and_eq_true_iff.mp hollow).1
  · cases hollow

theorem Layout.any_names_tight (table : String) (l : Layout) :
    ((l.tight table).top.any fun s => s.body.key.names == [table]) =
      l.top.any fun s => s.body.key.names == [table] := by
  have keys : ((fun s : Statement => s.body.key.names == [table]) ∘ Statement.tight table) =
      fun s => s.body.key.names == [table] := by
    funext s
    rw [Function.comp_apply, Statement.key_tight]
  rw [Layout.tight, List.any_map, keys]

theorem Layout.lines_tight (table : String) (l : Layout) : (l.tight table).lines = l.lines := by
  have each : ∀ s ∈ l.top, (Statement.line [] ∘ Statement.tight table) s = s.line [] :=
    fun s _ => Statement.line_tight []
  rw [Layout.lines, Layout.tight, List.map_map, List.map_congr_left each]
  rfl

theorem Layout.Sound.tight (sound : l.Sound) (table : String) : (l.tight table).Sound := by
  refine ⟨fun s member => ?_, sound.blocks⟩
  obtain ⟨s, inside, rfl⟩ := List.mem_map.mp member
  exact (sound.top s inside).tight

end Tight

/-! ## Lines -/

namespace Assignment

/-- The same key with another value. -/
def withValue (a : Assignment) (value : String) : Assignment := { a with value }

/-- The value in all lines about a key. -/
def overwrite (a : Assignment) (path : List String) (ss : List Statement) : List Statement :=
  ss.map fun s => if s.body.key.names == path then a.replace s else s

section Lines

variable {a b : Assignment} {path : List String} {s : Statement} {ss before after : List Statement}
  {value : String}

theorem key_replace (a : Assignment) (s : Statement) : (a.replace s).body.key = s.body.key := by
  obtain ⟨lead, body, tail⟩ := s
  cases body <;> rfl

theorem replace_replace (a b : Assignment) (s : Statement) :
    b.replace (a.replace s) = b.replace s := by
  obtain ⟨lead, body, tail⟩ := s
  cases body <;> rfl

theorem overwrite_overwrite (a b : Assignment) (path : List String) (ss : List Statement) :
    b.overwrite path (a.overwrite path ss) = b.overwrite path ss := by
  rw [overwrite, overwrite, overwrite, List.map_map]
  refine List.map_congr_left fun s _ => ?_
  by_cases own : (s.body.key.names == path) = true
  · simp only [Function.comp_apply, if_pos own, key_replace, replace_replace]
  · simp only [Function.comp_apply, if_neg own]

/-- Lines about other keys stay. -/
theorem overwrite_others (none_ : ∀ s ∈ ss, isUnder path s = false) : a.overwrite path ss = ss := by
  refine (List.map_congr_left fun s member => if_neg fun own => ?_).trans (List.map_id' ss)
  have under := Statement.isUnder_of_names (beq_iff_eq.mp own)
  rw [none_ s member] at under
  cases under

/-- The only line about a key. -/
theorem overwrite_around (noneBefore : ∀ s ∈ before, isUnder path s = false)
    (noneAfter : ∀ s ∈ after, isUnder path s = false) (own : s.body.key.names = path) :
    a.overwrite path (before ++ s :: after) = before ++ a.replace s :: after := by
  have rest := overwrite_others (a := a) noneAfter
  have first := overwrite_others (a := a) noneBefore
  rw [overwrite] at rest first ⊢
  rw [List.map_append, List.map_cons, first, rest, if_pos (beq_iff_eq.mpr own)]

theorem putInLines?_of_mem (member : s ∈ ss) (own : s.body.key.names = path) :
    a.putInLines? path ss = some (a.overwrite path ss) := by
  have any : (ss.any fun s => s.body.key.names == path) = true :=
    List.any_eq_true.mpr ⟨s, member, beq_iff_eq.mpr own⟩
  exact if_pos any

theorem isUnder_of_putInLines? (no : a.putInLines? path ss = none) :
    ∀ s ∈ ss, isUnder path s = false := by
  unfold putInLines? at no
  split at no
  · cases no
  · split at no
    · next nothing =>
      exact fun s member => by simpa using List.dropWhile_eq_nil_iff.mp nothing s member
    · cases no

/-- **In the lines of a table** a value goes where another one has gone. -/
theorem putInLines?_overwrite (nonempty : path ≠ []) (entries : ∀ s ∈ ss, s.IsEntry)
    (a b : Assignment) :
    b.putInLines? path ss = (a.putInLines? path ss).map (b.overwrite path) := by
  unfold putInLines?
  split
  · exact congrArg some (overwrite_overwrite a b path ss).symm
  · split
    · rfl
    · next s rest split =>
      obtain ⟨member, under⟩ := mem_of_dropWhile split
      have own := (puts_shorten (a := a) (entries s member) nonempty under).names
      have around := @overwrite_around b path (a.line [] (shorten s.body.key path.length))
        (ss.takeWhile fun s => !isUnder path s) (rest.filter fun s => !isUnder path s)
        (fun s inside => by simpa using List.mem_takeWhile_imp inside)
        (fun s inside => by simpa using (List.mem_filter.mp inside).2) own
      exact congrArg some around.symm

theorem inherit?_overwrite (a b : Assignment) (above : Key) (heads : List Key) :
    b.inherit? above heads = (a.inherit? above heads).map b.replace := by
  unfold inherit?
  split
  · rfl
  · next head rest _ => cases head[1]? <;> rfl
  · rfl

/-- The line for the value where no line of the table is about the key. -/
theorem getD_inherit? (a : Assignment) (value : String) (above : Key) (heads : List Key) :
    ((a.withValue value).inherit? above heads).getD ((a.withValue value).newLine above) =
      (a.withValue value).replace ((a.inherit? above heads).getD (a.newLine above)) := by
  rw [inherit?_overwrite a]
  cases a.inherit? above heads <;> rfl

end Lines

/-! ## Tables with lines of their own -/

/-- The value in all lines about the key of the blocks of the table. -/
def overwriteBlocks (a : Assignment) (bs : List Block) : List Block :=
  bs.map fun b => if a.isHead b then { b with entries := a.overwrite [a.key] b.entries } else b

section Layout

variable {a : Assignment} {l l' : Layout} {b : Block} {bs : List Block} {cs : Children}

theorem overwriteBlocks_others (none_ : ∀ b ∈ bs, a.isHead b = false) :
    a.overwriteBlocks bs = bs := by
  refine (List.map_congr_left fun b member => if_neg ?_).trans (List.map_id' bs)
  rw [none_ b member]
  exact Bool.false_ne_true

/-- **Dotted keys**: a value goes where another one has gone. -/
theorem putDotted_withValue (sound : l.Sound) (dotted : ∃ s ∈ l.top, isUnder [a.table] s = true)
    (value : String) : (a.withValue value).putDotted l = { a.putDotted l with
      top := (a.withValue value).overwrite [a.table, a.key] (a.putDotted l).top } := by
  have lines := putInLines?_overwrite (List.cons_ne_nil a.table [a.key]) sound.top a
    (a.withValue value)
  have path : [(a.withValue value).table, (a.withValue value).key] = [a.table, a.key] := rfl
  rw [putDotted, putDotted, path, lines]
  cases put : a.putInLines? [a.table, a.key] l.top with
  | some top => rfl
  | none =>
      -- the new line is the only one with the key: those around it stay as they are
      have elsewhere := isUnder_of_putInLines? put
      have own := (puts_getD (a := a) sound (isAbove_dotted sound dotted)).names
      have around := @overwrite_around (a.withValue value) [a.table, a.key] _
        (l.top.reverse.dropWhile fun s => !isUnder [a.table] s).reverse
        (l.top.reverse.takeWhile fun s => !isUnder [a.table] s).reverse
        (fun s inside => elsewhere s (List.mem_reverse.mp
          ((List.dropWhile_sublist _).subset (List.mem_reverse.mp inside))))
        (fun s inside => elsewhere s (List.mem_reverse.mp
          ((List.takeWhile_sublist _).subset (List.mem_reverse.mp inside)))) own
      have line := getD_inherit? a value
        (((l.top.find? (isUnder [a.table])).bind fun s => s.body.key.head?).toList.map fun p =>
          { p with before := [] }) (a.heads l)
      rw [← line] at around
      exact congrArg (Layout.mk · (a.kept l)) around.symm

/-- The same among the entries of a header. -/
theorem putInEntries_withValue (sound : l.Sound) (entries : ∀ s ∈ b.entries, s.IsEntry)
    (value : String) : (a.withValue value).putInEntries l b = { a.putInEntries l b with
      entries := (a.withValue value).overwrite [a.key] (a.putInEntries l b).entries } := by
  have lines := putInLines?_overwrite (List.cons_ne_nil a.key []) entries a (a.withValue value)
  have key : [(a.withValue value).key] = [a.key] := rfl
  rw [putInEntries, putInEntries, key, lines]
  cases put : a.putInLines? [a.key] b.entries with
  | some ss => rfl
  | none =>
      have elsewhere := isUnder_of_putInLines? put
      have heads : (a.withValue value).heads l = a.heads l := rfl
      have atEnd {s : Statement} (own : s.body.key.names = [a.key]) :=
        @overwrite_around (a.withValue value) [a.key] s b.entries [] elsewhere
          (List.forall_mem_nil _) own
      rw [Option.map_none, heads, inherit?_overwrite a]
      cases line : a.inherit? [] (a.heads l) with
      | none =>
          have own := (puts_newLine (a := a) Key.isAbove_nil).names
          exact congrArg (Block.mk b.head) (atEnd own).symm
      | some s =>
          obtain ⟨good, under⟩ := heads_below sound a
          have own := (puts_inherit Key.isAbove_nil good under line).names
          have atStart := @overwrite_around (a.withValue value) [a.key] s [] b.entries
            (List.forall_mem_nil _) elsewhere own
          have where_ (early : Bool) :
              (if early then (a.withValue value).replace s :: b.entries
                else b.entries ++ [(a.withValue value).replace s]) =
              (a.withValue value).overwrite [a.key]
                (if early then s :: b.entries else b.entries ++ [s]) := by
            cases early with
            | true => exact atStart.symm
            | false => exact (atEnd own).symm
          exact congrArg (Block.mk b.head) (where_ _)

theorem head_putInEntries (a : Assignment) (l : Layout) (b : Block) :
    (a.putInEntries l b).head = b.head := by
  unfold putInEntries
  split <;> rfl

/-- **A table with a header**: a value goes where another one has gone. -/
theorem putInBlock_withValue (sound : l.Sound) (value : String) :
    (a.withValue value).putInBlock l = { a.putInBlock l with
      blocks := (a.withValue value).overwriteBlocks (a.putInBlock l).blocks } := by
  refine congrArg (Layout.mk l.top) ?_
  change (a.kept l).map _ = ((a.kept l).map _).map _
  rw [List.map_map]
  refine List.map_congr_left fun b member => ?_
  have heads (b : Block) : (a.withValue value).isHead b = a.isHead b := rfl
  by_cases head : a.isHead b = true
  · have head' : a.isHead (a.putInEntries l b) = true := by
      rw [isHead, head_putInEntries]
      exact head
    rw [Function.comp_apply, heads, if_pos head, if_pos head, heads, if_pos head']
    exact putInEntries_withValue sound (sound.blocks b (mem_kept.mp member).1).entries value
  · rw [Function.comp_apply, heads, if_neg head, if_neg head, heads, if_neg head]

/-- The only block of the table. -/
theorem overwriteBlocks_around {before after : List Block}
    (noneBefore : ∀ b ∈ before, a.isHead b = false)
    (noneAfter : ∀ b ∈ after, a.isHead b = false) (head : a.isHead b = true) :
    a.overwriteBlocks (before ++ b :: after) =
      before ++ { b with entries := a.overwrite [a.key] b.entries } :: after := by
  have rest := overwriteBlocks_others noneAfter
  have first := overwriteBlocks_others noneBefore
  rw [overwriteBlocks] at rest first ⊢
  rw [List.map_append, List.map_cons, first, rest, if_pos head]

theorem overwrite_singleton {path : List String} {s : Statement} (own : s.body.key.names = path) :
    a.overwrite path [s] = [a.replace s] :=
  @overwrite_around a path s [] [] nofun nofun own

/-- **A new header** is where it is whatever the value. -/
theorem exists_putInNewBlock (sound : l.Sound) (a : Assignment) :
    ∃ before head after s, (∀ b ∈ before, b ∈ a.kept l) ∧ (∀ b ∈ after, b ∈ a.kept l) ∧
      head.body.key.names = [a.table] ∧ s.body.key.names = [a.key] ∧
      ∀ value, (a.withValue value).putInNewBlock l =
        ⟨l.top, before ++ ⟨head, [(a.withValue value).replace s]⟩ :: after⟩ := by
  let number := Outline.numberBefore a.table l.statements
  let keep := fun b => !a.isBlockUnder b
  have parts : (l.blocks.take number).filter keep ++ (l.blocks.drop number).filter keep =
      a.kept l := by
    rw [← List.filter_append, List.take_append_drop]
    rfl
  refine ⟨(l.blocks.take number).filter keep,
    { lead := if l.top.isEmpty && number = 0 then [] else ['\n']
      body := .header false [a.newName l] },
    (l.blocks.drop number).filter keep, (a.inherit? [] (a.heads l)).getD (a.newLine []),
    fun b inside => ?_, fun b inside => ?_, congrArg (· :: []) (good_newName sound a).2,
    (puts_getD (a := a) sound Key.isAbove_nil).names, fun value => ?_⟩
  · rw [← parts]
    exact List.mem_append_left _ inside
  · rw [← parts]
    exact List.mem_append_right _ inside
  · rw [← getD_inherit?]
    rfl

/-! ## The second value -/

theorem not_isBlockUnder (kept : b ∈ a.kept l) : (!a.isBlockUnder b) = true :=
  (List.mem_filter.mp kept).2

/-- Where no tables are below the key and the table has a line about it, the line gets the value. -/
theorem putInBlock_of_mem (kept : ∀ b ∈ l.blocks, (!a.isBlockUnder b) = true)
    (put : ∀ b ∈ l.blocks, a.isHead b = true → ∃ s ∈ b.entries, s.body.key.names = [a.key]) :
    a.putInBlock l = { l with blocks := a.overwriteBlocks l.blocks } := by
  have all : a.kept l = l.blocks := List.filter_eq_self.mpr kept
  refine congrArg (Layout.mk l.top) ?_
  rw [all]
  refine List.map_congr_left fun b member => ?_
  by_cases head : a.isHead b = true
  · obtain ⟨s, inside, own⟩ := put b member head
    rw [if_pos head, if_pos head, putInEntries, putInLines?_of_mem inside own]
  · rw [if_neg head, if_neg head]

/-- **A second value at a dotted key.** -/
theorem putDotted_putDotted (sound : l.Sound) (plain : l.IsPlain a.table)
    (read : runAll Line.step [] l.lines = some cs)
    (dotted : ∃ s ∈ l.top, isUnder [a.table] s = true) (value : String) :
    (a.withValue value).putDotted (a.putDotted l) = (a.withValue value).putDotted l := by
  obtain ⟨top, put, puts⟩ := putDotted_eq sound plain read dotted
  obtain ⟨s, member, own⟩ := puts.exists_mem
  -- the tables below the key are gone, so there are none that might give way a second time
  have all : a.kept ⟨top, a.kept l⟩ = a.kept l :=
    List.filter_eq_self.mpr fun b inside => not_isBlockUnder inside
  have path : [(a.withValue value).table, (a.withValue value).key] = [a.table, a.key] := rfl
  rw [putDotted_withValue sound dotted, put, putDotted, path, putInLines?_of_mem member own.names]
  exact congrArg (Layout.mk _) all

theorem isUnder_putDotted (sound : l.Sound) (plain : l.IsPlain a.table)
    (read : runAll Line.step [] l.lines = some cs)
    (dotted : ∃ s ∈ l.top, isUnder [a.table] s = true) :
    (a.putDotted l).top.any (isUnder [a.table]) = true := by
  obtain ⟨top, put, puts⟩ := putDotted_eq sound plain read dotted
  obtain ⟨s, member, own⟩ := puts.exists_mem
  have under : isUnder [a.table] s = true := by
    rw [isUnder, own.names]
    exact List.isPrefixOf_iff_prefix.mpr ⟨[a.key], rfl⟩
  rw [put]
  exact List.any_eq_true.mpr ⟨s, member, under⟩

theorem isHead_putInBlock (head : l.blocks.any a.isHead = true) :
    (a.putInBlock l).blocks.any a.isHead = true := by
  obtain ⟨b, inside, own⟩ := List.any_eq_true.mp head
  have stays := mem_kept_of_isHead inside own
  refine List.any_eq_true.mpr ⟨_, List.mem_map_of_mem stays, ?_⟩
  rw [if_pos own, isHead, head_putInEntries]
  exact own

theorem isHead_putInNewBlock (sound : l.Sound) (a : Assignment) :
    (a.putInNewBlock l).blocks.any a.isHead = true := by
  obtain ⟨before, head, after, s, -, -, names, -, put⟩ := exists_putInNewBlock sound a
  have first : a.putInNewBlock l = ⟨l.top, before ++ ⟨head, [a.replace s]⟩ :: after⟩ := put a.value
  rw [first]
  exact List.any_eq_true.mpr ⟨_, List.mem_append_right _ List.mem_cons_self, beq_iff_eq.mpr names⟩

/-- **A second value below a header.** -/
theorem putInBlock_putInBlock (sound : l.Sound) (plain : l.IsPlain a.table)
    (read : runAll Line.step [] l.lines = some cs) (value : String) :
    (a.withValue value).putInBlock (a.putInBlock l) = (a.withValue value).putInBlock l := by
  rw [putInBlock_withValue sound]
  refine putInBlock_of_mem (fun b' member => ?_) fun b' member head => ?_
  · obtain ⟨b, inside, rfl⟩ := List.mem_map.mp member
    have same : (if a.isHead b then a.putInEntries l b else b).head = b.head := by
      split
      · exact head_putInEntries a l b
      · rfl
    have stays := not_isBlockUnder inside
    rw [isBlockUnder, ← same] at stays
    exact stays
  · obtain ⟨b, inside, rfl⟩ := List.mem_map.mp member
    by_cases own : a.isHead b = true
    · have here := (mem_kept.mp inside).1
      obtain ⟨ss, put, puts⟩ := putInEntries_eq a sound (sound.blocks b here).entries
        fun s member name => sound.alone_block plain read here (beq_iff_eq.mp own) member name
      obtain ⟨s, member, line⟩ := puts.exists_mem
      rw [if_pos own, put]
      exact ⟨s, member, line.names⟩
    · rw [if_neg own] at head
      exact absurd head own

/-- **A second value below a new header.** -/
theorem putInBlock_putInNewBlock (sound : l.Sound) (noHead : ∀ b ∈ l.blocks, a.isHead b = false)
    (value : String) :
    (a.withValue value).putInBlock (a.putInNewBlock l) = (a.withValue value).putInNewBlock l := by
  obtain ⟨before, head, after, s, keptBefore, keptAfter, names, own, put⟩ :=
    exists_putInNewBlock sound a
  have first : a.putInNewBlock l = ⟨l.top, before ++ ⟨head, [a.replace s]⟩ :: after⟩ := put a.value
  have others (bs : List Block) (part : ∀ b ∈ bs, b ∈ a.kept l) : ∀ b ∈ bs, a.isHead b = false :=
    fun b inside => noHead b (mem_kept.mp (part b inside)).1
  have isHead : a.isHead ⟨head, [a.replace s]⟩ = true := beq_iff_eq.mpr names
  have own' : (a.replace s).body.key.names = [a.key] := by rw [key_replace, own]
  have settled : (a.withValue value).putInBlock (a.putInNewBlock l) = { a.putInNewBlock l with
      blocks := (a.withValue value).overwriteBlocks (a.putInNewBlock l).blocks } := by
    rw [first]
    refine putInBlock_of_mem (fun b member => ?_) fun b member isHead => ?_
    · rcases List.mem_append.mp member with inside | inside
      · exact not_isBlockUnder (keptBefore b inside)
      rcases List.mem_cons.mp inside with rfl | inside
      · rw [isBlockUnder, isUnder, withValue, names]
        simp
      · exact not_isBlockUnder (keptAfter b inside)
    · rcases List.mem_append.mp member with inside | inside
      · exact absurd isHead (Bool.eq_false_iff.mp (others before keptBefore b inside))
      rcases List.mem_cons.mp inside with rfl | inside
      · exact ⟨_, List.mem_singleton_self _, own'⟩
      · exact absurd isHead (Bool.eq_false_iff.mp (others after keptAfter b inside))
  have around := overwriteBlocks_around (a := a.withValue value) (others before keptBefore)
    (others after keptAfter) isHead
  have line : (a.withValue value).overwrite [a.key] [a.replace s] =
      [(a.withValue value).replace s] := by
    rw [overwrite_singleton own', replace_replace]
  rw [settled, put value, first, around]
  exact congrArg (fun ss => Layout.mk l.top (before ++ ⟨head, ss⟩ :: after)) line

end Layout

/-! ## Inline tables -/

section Inline

variable {a : Assignment} {t : Inline}

/-- A search finds the first element that it looks for. -/
theorem search_around {α : Type} {p : α → Bool} {before after : List α} {x : α}
    (noneBefore : ∀ y ∈ before, p y = false) (found : p x = true) :
    ((before ++ x :: after).dropWhile fun y => !p y) = x :: after ∧
      ((before ++ x :: after).takeWhile fun y => !p y) = before := by
  have passed : ∀ y ∈ before, (!p y) = true := fun y member => by simp [noneBefore y member]
  have stop : ¬(!p x) = true := by simp [found]
  rw [List.dropWhile_append_of_pos passed, List.takeWhile_append_of_pos passed,
    List.dropWhile_cons, List.takeWhile_cons, if_neg stop, if_neg stop, List.append_nil]
  exact ⟨rfl, rfl⟩

/-- The key of a field stays where a value takes the place of another one. -/
theorem putInline_around {before after : List Field} {f : Field}
    (noneBefore : ∀ f ∈ before, a.isFieldUnder f = false) (own : a.isFieldUnder f = true)
    (noneAfter : ∀ f ∈ after, a.isFieldUnder f = false) (single : f.key.length = 1)
    (comma : Bool) (last : List Char) :
    a.putInline ⟨before ++ f :: after, comma, last⟩ =
      ⟨before ++ a.fieldOf f.key after.isEmpty :: after, comma, last⟩ := by
  obtain ⟨drop, take⟩ := @search_around _ a.isFieldUnder before after f noneBefore own
  have rest : (after.filter fun f => !a.isFieldUnder f) = after :=
    List.filter_eq_self.mpr fun f member => by simp [noneAfter f member]
  have key : fieldKey f = f.key := if_pos (by simp [single])
  rw [putInline]
  simp only [drop, take, rest, key]

theorem length_fieldKey {f : Field} (own : a.isFieldUnder f = true) : (fieldKey f).length = 1 := by
  rw [isFieldUnder] at own
  rw [fieldKey]
  generalize f.key = key at own
  cases key with
  | nil => cases own
  | cons p rest => cases rest <;> rfl

/-- Where no field is about the key, there is one more. -/
theorem putInline_append (no : ∀ f ∈ t.fields, a.isFieldUnder f = false) :
    a.putInline t = if t.comma then { t with fields := t.fields ++ [a.newField] }
      else ⟨t.fields ++ [{ a.newField with after := [' '] ++ t.last }], t.comma, []⟩ := by
  have nothing : (t.fields.dropWhile fun f => !a.isFieldUnder f) = [] :=
    List.dropWhile_eq_nil_iff.mpr fun f member => by simp [no f member]
  rw [putInline, nothing]
  rfl

/-- Where a field is about the key, it gets the value. -/
theorem putInline_cons {f : Field} {rest : List Field}
    (split : (t.fields.dropWhile fun f => !a.isFieldUnder f) = f :: rest) :
    a.putInline t = ⟨(t.fields.takeWhile fun f => !a.isFieldUnder f) ++
      a.fieldOf (fieldKey f) (rest.filter fun f => !a.isFieldUnder f).isEmpty ::
        (rest.filter fun f => !a.isFieldUnder f), t.comma, t.last⟩ := by
  rw [putInline, split]

/-- A new field is about the key. -/
theorem isFieldUnder_newField (a : Assignment) (after : List Char) :
    a.isFieldUnder { a.newField with after } = true :=
  beq_self_eq_true (some a.key)

/-- **A second value in an inline table.** What stood between the braces of a hollow one is gone. -/
theorem putInline_putInline (good : t.Good) (value : String) :
    (a.withValue value).putInline (a.putInline t) = (a.withValue value).putInline t.tight := by
  cases split : t.fields.dropWhile fun f => !a.isFieldUnder f with
  | nil =>
      have no : ∀ f ∈ t.fields, a.isFieldUnder f = false := fun f member => by
        simpa using List.dropWhile_eq_nil_iff.mp split f member
      have again (after : List Char) := @putInline_around (a.withValue value) t.fields []
        { a.newField with after } no (isFieldUnder_newField a after) nofun rfl t.comma
      by_cases comma : t.comma = true
      · have tight : t.tight = t := if_neg (by simpa using good.comma comma)
        rw [tight, putInline_append no, if_pos comma, putInline_append (a := a.withValue value) no,
          if_pos comma]
        exact again [' '] t.last
      · -- with fields but without a comma there is nothing before the brace
        have tight : t.tight = { t with last := [] } := by
          unfold Inline.tight
          split
          · rfl
          · next fields =>
            have last := good.bare (Bool.not_eq_true _ ▸ comma) (by simpa using fields)
            rw [← last]
        have alone := @putInline_append (a.withValue value) { t with last := [] } no
        rw [tight, putInline_append no, if_neg comma, alone, if_neg comma]
        exact again ([' '] ++ t.last) []
  | cons f rest =>
      obtain ⟨member, own⟩ := mem_of_dropWhile split
      obtain ⟨-, -, -, names⟩ := good_fieldKey (good.fields f member) own
      have tight : t.tight = t := if_neg (by simpa using List.ne_nil_of_mem member)
      have new : a.isFieldUnder (a.fieldOf (fieldKey f)
          (rest.filter fun f => !a.isFieldUnder f).isEmpty) = true := by
        rw [isFieldUnder, fieldOf, names]
        exact beq_self_eq_true _
      have alone := @putInline_cons (a.withValue value) t f rest split
      rw [putInline_cons split, tight, alone]
      have noneBefore : ∀ f ∈ t.fields.takeWhile fun f => !a.isFieldUnder f,
          a.isFieldUnder f = false := fun f inside => by
        have passed := @List.mem_takeWhile_imp _ (fun f => !a.isFieldUnder f) _ _ inside
        simpa using passed
      have noneAfter : ∀ f ∈ rest.filter fun f => !a.isFieldUnder f, a.isFieldUnder f = false :=
        fun f inside => by simpa using (List.mem_filter.mp inside).2
      exact putInline_around (a := a.withValue value) noneBefore new noneAfter (length_fieldKey own)
        t.comma t.last

theorem isHollow_putInline (good : t.Good) : (a.putInline t).isHollow = false := by
  obtain ⟨f, -, only⟩ := (putInline_spec (a := a) good).2.put
  have some_ : (a.putInline t).fields ≠ [] := fun nothing => by
    rw [nothing] at only
    cases only
  rw [Inline.isHollow, List.isEmpty_eq_false_iff.mpr some_, Bool.false_and]

/-- A line with the value in its inline table. -/
structure PutsInline (a : Assignment) (s s' : Statement) : Prop where
  key : s'.body.key = s.body.key
  solid : s'.isHollow a.table = false
  again : ∀ value, (a.withValue value).putInStatement? s' =
    (a.withValue value).putInStatement? (s.tight a.table)

theorem putsInline_of_put {s s' : Statement} (entry : s.IsEntry)
    (put : a.putInStatement? s = some s') : a.PutsInline s s' := by
  by_cases own : s.body.key.names = [a.table]
  · have goodValue := entry.good.value
    have header := entry.entry
    obtain ⟨lead, body, tail⟩ := s
    rw [putInStatement?, if_pos (beq_iff_eq.mpr own)] at put
    cases body with
    | header array key => cases header
    | entry key before value =>
        cases value with
        | plain text v => cases put
        | inline t =>
            cases put
            have good := (goodValue key before _ rfl).2.1
            have names : (key.names == [a.table]) = true := beq_iff_eq.mpr own
            refine ⟨rfl, ?_, fun value => ?_⟩
            · change (key.names == [a.table] && (a.putInline t).isHollow) = false
              rw [isHollow_putInline good, Bool.and_false]
            · have tight : Statement.tight a.table ⟨lead, .entry key before (.inline t), tail⟩ =
                  ⟨lead, .entry key before (.inline t.tight), tail⟩ := if_pos names
              have puts (t : Inline) :
                  (a.withValue value).putInStatement? ⟨lead, .entry key before (.inline t), tail⟩ =
                    some ⟨lead, .entry key before (.inline ((a.withValue value).putInline t)),
                      tail⟩ :=
                if_pos names
              rw [tight, puts, puts, putInline_putInline good]
  · have same : s' = s := by
      rw [putInStatement?, if_neg (by simpa using own)] at put
      exact (Option.some.inj put).symm
    subst same
    have solid : s'.isHollow a.table = false := by
      unfold Statement.isHollow
      split
      · next key before t body =>
        have other : key.names ≠ [a.table] := fun names => own (body ▸ names)
        rw [beq_eq_false_iff_ne.mpr other, Bool.false_and]
      · rfl
    exact ⟨rfl, solid, fun value => by rw [Statement.tight_of_names own]⟩

/-- The lines before the first header, one of them with the value in its inline table. -/
theorem putsInline_of_mapM {ss ss' : List Statement} (entries : ∀ s ∈ ss, s.IsEntry)
    (put : ss.mapM a.putInStatement? = some ss') : List.Forall₂ a.PutsInline ss ss' := by
  induction ss generalizing ss' with
  | nil =>
      cases put
      exact .nil
  | cons s ss ih =>
      rw [List.mapM_cons] at put
      obtain ⟨s', first, put⟩ := Option.bind_eq_some_iff.mp put
      obtain ⟨rest, later, same⟩ := Option.bind_eq_some_iff.mp put
      cases same
      exact .cons (putsInline_of_put (entries s List.mem_cons_self) first)
        (ih (fun s member => entries s (List.mem_cons_of_mem _ member)) later)

theorem putInStatement?_again {ss ss' : List Statement} (puts : List.Forall₂ a.PutsInline ss ss')
    (value : String) : ss'.mapM (a.withValue value).putInStatement? =
      (ss.map (Statement.tight a.table)).mapM (a.withValue value).putInStatement? := by
  induction puts with
  | nil => rfl
  | cons first later ih => rw [List.map_cons, List.mapM_cons, List.mapM_cons, first.again value, ih]

theorem any_of_putsInline {ss ss' : List Statement} (puts : List.Forall₂ a.PutsInline ss ss') :
    (ss'.any fun s => s.body.key.names == [a.table]) =
      ss.any fun s => s.body.key.names == [a.table] := by
  induction puts with
  | nil => rfl
  | cons first later ih => rw [List.any_cons, List.any_cons, first.key, ih]

theorem any_isHollow {ss ss' : List Statement} (puts : List.Forall₂ a.PutsInline ss ss') :
    ss'.any (Statement.isHollow a.table) = false := by
  induction puts with
  | nil => rfl
  | cons first later ih => rw [List.any_cons, first.solid, ih, Bool.false_or]

/-! ### What a hollow table makes of it -/

/-- What stood between the braces comes after the first value. -/
theorem putInline_tight_ne (hollow : t.isHollow = true) : a.putInline t.tight ≠ a.putInline t := by
  obtain ⟨fields, comma, last⟩ := t
  obtain ⟨empty, gap⟩ := Bool.and_eq_true_iff.mp hollow
  obtain rfl : fields = [] := List.isEmpty_iff.mp empty
  have some_ : last ≠ [] := by simpa using gap
  intro same
  cases comma with
  | true => exact some_ (Inline.mk.inj same).2.2.symm
  | false =>
      obtain ⟨alone, -⟩ := List.cons.inj (Inline.mk.inj same).1
      exact some_ (List.cons.inj (Field.mk.inj alone).2.2.2.2).2.symm

theorem putInStatement?_tight_ne {s : Statement} (hollow : s.isHollow a.table = true) :
    a.putInStatement? (s.tight a.table) ≠ a.putInStatement? s := by
  obtain ⟨lead, body, tail⟩ := s
  unfold Statement.isHollow at hollow
  split at hollow
  · next key before t body =>
    cases body
    obtain ⟨names, hollow⟩ := Bool.and_eq_true_iff.mp hollow
    have tight : Statement.tight a.table ⟨lead, .entry key before (.inline t), tail⟩ =
        ⟨lead, .entry key before (.inline t.tight), tail⟩ := if_pos names
    have puts (t : Inline) : a.putInStatement? ⟨lead, .entry key before (.inline t), tail⟩ =
        some ⟨lead, .entry key before (.inline (a.putInline t)), tail⟩ := if_pos names
    rw [tight, puts, puts]
    intro same
    have bodies := (Statement.mk.inj (Option.some.inj same)).2.1
    exact putInline_tight_ne hollow (Written.inline.inj (Body.entry.inj bodies).2.2)
  · cases hollow

theorem mapM_tight_ne {ss ss' : List Statement}
    (hollow : ss.any (Statement.isHollow a.table) = true)
    (put : ss.mapM a.putInStatement? = some ss') :
    (ss.map (Statement.tight a.table)).mapM a.putInStatement? ≠ some ss' := by
  induction ss generalizing ss' with
  | nil => cases hollow
  | cons s ss ih =>
      intro put'
      rw [List.mapM_cons] at put
      rw [List.map_cons, List.mapM_cons] at put'
      obtain ⟨x, first, put⟩ := Option.bind_eq_some_iff.mp put
      obtain ⟨rest, later, same⟩ := Option.bind_eq_some_iff.mp put
      obtain ⟨x', first', put'⟩ := Option.bind_eq_some_iff.mp put'
      obtain ⟨rest', later', same'⟩ := Option.bind_eq_some_iff.mp put'
      cases same
      cases same'
      rcases Bool.or_eq_true_iff.mp hollow with here | behind
      · exact putInStatement?_tight_ne here (first'.trans first.symm)
      · exact ih behind later later'

end Inline

end Assignment

/-! ## Documents -/

namespace Layout

variable {a : Assignment} {l l' : Layout} {cs : Children}

theorem not_any_names (plain : l.IsPlain a.table) :
    ¬(l.top.any fun s => s.body.key.names == [a.table]) = true := by
  rw [List.any_eq_true]
  rintro ⟨s, member, names⟩
  exact plain.top s member (beq_iff_eq.mp names)

theorem not_any_isArrayHead (plain : l.IsPlain a.table) : ¬l.blocks.any a.isArrayHead = true := by
  rw [List.any_eq_true]
  rintro ⟨b, member, array⟩
  unfold Assignment.isArrayHead at array
  split at array
  · next key body => exact plain.blocks b member key body (beq_iff_eq.mp array)
  · cases array

section Plain

variable (plain : l.IsPlain a.table)
include plain

theorem put?_of_isPlain :
    a.put? l = if l.top.any (Assignment.isUnder [a.table]) then some (a.putDotted l)
      else if l.blocks.any a.isHead then some (a.putInBlock l) else some (a.putInNewBlock l) := by
  rw [Assignment.put?, if_neg (not_any_names plain), if_neg (not_any_isArrayHead plain)]

theorem put?_dotted (dotted : l.top.any (Assignment.isUnder [a.table]) = true) :
    a.put? l = some (a.putDotted l) := by
  rw [put?_of_isPlain plain, if_pos dotted]

theorem put?_block (dotted : ¬l.top.any (Assignment.isUnder [a.table]) = true)
    (head : l.blocks.any a.isHead = true) : a.put? l = some (a.putInBlock l) := by
  rw [put?_of_isPlain plain, if_neg dotted, if_pos head]

theorem put?_newBlock (dotted : ¬l.top.any (Assignment.isUnder [a.table]) = true)
    (head : ¬l.blocks.any a.isHead = true) : a.put? l = some (a.putInNewBlock l) := by
  rw [put?_of_isPlain plain, if_neg dotted, if_neg head]

/-- **A second value where the table has lines of its own.** -/
theorem put?_put?_plain (sound : l.Sound) (read : runAll Line.step [] l.lines = some cs)
    (put : a.put? l = some l') : l'.IsPlain a.table ∧
      ∀ value, (a.withValue value).put? l' = (a.withValue value).put? l := by
  by_cases dotted : l.top.any (Assignment.isUnder [a.table]) = true
  · -- the first value leaves a line with the key among the dotted ones
    rw [put?_dotted plain dotted] at put
    cases put
    have some_ := List.any_eq_true.mp dotted
    have plain' := (Assignment.edited_putDotted sound plain read some_).plain
    refine ⟨plain', fun value => ?_⟩
    calc (a.withValue value).put? (a.putDotted l)
        = some ((a.withValue value).putDotted (a.putDotted l)) :=
          put?_dotted (a := a.withValue value) plain'
            (Assignment.isUnder_putDotted sound plain read some_)
      _ = some ((a.withValue value).putDotted l) :=
          congrArg some (Assignment.putDotted_putDotted sound plain read some_ value)
      _ = (a.withValue value).put? l := (put?_dotted (a := a.withValue value) plain dotted).symm
  have noDotted : ∀ s ∈ l.top, Assignment.isUnder [a.table] s = false := fun s member =>
    Bool.eq_false_iff.mpr fun under => dotted (List.any_eq_true.mpr ⟨s, member, under⟩)
  by_cases head : l.blocks.any a.isHead = true
  · -- it leaves a line with the key below the header
    rw [put?_block plain dotted head] at put
    cases put
    have plain' := (Assignment.edited_putInBlock sound plain read noDotted head).plain
    refine ⟨plain', fun value => ?_⟩
    calc (a.withValue value).put? (a.putInBlock l)
        = some ((a.withValue value).putInBlock (a.putInBlock l)) :=
          put?_block (a := a.withValue value) plain' dotted (Assignment.isHead_putInBlock head)
      _ = some ((a.withValue value).putInBlock l) :=
          congrArg some (Assignment.putInBlock_putInBlock sound plain read value)
      _ = (a.withValue value).put? l := (put?_block (a := a.withValue value) plain dotted head).symm
  · -- it leaves a header, and the second value comes below that
    rw [put?_newBlock plain dotted head] at put
    cases put
    have noHead : ∀ b ∈ l.blocks, a.isHead b = false := fun b member =>
      Bool.eq_false_iff.mpr fun own => head (List.any_eq_true.mpr ⟨b, member, own⟩)
    have plain' := (Assignment.edited_putInNewBlock sound plain noDotted fun b member names =>
      head (List.any_eq_true.mpr ⟨b, member, beq_iff_eq.mpr names⟩)).plain
    refine ⟨plain', fun value => ?_⟩
    calc (a.withValue value).put? (a.putInNewBlock l)
        = some ((a.withValue value).putInBlock (a.putInNewBlock l)) :=
          put?_block (a := a.withValue value) plain' dotted
            (Assignment.isHead_putInNewBlock sound a)
      _ = some ((a.withValue value).putInNewBlock l) :=
          congrArg some (Assignment.putInBlock_putInNewBlock sound noHead value)
      _ = (a.withValue value).put? l :=
          (put?_newBlock (a := a.withValue value) plain dotted head).symm

end Plain

/-- **A second value where the table is inline.** -/
theorem put?_put?_inline (sound : l.Sound)
    (inline : (l.top.any fun s => s.body.key.names == [a.table]) = true)
    (put : a.put? l = some l') : l'.isHollow a.table = false ∧
      ∀ value, (a.withValue value).put? l' = (a.withValue value).put? (l.tight a.table) := by
  have put?_eq {b : Assignment} {l : Layout}
      (inline : (l.top.any fun s => s.body.key.names == [b.table]) = true) :
      b.put? l = (l.top.mapM b.putInStatement?).map fun top => { l with top } := if_pos inline
  rw [put?_eq inline] at put
  obtain ⟨top, all, rfl⟩ := Option.map_eq_some_iff.mp put
  have puts := Assignment.putsInline_of_mapM sound.top all
  have inline' : (top.any fun s => s.body.key.names == [a.table]) = true :=
    (Assignment.any_of_putsInline puts).trans inline
  have tight := (any_names_tight a.table l).trans inline
  refine ⟨Assignment.any_isHollow puts, fun value => ?_⟩
  rw [put?_eq (b := a.withValue value) inline', put?_eq (b := a.withValue value) tight]
  exact congrArg (Option.map _) (Assignment.putInStatement?_again puts value)

/-- **The second value wins**, and it finds no hollow table. -/
theorem put?_put? (sound : l.Sound) (read : runAll Line.step [] l.lines = some cs)
    (put : a.put? l = some l') : l'.isHollow a.table = false ∧
      ∀ value, (a.withValue value).put? l' = (a.withValue value).put? (l.tight a.table) := by
  by_cases inline : (l.top.any fun s => s.body.key.names == [a.table]) = true
  · exact put?_put?_inline sound inline put
  by_cases array : l.blocks.any a.isArrayHead = true
  · rw [Assignment.put?, if_neg inline, if_pos array] at put
    cases put
  have plain : l.IsPlain a.table := isPlain_of_not inline array
  obtain ⟨plain', again⟩ := put?_put?_plain plain sound read put
  rw [tight_of_not (isHollow_of_names plain.top)]
  exact ⟨isHollow_of_names plain'.top, again⟩

/-- A hollow table is written differently with a value than one with nothing between the braces. -/
theorem put?_tight_ne (hollow : l.isHollow a.table = true) (put : a.put? l = some l') :
    a.put? (l.tight a.table) ≠ some l' := by
  have inline : (l.top.any fun s => s.body.key.names == [a.table]) = true := by
    rw [← Bool.not_eq_false]
    intro none_
    have other : ∀ s ∈ l.top, s.body.key.names ≠ [a.table] := fun s member => by
      simpa using List.any_eq_false.mp none_ s member
    rw [isHollow_of_names other] at hollow
    cases hollow
  rw [Assignment.put?, if_pos inline] at put
  obtain ⟨top, all, rfl⟩ := Option.map_eq_some_iff.mp put
  rw [Assignment.put?, any_names_tight, if_pos inline]
  intro same
  obtain ⟨top', all', same⟩ := Option.map_eq_some_iff.mp same
  cases same
  exact Assignment.mapM_tight_ne hollow all all'

/-! ### Lines and documents -/

theorem ofStatements_append {ss : List Statement} (entries : ∀ s ∈ ss, s.IsEntry)
    (later : List Statement) : ofStatements (ss ++ later) =
      ⟨ss ++ (ofStatements later).top, (ofStatements later).blocks⟩ := by
  induction ss with
  | nil => rfl
  | cons s ss ih =>
      have entry : ¬s.body.isHeader = true := by simp [(entries s List.mem_cons_self).entry]
      rw [List.cons_append, ofStatements_cons, if_neg entry,
        ih fun s member => entries s (List.mem_cons_of_mem _ member)]
      rfl

theorem ofStatements_blocks {bs : List Block} (sound : ∀ b ∈ bs, b.Sound) :
    ofStatements (bs.flatMap fun b => b.head :: b.entries) = ⟨[], bs⟩ := by
  induction bs with
  | nil => rfl
  | cons b bs ih =>
      have first := sound b List.mem_cons_self
      rw [List.flatMap_cons, List.cons_append, ofStatements_cons, if_pos first.head.header,
        ofStatements_append first.entries,
        ih fun b member => sound b (List.mem_cons_of_mem _ member), List.append_nil]

/-- What an edited layout consists of. -/
theorem sound_of_put? (sound : l.Sound) (read : runAll Line.step [] l.lines = some cs)
    (put : a.put? l = some l') : l'.Sound := by
  obtain ⟨l'', cs', inner', put', sound', -, -⟩ := put?_setsIn sound read fun v stands =>
    table_of_put? sound read put stands
  rw [put] at put'
  cases put'
  exact sound'

/-- The lines by table are found again in the document. -/
theorem ofStatements_statements (sound : l.Sound) : ofStatements l.statements = l := by
  rw [statements, ofStatements_append sound.top, ofStatements_blocks sound.blocks, List.append_nil]

end Layout

namespace Document

variable {d d' : Document} {s : List Char} {fields : List (String × Value)}
  {table key value : String}

theorem tight_of_not (solid : d.isHollow table = false) : d.tight table = d := by
  rw [tight, Layout.tight_of_not solid, Layout.statements_ofStatements]

/-- What a document says does not depend on what stands between the braces. -/
theorem read?_tight (read : Document.read? s = some (d, fields)) (table : String) :
    Document.read? (d.tight table).render = some (d.tight table, fields) := by
  obtain ⟨good, sound, cs, run, made⟩ := run_of_read? read
  have sound' := sound.tight table
  have good' : (d.tight table).Good := ⟨sound'.good, good.rest⟩
  have meaning : (d.tight table).fields? = some fields := by
    have lines := Layout.fields?_eq sound' d.rest
    rw [Layout.lines_tight, run, Option.map_some, ← made] at lines
    exact lines
  rw [read?, good'.read, Option.bind_some, meaning]
  rfl

/-- **The second string wins**, and it finds no hollow table. -/
theorem putString?_putString? (read : Document.read? s = some (d, fields))
    (put : d.putString? table key value = some d') : d'.isHollow table = false ∧
      ∀ value, d'.putString? table key value = (d.tight table).putString? table key value := by
  obtain ⟨-, sound, cs, run, -⟩ := run_of_read? read
  obtain ⟨l', first, rfl⟩ := Option.map_eq_some_iff.mp put
  have sound' := Layout.sound_of_put? sound run first
  obtain ⟨solid, again⟩ := Layout.put?_put? sound run first
  refine ⟨?_, fun value => ?_⟩
  · rw [isHollow, Layout.ofStatements_statements sound']
    exact solid
  · rw [putString?, putString?, tight, Layout.ofStatements_statements sound',
      Layout.ofStatements_statements (sound.tight table)]
    exact congrArg (Option.map _) (again value)

/-- A document with a hollow table is written differently with a string than one with nothing
between the braces. -/
theorem putString?_tight_ne (read : Document.read? s = some (d, fields))
    (hollow : d.isHollow table = true) (put : d.putString? table key value = some d') :
    (d.tight table).putString? table key value ≠ some d' := by
  obtain ⟨-, sound, cs, run, -⟩ := run_of_read? read
  obtain ⟨l', first, rfl⟩ := Option.map_eq_some_iff.mp put
  intro both
  rw [putString?, tight, Layout.ofStatements_statements (sound.tight table)] at both
  obtain ⟨l'', second, same⟩ := Option.map_eq_some_iff.mp both
  have run' : runAll Line.step [] ((Layout.ofStatements d.statements).tight table).lines =
      some cs := by
    rw [Layout.lines_tight, run]
  have lines := congrArg (Layout.ofStatements ∘ Document.statements) same
  simp only [Function.comp_apply] at lines
  rw [Layout.ofStatements_statements (Layout.sound_of_put? sound run first),
    Layout.ofStatements_statements (Layout.sound_of_put? (sound.tight table) run' second)] at lines
  exact Layout.put?_tight_ne (a := ⟨table, key, value⟩) hollow first (lines ▸ second)

end Document

end Gatekeeper.Toml
