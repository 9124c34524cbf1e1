import Gatekeeper.Proofs.Toml.Layout
import Mathlib.Data.List.TakeWhile

set_option autoImplicit false

/-!
# Giving a key a string

The value is put in one line (`Assignment.Puts`): in that of the old value, in the place of dotted
keys or tables below the key, or in a new line. In whichever way the table is written, no other line
is about the key then, and all lines that are about other things stay (`Assignment.Edited`).
-/

namespace Gatekeeper.Toml

/-! ## Keys put together anew -/

section Key

variable {first : List Char} {key above : Key} {p : KeyPart}

/-- The blanks before the parts of a key. -/
theorem Key.Good.blank_before (good : key.Good first) (blank : Blank first) :
    ∀ p ∈ key, Blank p.before := by
  intro p member
  obtain ⟨rest, befores, between⟩ := good.spaced
  have inside : p.before ∈ first :: rest := befores ▸ List.mem_map_of_mem member
  rcases List.mem_cons.mp inside with same | later
  · exact same ▸ blank
  · exact between _ later

theorem Key.good_singleton (good : p.Good) : Key.Good p.before [p] where
  parts _ member := List.mem_singleton.mp member ▸ good
  spaced := ⟨[], rfl, nofun⟩

/-- One part more. -/
theorem Key.Good.snoc (good : key.Good first) (part : p.Good) (blank : Blank p.before) :
    Key.Good first (key ++ [p]) where
  parts q member := (List.mem_append.mp member).elim (good.parts q)
    fun last => List.mem_singleton.mp last ▸ part
  spaced := by
    rw [List.map_append]
    exact good.spaced.snoc blank

/-- A part with other blanks around it. -/
theorem KeyPart.Good.withBlanks (good : p.Good) {before after : List Char} (blank : Blank after) :
    KeyPart.Good { p with before, after } := ⟨good.token, blank⟩

theorem KeyPart.good_ofName (name : String) {before after : List Char} (blank : Blank after) :
    KeyPart.Good { KeyPart.ofName name with before, after } := ⟨isToken_ofName name, blank⟩

/-- A key that may stand above a new part, empty where the part is the whole key. -/
def Key.IsAbove (path : List String) (above : Key) : Prop :=
  above.names = path ∧ (above = [] ∨ above.Good [])

theorem Key.isAbove_nil : Key.IsAbove [] [] := ⟨rfl, .inl rfl⟩

/-- A key with a new part below another one. -/
theorem Key.IsAbove.snoc {path : List String} (above_ : above.IsAbove path) (part : p.Good)
    (start : p.before = []) :
    Key.Good [] (above ++ [p]) ∧ Key.names (above ++ [p]) = path ++ [p.name] := by
  obtain ⟨rfl, nothing | good⟩ := above_
  · subst nothing
    exact ⟨start ▸ Key.good_singleton part, rfl⟩
  · exact ⟨good.snoc part (start ▸ blank_nil), List.map_append⟩

/-- The first parts of a key, with a space after the last of them. -/
theorem Assignment.good_shorten (good : key.Good []) (n : Nat) :
    Key.Good [] (Assignment.shorten key (n + 1)) ∧
      Key.names (Assignment.shorten key (n + 1)) = key.names.take (n + 1) := by
  obtain ⟨rest, befores, between⟩ := good.spaced
  have nonempty : key.take (n + 1) ≠ [] := by
    intro nothing
    rcases List.take_eq_nil_iff.mp nothing with zero | empty
    · omega
    · rw [empty] at befores
      cases befores
  obtain ⟨init, last, split⟩ := (List.eq_nil_or_concat (key.take (n + 1))).resolve_left nonempty
  have short : Assignment.shorten key (n + 1) = init ++ [{ last with after := [' '] }] := by
    simp [Assignment.shorten, split]
  have member : ∀ p ∈ init ++ [last], p.Good := fun p inside => by
    rw [← List.concat_eq_append, ← split] at inside
    exact good.parts p (List.mem_of_mem_take inside)
  have befores' : (init ++ [last]).map (·.before) = [] :: rest.take n := by
    rw [← List.concat_eq_append, ← split, List.map_take, befores, List.take_succ_cons]
  rw [short]
  refine ⟨⟨fun p inside => ?_, rest.take n, ?_, fun b inside => ?_⟩, ?_⟩
  · rcases List.mem_append.mp inside with before | same
    · exact member p (List.mem_append_left _ before)
    · rw [List.mem_singleton.mp same]
      exact (member last (List.mem_append_right _ List.mem_cons_self)).withBlanks blank_space
  · rw [← befores', List.map_append, List.map_append]
    rfl
  · exact between b (List.mem_of_mem_take inside)
  · rw [Key.names, Key.names, ← List.map_take, split, List.concat_eq_append, List.map_append,
      List.map_append]
    rfl

/-- A key with two names at least has two parts. -/
theorem Key.second_of_prefix {t k : String} (under : [t, k] <+: key.names) :
    ∃ p q rest, key = p :: q :: rest ∧ q.name = k := by
  obtain ⟨rest, names⟩ := under
  match key, names with
  | p :: q :: rest, names =>
      obtain ⟨-, inner⟩ := List.cons.inj names
      exact ⟨p, q, rest, rfl, (List.cons.inj inner).1.symm⟩

/-- The key of an entry has no blanks before it. -/
theorem Statement.IsEntry.goodKey {s : Statement} (entry : s.IsEntry) : s.body.key.Good [] := by
  obtain ⟨first, good, -, blank⟩ := entry.good.key
  rw [blank entry.entry] at good
  exact good

end Key

/-! ## The line with the value -/

namespace Assignment

variable {a : Assignment} {path : List String} {lead : List Char} {key : Key} {s : Statement}

/-- Whether a statement gives the value to the key at a path. -/
def Puts (a : Assignment) (path : List String) (s : Statement) : Prop :=
  ∃ lead key, s = a.line lead key ∧ Filler lead ∧ key.Good [] ∧ key.names = path

theorem Puts.isEntry (puts : a.Puts path s) : s.IsEntry := by
  obtain ⟨lead, key, rfl, filler, good, -⟩ := puts
  refine ⟨?_, rfl⟩
  have quoted := Statement.good_entry filler good a.value.toList
  rw [String.ofList_toList] at quoted
  exact quoted

theorem Puts.names (puts : a.Puts path s) : s.body.key.names = path := by
  obtain ⟨lead, key, rfl, -, -, names⟩ := puts
  exact names

theorem Puts.isUnder (puts : a.Puts path s) : isUnder path s = true :=
  Statement.isUnder_of_names puts.names

theorem Puts.line_eq (puts : a.Puts path s) (table : List String) :
    s.line table = ⟨table, .puts path (some (.string a.value))⟩ := by
  obtain ⟨lead, key, rfl, -, -, rfl⟩ := puts
  rfl

/-- A line with another value for its key. -/
theorem puts_replace (entry : s.IsEntry) : a.Puts s.body.key.names (a.replace s) := by
  refine ⟨s.lead, s.body.key, ?_, entry.good.lead, entry.goodKey, rfl⟩
  obtain ⟨lead, body, tail⟩ := s
  cases body with
  | header array key => cases entry.entry
  | entry key before value => rfl

/-- A line for a key above that of another one. -/
theorem puts_shorten (entry : s.IsEntry) (nonempty : path ≠ []) (under : isUnder path s = true) :
    a.Puts path (a.line [] (shorten s.body.key path.length)) := by
  obtain ⟨first, rest, rfl⟩ := List.exists_cons_of_ne_nil nonempty
  obtain ⟨good, names⟩ := good_shorten entry.goodKey rest.length
  refine ⟨[], _, rfl, filler_nil, good, ?_⟩
  rw [List.length_cons, names]
  exact (List.prefix_iff_eq_take.mp (List.isPrefixOf_iff_prefix.mp under)).symm

/-- A new line. -/
theorem puts_newLine {above : Key} (isAbove : above.IsAbove path) :
    a.Puts (path ++ [a.key]) (a.newLine above) := by
  obtain ⟨good, names⟩ := isAbove.snoc (KeyPart.good_ofName a.key blank_space) rfl
  exact ⟨[], _, rfl, filler_nil, good, names⟩

/-- A line that takes the place of tables below the key. -/
theorem puts_inherit {above : Key} {heads : List Key} (isAbove : above.IsAbove path)
    (good : ∀ k ∈ heads, ∃ first, k.Good first ∧ Blank first)
    (under : ∀ k ∈ heads, [a.table, a.key] <+: k.names) (line : a.inherit? above heads = some s) :
    a.Puts (path ++ [a.key]) s := by
  unfold inherit? at line
  split at line
  · next table key found =>
    cases line
    have member := List.mem_of_find?_eq_some found
    obtain ⟨first, good, blank⟩ := good _ member
    obtain ⟨p, q, rest, same, name⟩ := Key.second_of_prefix (under _ member)
    cases same
    obtain ⟨goodKey, names⟩ := isAbove.snoc (p := { key with before := [] })
      ((good.parts key (List.mem_cons_of_mem _ List.mem_cons_self)).withBlanks
        (good.parts key (List.mem_cons_of_mem _ List.mem_cons_self)).after) rfl
    exact ⟨_, _, rfl, (good.blank_before blank table List.mem_cons_self).filler, goodKey,
      name ▸ names⟩
  · next head rest _ =>
    obtain ⟨first, good, blank⟩ := good head List.mem_cons_self
    obtain ⟨p, q, others, rfl, name⟩ := Key.second_of_prefix (under head List.mem_cons_self)
    cases line
    obtain ⟨goodKey, names⟩ := isAbove.snoc (p := { q with before := [], after := [' '] })
      ((good.parts q (List.mem_cons_of_mem _ List.mem_cons_self)).withBlanks blank_space) rfl
    exact ⟨_, _, rfl, filler_nil, goodKey, name ▸ names⟩
  · cases line

/-! ## Lines of one table -/

/-- Whether one line with the value takes the place of all lines of a table about the key. -/
structure PutsIn (a : Assignment) (path : List String) (ss ss' : List Statement) : Prop where
  put : ∃ s, a.Puts path s ∧ ss'.filter (isUnder path) = [s]
  kept : (ss'.filter fun s => !isUnder path s) = ss.filter fun s => !isUnder path s

variable {ss ss' before after : List Statement}

/-- The lines of the table are the one with the value and old ones. -/
theorem PutsIn.mem (puts : a.PutsIn path ss ss') (member : s ∈ ss') : a.Puts path s ∨ s ∈ ss := by
  by_cases under : isUnder path s = true
  · obtain ⟨x, puts, only⟩ := puts.put
    have inside : s ∈ ss'.filter (isUnder path) := List.mem_filter.mpr ⟨member, under⟩
    rw [only] at inside
    exact .inl (List.mem_singleton.mp inside ▸ puts)
  · have inside : s ∈ ss'.filter fun s => !isUnder path s :=
      List.mem_filter.mpr ⟨member, by simpa using under⟩
    rw [puts.kept] at inside
    exact .inr (List.mem_filter.mp inside).1

/-- One of them is that with the value. -/
theorem PutsIn.exists_mem (puts : a.PutsIn path ss ss') : ∃ s ∈ ss', a.Puts path s := by
  obtain ⟨s, own, only⟩ := puts.put
  exact ⟨s, (List.mem_filter.mp (only ▸ List.mem_singleton_self s)).1, own⟩

/-- The lines of the table stay entries. -/
theorem PutsIn.isEntry (puts : a.PutsIn path ss ss') (entries : ∀ s ∈ ss, s.IsEntry) :
    ∀ s ∈ ss', s.IsEntry :=
  fun s member => (puts.mem member).elim Puts.isEntry (entries s)

/-- A line is added to a table that has none about the key. -/
theorem putsIn_insert (puts : a.Puts path s)
    (no : (before ++ after).filter (isUnder path) = []) :
    a.PutsIn path (before ++ after) (before ++ s :: after) where
  put := by
    rw [List.filter_append, List.append_eq_nil_iff] at no
    refine ⟨s, puts, ?_⟩
    rw [List.filter_append, List.filter_cons_of_pos puts.isUnder, no.1, no.2, List.nil_append]
  kept := by
    have under := puts.isUnder
    rw [List.filter_append, List.filter_append, List.filter_cons_of_neg (by simp [under])]

/-- A line takes the place of the only one about the key. -/
theorem putInLines?_any (entries : ∀ s ∈ ss, s.IsEntry)
    (alone : ∀ s ∈ ss, s.body.key.names = path → ss.filter (isUnder path) = [s])
    (any : (ss.any fun s => s.body.key.names == path) = true) :
    a.PutsIn path ss (ss.map fun s => if s.body.key.names == path then a.replace s else s) := by
  obtain ⟨s, member, names⟩ := List.any_eq_true.mp any
  have names : s.body.key.names = path := beq_iff_eq.mp names
  have puts : a.Puts path (a.replace s) := names ▸ puts_replace (entries s member)
  obtain ⟨before, after, rfl, notBefore, under, rest⟩ :=
    List.filter_eq_cons_iff.mp (alone s member names)
  have notAfter := List.filter_eq_nil_iff.mp rest
  have same (ss : List Statement) (none_ : ∀ s ∈ ss, ¬isUnder path s = true) :
      (ss.map fun s => if s.body.key.names == path then a.replace s else s) = ss := by
    refine (List.map_congr_left fun s' inside => if_neg fun own => none_ s' inside ?_).trans
      (List.map_id ss)
    exact Statement.isUnder_of_names (beq_iff_eq.mp own)
  rw [List.map_append, List.map_cons, same before notBefore, same after notAfter,
    if_pos (beq_iff_eq.mpr names)]
  constructor
  · refine ⟨_, puts, ?_⟩
    rw [List.filter_append, List.filter_cons_of_pos puts.isUnder,
      List.filter_eq_nil_iff.mpr notBefore, rest, List.nil_append]
  · have under' := puts.isUnder
    rw [List.filter_append, List.filter_append, List.filter_cons_of_neg (by simp [under']),
      List.filter_cons_of_neg (by simp [under])]

/-- The first element that a search does not pass over. -/
theorem mem_of_dropWhile {α : Type} {p : α → Bool} {l rest : List α} {x : α}
    (split : (l.dropWhile fun y => !p y) = x :: rest) : x ∈ l ∧ p x = true := by
  refine ⟨(List.dropWhile_sublist _).subset (split ▸ List.mem_cons_self), ?_⟩
  have first := List.head?_dropWhile_not (fun y => !p y) l
  rw [split] at first
  simpa using first

/-- One element takes the place of all that a search looks for. -/
theorem filter_replaced {α : Type} {p : α → Bool} {l rest : List α} {x y : α} (found : p y = true)
    (split : (l.dropWhile fun z => !p z) = x :: rest) :
    (((l.takeWhile fun z => !p z) ++ y :: rest.filter fun z => !p z).filter p = [y]) ∧
      (((l.takeWhile fun z => !p z) ++ y :: rest.filter fun z => !p z).filter fun z => !p z) =
        l.filter fun z => !p z := by
  have old := (mem_of_dropWhile split).2
  have before : (l.takeWhile fun z => !p z).filter p = [] := by
    refine List.filter_eq_nil_iff.mpr fun z inside => ?_
    have passed : (!p z) = true := @List.mem_takeWhile_imp _ (fun z => !p z) l z inside
    simpa using passed
  have after : (rest.filter fun z => !p z).filter p = [] :=
    List.filter_eq_nil_iff.mpr fun z inside => by simpa using (List.mem_filter.mp inside).2
  constructor
  · rw [List.filter_append, List.filter_cons_of_pos found, before, after, List.nil_append]
  · have all := List.takeWhile_append_dropWhile (p := fun z => !p z) (l := l)
    rw [split] at all
    conv_rhs => rw [← all]
    rw [List.filter_append, List.filter_append, List.filter_cons_of_neg (by simp [found]),
      List.filter_cons_of_neg (by simp [old]), List.filter_filter]
    simp

/-- **The lines of one table**: one line gets the value, if any is about the key. -/
theorem putInLines?_cases (nonempty : path ≠ []) (entries : ∀ s ∈ ss, s.IsEntry)
    (alone : ∀ s ∈ ss, s.body.key.names = path → ss.filter (isUnder path) = [s]) :
    (a.putInLines? path ss = none ∧ ss.filter (isUnder path) = []) ∨
      ∃ ss', a.putInLines? path ss = some ss' ∧ a.PutsIn path ss ss' := by
  unfold putInLines?
  split
  · next any => exact .inr ⟨_, rfl, putInLines?_any entries alone any⟩
  · split
    · next nothing =>
      refine .inl ⟨rfl, List.filter_eq_nil_iff.mpr fun s member => ?_⟩
      simpa using List.dropWhile_eq_nil_iff.mp nothing s member
    · next s rest split =>
      obtain ⟨member, under⟩ := mem_of_dropWhile split
      have puts := puts_shorten (a := a) (entries s member) nonempty under
      obtain ⟨only, kept⟩ := filter_replaced puts.isUnder split
      exact .inr ⟨_, rfl, ⟨⟨_, puts, only⟩, kept⟩⟩

/-! ## Layouts -/

/-- What becomes of a layout when the key of a table gets the value. -/
structure Edited (a : Assignment) (l l' : Layout) : Prop where
  sound : l'.Sound
  plain : l'.IsPlain a.table
  edits : Line.Edits a.table a.key (.string a.value) l.lines l'.lines
  touch : (runOn Line.touch none (Line.named a.table l'.lines)).isSome

section Layout

variable {l : Layout} {cs : Children}

/-- The headers of the tables below the key. -/
theorem heads_below (sound : l.Sound) (a : Assignment) :
    (∀ k ∈ a.heads l,
      ∃ first, k.Good first ∧ Blank first) ∧
    ∀ k ∈ a.heads l, [a.table, a.key] <+: k.names := by
  constructor
  · intro k member
    obtain ⟨b, inside, rfl⟩ := List.mem_map.mp member
    obtain ⟨first, good, blank, -⟩ := (sound.blocks b (List.mem_filter.mp inside).1).head.good.key
    exact ⟨first, good, blank⟩
  · intro k member
    obtain ⟨b, inside, rfl⟩ := List.mem_map.mp member
    exact List.isPrefixOf_iff_prefix.mp (List.mem_filter.mp inside).2

/-- The line for the value where no line of the table is about the key. -/
theorem puts_getD {above : Key} {path : List String} (sound : l.Sound)
    (isAbove : above.IsAbove path) :
    a.Puts (path ++ [a.key]) ((a.inherit? above (a.heads l)).getD (a.newLine above)) := by
  cases line : a.inherit? above (a.heads l) with
  | none => exact puts_newLine isAbove
  | some s =>
      obtain ⟨good, under⟩ := heads_below sound a
      exact puts_inherit isAbove good under line

theorem mem_kept {b : Block} : b ∈ a.kept l ↔ b ∈ l.blocks ∧ ¬b.IsUnder [a.table, a.key] := by
  rw [kept, List.mem_filter]
  simp [isBlockUnder, Block.IsUnder]

/-- The table itself is not below the key. -/
theorem mem_kept_of_isHead {b : Block} (inside : b ∈ l.blocks) (head : a.isHead b = true) :
    b ∈ a.kept l := by
  refine mem_kept.mpr ⟨inside, fun under => ?_⟩
  rw [Block.IsUnder, isUnder, beq_iff_eq.mp head] at under
  have short := (List.isPrefixOf_iff_prefix.mp under).length_le
  exact absurd short (by simp)

/-! ### Dotted keys -/

/-- The part that dotted keys of a table have in common. -/
theorem isAbove_dotted (sound : l.Sound) {t : String} (dotted : ∃ s ∈ l.top, isUnder [t] s = true) :
    Key.IsAbove [t] (((l.top.find? (isUnder [t])).bind fun s => s.body.key.head?).toList.map
      fun p => { p with before := [] }) := by
  obtain ⟨s, found⟩ := Option.isSome_iff_exists.mp (List.find?_isSome.mpr dotted)
  have good := (sound.top s (List.mem_of_find?_eq_some found)).goodKey
  have under := List.find?_some found
  obtain ⟨rest, names⟩ := List.isPrefixOf_iff_prefix.mp under
  rw [found, Option.bind_some]
  match s.body.key, good, names with
  | p :: parts, good, names =>
      have part := good.parts p List.mem_cons_self
      have single : Key.Good [] [{ p with before := [] }] :=
        Key.good_singleton (part.withBlanks part.after)
      refine ⟨?_, .inr single⟩
      rw [(List.cons.inj names).1]
      rfl

/-- Dotted keys get a line among them. -/
theorem putDotted_eq (sound : l.Sound) (plain : l.IsPlain a.table)
    (read : runAll Line.step [] l.lines = some cs)
    (dotted : ∃ s ∈ l.top, isUnder [a.table] s = true) :
    ∃ top, a.putDotted l = ⟨top, a.kept l⟩ ∧ a.PutsIn [a.table, a.key] l.top top := by
  have nonempty : [a.table, a.key] ≠ [] := List.cons_ne_nil _ _
  have alone (s : Statement) (member : s ∈ l.top) (names : s.body.key.names = [a.table, a.key]) :=
    sound.alone_top plain read member names
  rw [putDotted]
  rcases putInLines?_cases (a := a) nonempty sound.top alone with ⟨no, nothing⟩ | ⟨top, put, puts⟩
  · simp only [no]
    refine ⟨_, rfl, ?_⟩
    have puts := puts_getD (a := a) sound (isAbove_dotted sound dotted)
    have split := List.takeWhile_append_dropWhile (p := fun s => !isUnder [a.table] s)
      (l := l.top.reverse)
    have parts := congrArg List.reverse split
    rw [List.reverse_append, List.reverse_reverse] at parts
    rw [← parts] at nothing
    have inserted := putsIn_insert puts nothing
    rw [parts] at inserted
    exact inserted
  · rw [put]
    exact ⟨top, rfl, puts⟩

/-- **A table of dotted keys.** -/
theorem edited_putDotted (sound : l.Sound) (plain : l.IsPlain a.table)
    (read : runAll Line.step [] l.lines = some cs)
    (dotted : ∃ s ∈ l.top, isUnder [a.table] s = true) : a.Edited l (a.putDotted l) := by
  obtain ⟨top, put, puts⟩ := putDotted_eq sound plain read dotted
  obtain ⟨s, own, only⟩ := puts.put
  have noHead := sound.no_head plain read dotted
  have entries := puts.isEntry sound.top
  have member : s ∈ top := (List.mem_filter.mp (only ▸ List.mem_singleton_self s)).1
  rw [put]
  have sound' : Layout.Sound ⟨top, a.kept l⟩ :=
    ⟨entries, fun b inside => sound.blocks b (mem_kept.mp inside).1⟩
  have plain' : Layout.IsPlain a.table ⟨top, a.kept l⟩ := by
    refine ⟨fun s' inside names => ?_, fun b inside => plain.blocks b (mem_kept.mp inside).1⟩
    rcases puts.mem inside with new | old
    · rw [new.names] at names
      cases names
    · exact plain.top s' old names
  refine ⟨sound', plain', ⟨?_, ⟨s.line [], ?_, ?_⟩, sound'.complete⟩, ?_⟩
  · rw [Layout.lines, Layout.lines, List.filter_append, List.filter_append,
      (Layout.filter_top entries).2, (Layout.filter_top sound.top).2, puts.kept]
    exact congrArg _ (Layout.flatMap_keep sound.blocks)
  · have nothing : ((a.kept l).flatMap Block.lines).filter (Line.isAbout [a.table, a.key]) = [] :=
      Layout.flatMap_other sound'.blocks (fun b inside => (mem_kept.mp inside).2)
        fun b inside => noHead b (mem_kept.mp inside).1
    rw [Layout.lines, List.filter_append, (Layout.filter_top entries).1, only, nothing]
    rfl
  · rw [own.line_eq]
    rfl
  · refine sound'.isSome_runOn_touch_dotted plain' ⟨s, member, ?_⟩ fun b inside =>
      noHead b (mem_kept.mp inside).1
    rw [isUnder, own.names]
    exact List.isPrefixOf_iff_prefix.mpr ⟨[a.key], rfl⟩

/-! ### Headers -/

/-- Whether blocks are such that stay, none of them that of the table itself. -/
def AreOthers (a : Assignment) (l : Layout) (bs : List Block) : Prop :=
  ∀ b ∈ bs, b ∈ a.kept l ∧ b.head.body.key.names ≠ [a.table]

theorem AreOthers.about {bs : List Block} (sound : l.Sound) (others : a.AreOthers l bs) :
    (bs.flatMap Block.lines).filter (Line.isAbout [a.table, a.key]) = [] :=
  Layout.flatMap_other (fun b inside => sound.blocks b (mem_kept.mp (others b inside).1).1)
    (fun b inside => (mem_kept.mp (others b inside).1).2) fun b inside => (others b inside).2

theorem AreOthers.heads {bs : List Block} (others : a.AreOthers l bs) :
    (bs.filter fun b => b.head.body.key.names == [a.table]) = [] :=
  List.filter_eq_nil_iff.mpr fun b inside own => (others b inside).2 (beq_iff_eq.mp own)

/-- **A table with a header**: its block has the value, and the other blocks stay. -/
theorem edited_blocks (sound : l.Sound) (plain : l.IsPlain a.table)
    (noDotted : ∀ s ∈ l.top, isUnder [a.table] s = false) {before after : List Block} {b : Block}
    (othersBefore : a.AreOthers l before) (othersAfter : a.AreOthers l after)
    (soundBlock : b.Sound) (plainBlock : b.IsPlain a.table)
    (head : b.head.body.key.names = [a.table])
    (put : ∃ s, a.Puts [a.key] s ∧ b.entries.filter (isUnder [a.key]) = [s])
    (stay : ((before ++ b :: after).flatMap Block.lines).filter (Line.isApart a.table a.key) =
      ((a.kept l).flatMap Block.lines).filter (Line.isApart a.table a.key)) :
    a.Edited l ⟨l.top, before ++ b :: after⟩ := by
  have old {b' : Block} (inside : b' ∈ before ++ b :: after) (new : b' ≠ b) : b' ∈ l.blocks := by
    rcases List.mem_append.mp inside with inside | inside
    · exact (mem_kept.mp (othersBefore b' inside).1).1
    · have inside := (List.mem_cons.mp inside).resolve_left new
      exact (mem_kept.mp (othersAfter b' inside).1).1
  have sound' : Layout.Sound ⟨l.top, before ++ b :: after⟩ := by
    refine ⟨sound.top, fun b' inside => ?_⟩
    by_cases new : b' = b
    · exact new ▸ soundBlock
    · exact sound.blocks b' (old inside new)
  have plain' : Layout.IsPlain a.table ⟨l.top, before ++ b :: after⟩ := by
    refine ⟨plain.top, fun b' inside => ?_⟩
    by_cases new : b' = b
    · exact new ▸ plainBlock
    · exact plain.blocks b' (old inside new)
  obtain ⟨s, own, only⟩ := put
  refine ⟨sound', plain', ⟨?_, ⟨s.line [a.table], ?_, ?_⟩, sound'.complete⟩, ?_⟩
  · rw [Layout.lines, Layout.lines, List.filter_append, List.filter_append, stay]
    exact congrArg _ (Layout.flatMap_keep sound.blocks)
  · have none_ : l.top.filter (isUnder [a.table, a.key]) = [] := by
      refine List.filter_eq_nil_iff.mpr fun s inside under => ?_
      have shorter : [a.table] <+: s.body.key.names :=
        List.IsPrefix.trans ⟨[a.key], rfl⟩ (List.isPrefixOf_iff_prefix.mp under)
      have elsewhere := noDotted s inside
      rw [isUnder, List.isPrefixOf_iff_prefix.mpr shorter] at elsewhere
      cases elsewhere
    rw [Layout.lines, List.filter_append, (Layout.filter_top sound.top).1, none_, List.map_nil,
      List.nil_append, List.flatMap_append, List.flatMap_cons, List.filter_append,
      List.filter_append, othersBefore.about sound, othersAfter.about sound,
      (soundBlock.filter_head plainBlock head).1, only]
    rfl
  · rw [own.line_eq]
    rfl
  · refine sound'.isSome_runOn_touch_heads plain' noDotted ?_
    rw [List.filter_append, othersBefore.heads, List.filter_cons, if_pos (beq_iff_eq.mpr head),
      othersAfter.heads]
    exact Nat.le_refl 1

/-- The entries get a line among them. -/
theorem putInEntries_eq (a : Assignment) (sound : l.Sound) {b : Block}
    (entries : ∀ s ∈ b.entries, s.IsEntry)
    (alone : ∀ s ∈ b.entries, s.body.key.names = [a.key] →
      b.entries.filter (isUnder [a.key]) = [s]) :
    ∃ ss, a.putInEntries l b = ⟨b.head, ss⟩ ∧ a.PutsIn [a.key] b.entries ss := by
  obtain ⟨good, under⟩ := heads_below sound a
  rw [putInEntries]
  rcases putInLines?_cases (a := a) (List.cons_ne_nil _ _) entries alone with
    ⟨no, nothing⟩ | ⟨ss, put, puts⟩
  · rw [no]
    have atEnd {s : Statement} (puts : a.Puts [a.key] s) :
        a.PutsIn [a.key] b.entries (b.entries ++ [s]) := by
      have inserted : a.PutsIn [a.key] (b.entries ++ []) (b.entries ++ [s]) :=
        putsIn_insert puts (by rwa [List.append_nil])
      rwa [List.append_nil] at inserted
    cases line : a.inherit? [] (a.heads l) with
    | none => exact ⟨_, rfl, atEnd (puts_newLine Key.isAbove_nil)⟩
    | some s =>
        have puts : a.Puts [a.key] s := puts_inherit Key.isAbove_nil good under line
        refine ⟨_, rfl, ?_⟩
        split
        · have inserted : a.PutsIn [a.key] ([] ++ b.entries) ([] ++ s :: b.entries) :=
            putsIn_insert puts nothing
          exact inserted
        · exact atEnd puts
  · rw [put]
    exact ⟨ss, rfl, puts⟩

/-- **A table with a header of its own.** -/
theorem edited_putInBlock (sound : l.Sound) (plain : l.IsPlain a.table)
    (read : runAll Line.step [] l.lines = some cs)
    (noDotted : ∀ s ∈ l.top, isUnder [a.table] s = false)
    (head : l.blocks.any a.isHead = true) : a.Edited l (a.putInBlock l) := by
  obtain ⟨b, inside, own⟩ := List.any_eq_true.mp head
  have names : b.head.body.key.names = [a.table] := beq_iff_eq.mp own
  have stays := mem_kept_of_isHead inside own
  have once : (a.kept l).filter a.isHead = [b] := by
    refine Line.eq_singleton (List.mem_filter.mpr ⟨stays, own⟩) ?_
    have part : ((a.kept l).filter a.isHead).Sublist (l.blocks.filter a.isHead) :=
      List.filter_sublist.filter _
    exact part.length_le.trans (sound.heads_le_one plain read)
  obtain ⟨before, after, split, notBefore, -, notAfter⟩ := List.filter_eq_cons_iff.mp once
  have notAfter := List.filter_eq_nil_iff.mp notAfter
  have same (bs : List Block) (none_ : ∀ b ∈ bs, ¬a.isHead b = true) :
      (bs.map fun b => if a.isHead b then a.putInEntries l b else b) = bs :=
    (List.map_congr_left fun b' inside => if_neg (none_ b' inside)).trans (List.map_id bs)
  obtain ⟨ss, put, puts⟩ := putInEntries_eq a sound (sound.blocks b inside).entries
    fun s member name => sound.alone_block plain read inside names member name
  have others (bs : List Block) (part : ∀ b' ∈ bs, b' ∈ a.kept l)
      (none_ : ∀ b ∈ bs, ¬a.isHead b = true) : a.AreOthers l bs :=
    fun b' member => ⟨part b' member, fun own => none_ b' member (beq_iff_eq.mpr own)⟩
  have soundBlock : Block.Sound ⟨b.head, ss⟩ :=
    ⟨(sound.blocks b inside).head, puts.isEntry (sound.blocks b inside).entries⟩
  rw [putInBlock, split, List.map_append, List.map_cons, same before notBefore,
    same after notAfter, if_pos own, put]
  refine edited_blocks sound plain noDotted (others before (fun b' member => ?_) notBefore)
    (others after (fun b' member => ?_) notAfter) soundBlock
    (plain.blocks b inside) names puts.put ?_
  · rw [split]
    exact List.mem_append_left _ member
  · rw [split]
    exact List.mem_append_right _ (List.mem_cons_of_mem _ member)
  · have plainBlock : Block.IsPlain a.table ⟨b.head, ss⟩ := plain.blocks b inside
    have block : (Block.lines ⟨b.head, ss⟩).filter (Line.isApart a.table a.key) =
        b.lines.filter (Line.isApart a.table a.key) := by
      rw [(soundBlock.filter_head plainBlock names).2, puts.kept,
        ((sound.blocks b inside).filter_head (plain.blocks b inside) names).2]
    rw [split, List.flatMap_append, List.flatMap_append, List.flatMap_cons, List.flatMap_cons,
      List.filter_append, List.filter_append, List.filter_append, List.filter_append, block]

/-- The name in a new header. -/
theorem good_newName (sound : l.Sound) (a : Assignment) :
    Key.Good [] [a.newName l] ∧ (a.newName l).name = a.table := by
  unfold newName
  cases found : l.blocks.find? fun b => isUnder [a.table] b.head with
  | none => exact ⟨Key.good_singleton (KeyPart.good_ofName a.table blank_nil), rfl⟩
  | some b =>
      obtain ⟨first, good, -⟩ := (sound.blocks b (List.mem_of_find?_eq_some found)).head.good.key
      have under : isUnder [a.table] b.head = true := by
        have own := List.find?_some found
        exact own
      obtain ⟨rest, names⟩ := List.isPrefixOf_iff_prefix.mp under
      rw [Option.bind_some]
      match b.head.body.key, good, names with
      | p :: parts, good, names =>
          have part := good.parts p List.mem_cons_self
          have single : Key.Good [] [{ p with before := [], after := [] }] :=
            Key.good_singleton (part.withBlanks blank_nil)
          exact ⟨single, (List.cons.inj names).1.symm⟩

/-- **A table without a header of its own.** -/
theorem edited_putInNewBlock (sound : l.Sound) (plain : l.IsPlain a.table)
    (noDotted : ∀ s ∈ l.top, isUnder [a.table] s = false)
    (noHead : ∀ b ∈ l.blocks, b.head.body.key.names ≠ [a.table]) :
    a.Edited l (a.putInNewBlock l) := by
  obtain ⟨goodName, name⟩ := good_newName sound a
  have puts : a.Puts [a.key] ((a.inherit? [] (a.heads l)).getD (a.newLine [])) :=
    puts_getD sound Key.isAbove_nil
  unfold putInNewBlock
  extract_lets number lead block keep
  have filler : Filler lead := by
    unfold lead
    split
    · exact filler_nil
    · exact filler_newline
  have soundBlock : block.Sound := by
    refine ⟨⟨Statement.good_header filler goodName, rfl⟩, fun s member => ?_⟩
    rw [List.mem_singleton.mp member]
    exact puts.isEntry
  have plainBlock : block.IsPlain a.table := fun key same => nomatch same
  have head : block.head.body.key.names = [a.table] := congrArg (· :: []) name
  have parts : (l.blocks.take number).filter keep ++ (l.blocks.drop number).filter keep =
      a.kept l := by
    rw [← List.filter_append, List.take_append_drop]
    rfl
  have others (bs : List Block) (part : ∀ b ∈ bs, b ∈ a.kept l) : a.AreOthers l bs :=
    fun b member => ⟨part b member, noHead b (mem_kept.mp (part b member)).1⟩
  refine edited_blocks sound plain noDotted (others _ fun b member => ?_)
    (others _ fun b member => ?_) soundBlock plainBlock head ⟨_, puts, ?_⟩ ?_
  · rw [← parts]
    exact List.mem_append_left _ member
  · rw [← parts]
    exact List.mem_append_right _ member
  · exact List.filter_cons_of_pos puts.isUnder
  · have nothing : block.lines.filter (Line.isApart a.table a.key) = [] := by
      rw [(soundBlock.filter_head plainBlock head).2]
      have under := puts.isUnder
      exact congrArg _ (List.filter_cons_of_neg (by simp [under]))
    rw [← parts, List.flatMap_append, List.flatMap_append, List.flatMap_cons, List.filter_append,
      List.filter_append, List.filter_append, nothing, List.nil_append]

end Layout

end Assignment

end Gatekeeper.Toml
