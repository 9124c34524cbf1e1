import Gatekeeper.Proofs.Toml.Quote
import Gatekeeper.Proofs.Toml.Reader

set_option autoImplicit false

/-!
# Keys and what stands between them

A key is well written (`Key.Good`) if each of its parts is one token and only blanks stand around
them. Every key that is read is (`OpenKey.good_step`), and a key that is, is read back from its text
(`Key.Good.read`), whatever comes before and after it. So the parts of a key may be used in other
places. The same holds of blanks, comments and line ends (`Filler`).
-/

namespace Gatekeeper.Toml

/-! ## Blanks, comments and line ends -/

/-- Whether a text consists of spaces and tabs. -/
def Blank (s : List Char) : Prop := ∀ c ∈ s, c = ' ' ∨ c = '\t'

/-- Whether a text consists of blanks, comments and line ends, and is cut off by whatever
follows. -/
def Filler (s : List Char) : Prop :=
  ∃ ts : List Token, (∀ t ∈ ts, t.Whole ∧ t.isFiller = true) ∧ (∀ c, Chain ts c) ∧ textOf ts = s

/-- The tokens of blanks. -/
def blanks (s : List Char) : List Token := s.map .space

theorem blank_nil : Blank [] := nofun

theorem blank_space : Blank [' '] := by
  intro c member
  exact .inl (List.mem_singleton.mp member)

theorem Blank.append {s s' : List Char} (h : Blank s) (h' : Blank s') : Blank (s ++ s') := by
  intro c member
  exact (List.mem_append.mp member).elim (h c) (h' c)

@[simp] theorem textOf_blanks (s : List Char) : textOf (blanks s) = s := by
  induction s with
  | nil => rfl
  | cons c s ih =>
      change c :: textOf (blanks s) = _
      rw [ih]

theorem Blank.whole {s : List Char} (h : Blank s) : ∀ t ∈ blanks s, t.Whole := by
  intro t member
  obtain ⟨c, inside, rfl⟩ := List.mem_map.mp member
  exact h c inside

theorem Blank.chain {s : List Char} (h : Blank s) (c : Char) : Chain (blanks s) c := by
  induction s with
  | nil => trivial
  | cons d s ih =>
      have first : (Token.space d).Whole := h d List.mem_cons_self
      exact ⟨first.cutBy trivial, ih fun e member => h e (List.mem_cons_of_mem _ member)⟩

theorem Blank.filler {s : List Char} (h : Blank s) : Filler s := by
  refine ⟨blanks s, fun t member => ⟨h.whole t member, ?_⟩, h.chain, textOf_blanks s⟩
  obtain ⟨c, -, rfl⟩ := List.mem_map.mp member
  rfl

theorem filler_nil : Filler [] := blank_nil.filler

/-- Fillers one after another. -/
theorem Filler.append {s s' : List Char} (h : Filler s) (h' : Filler s') : Filler (s ++ s') := by
  obtain ⟨ts, each, chain, rfl⟩ := h
  obtain ⟨us, each', chain', rfl⟩ := h'
  refine ⟨ts ++ us, fun t member => ?_, fun c => ?_, textOf_append _ _⟩
  · exact (List.mem_append.mp member).elim (each t) (each' t)
  · exact chain_append.mpr ⟨chain _, chain' c⟩

theorem filler_newline : Filler ['\n'] := by
  refine ⟨[.newline], fun t member => ?_, fun c => ?_, rfl⟩
  · rw [List.mem_singleton.mp member]
    exact ⟨trivial, rfl⟩
  · exact chain_singleton.mpr (Token.Whole.cutBy trivial trivial)

/-- Fillers that a character cuts off that comments may contain do not end with a comment. -/
theorem filler_of_chain {ts : List Token} {c : Char}
    (each : ∀ t ∈ ts, t.Whole ∧ t.isFiller = true) (chain : Chain ts c)
    (printable : isPrintable c = true) : Filler (textOf ts) := by
  refine ⟨ts, each, fun d => chain.change fun t member cut => ?_, rfl⟩
  obtain ⟨whole, filler⟩ := each t member
  cases t with
  | space e => exact whole.cutBy trivial
  | newline => exact whole.cutBy trivial
  | comment text => exact absurd cut (Token.not_cutBy_comment whole printable)
  | _ => cases filler

/-- Whether a character ends words and strings. -/
def IsEnd (c : Char) : Prop := isWordChar c = false ∧ ¬IsQuote c

instance : DecidablePred IsEnd := fun _ => inferInstanceAs (Decidable (_ ∧ _))

/-- A blank ends words and strings. -/
theorem Blank.isEnd {s : List Char} {c : Char} (h : Blank s) (ends : IsEnd c) :
    IsEnd (s.headD c) := by
  cases s with
  | nil => exact ends
  | cons d s =>
      rcases h d List.mem_cons_self with rfl | rfl
      · exact (by decide : IsEnd ' ')
      · exact (by decide : IsEnd '\t')

/-- So does anything in a filler. -/
theorem Filler.isEnd {s : List Char} {c : Char} (h : Filler s) (ends : IsEnd c) :
    IsEnd (s.headD c) := by
  obtain ⟨ts, each, -, rfl⟩ := h
  cases ts with
  | nil => exact ends
  | cons t ts =>
      obtain ⟨whole, filler⟩ := each t List.mem_cons_self
      cases t with
      | space d =>
          rcases (whole : d = ' ' ∨ d = '\t') with rfl | rfl
          · exact (by decide : IsEnd ' ')
          · exact (by decide : IsEnd '\t')
      | newline => exact (by decide : IsEnd '\n')
      | comment text =>
          obtain ⟨rest, rfl, -⟩ := whole
          exact (by decide : IsEnd '#')
      | _ => cases filler

/-- What cuts off tokens may be replaced by another character that is part of none of them. -/
theorem Chain.replace {ts : List Token} {c d : Char} (chain : Chain ts c)
    (whole : ∀ t ∈ ts, t.Whole) (printable : isPrintable c = true) (ends : IsEnd d) :
    Chain ts d := by
  refine chain.change fun t member cut => ?_
  have here := whole t member
  cases t with
  | comment text => exact absurd cut (Token.not_cutBy_comment here printable)
  | word text => exact here.cutBy ends.1
  | quoted text value multiline => exact here.cutBy ends.2
  | _ => exact here.cutBy trivial

/-! ## Good keys -/

/-- A part of a key that is one token, with blanks after it. -/
structure KeyPart.Good (p : KeyPart) : Prop where
  token : IsToken p.text p.name
  after : Blank p.after

/-- Whether what stands before the parts of a key is blanks, but for the first one. -/
def Spaced (first : List Char) (befores : List (List Char)) : Prop :=
  ∃ rest, befores = first :: rest ∧ ∀ b ∈ rest, Blank b

theorem Spaced.snoc {first b : List Char} {befores : List (List Char)} (h : Spaced first befores)
    (blank : Blank b) : Spaced first (befores ++ [b]) := by
  obtain ⟨rest, rfl, between⟩ := h
  refine ⟨rest ++ [b], rfl, fun c member => ?_⟩
  rcases List.mem_append.mp member with inside | last
  · exact between c inside
  · exact List.mem_singleton.mp last ▸ blank

/-- A key whose parts are good, with `first` before the first of them. -/
structure Key.Good (first : List Char) (key : Key) : Prop where
  parts : ∀ p ∈ key, p.Good
  spaced : Spaced first (key.map (·.before))

/-- The same for a key that is being read. -/
structure OpenKey.Good (first : List Char) (k : OpenKey) : Prop where
  parts : ∀ p ∈ k.parts, p.Good
  part : ∀ text name, k.part = some (text, name) → KeyPart.IsToken text name
  after : Blank k.after
  spaced : Spaced first (k.parts.reverse.map (·.before) ++ [k.before.reverse])

namespace OpenKey

variable {first : List Char} {k k' : OpenKey} {t : Token}

/-- A key that has not come yet. -/
theorem good_blank {before : List Char} : OpenKey.Good before.reverse { before } :=
  ⟨nofun, nofun, blank_nil, [], rfl, nofun⟩

/-- The key that is complete is good. -/
theorem Good.finish {key : Key} (h : k.Good first) (finish : k.finish? = some key) :
    key.Good first := by
  obtain ⟨text, name, part, rfl⟩ := finish?_eq_some_iff.mp finish
  constructor
  · intro p member
    rcases List.mem_append.mp member with inside | last
    · exact h.parts p (List.mem_reverse.mp inside)
    · rw [List.mem_singleton.mp last]
      exact ⟨h.part text name part, fun c member => h.after c (List.mem_reverse.mp member)⟩
  · rw [List.map_append]
    exact h.spaced

/-- A space before a part that is not the first one. -/
theorem Good.space {c : Char} (h : k.Good first) (blank : Blank [c]) (later : k.parts ≠ []) :
    Good first { k with before := c :: k.before } := by
  refine ⟨h.parts, h.part, h.after, ?_⟩
  obtain ⟨rest, all, between⟩ := h.spaced
  obtain ⟨p, before, parts⟩ := List.exists_cons_of_ne_nil (mt List.reverse_eq_nil_iff.mp later)
  rw [parts, List.map_cons, List.cons_append] at all
  obtain ⟨rfl, rfl⟩ := List.cons.inj all
  have last := between k.before.reverse (List.mem_append_right _ List.mem_cons_self)
  rw [parts, List.map_cons, List.cons_append, List.reverse_cons]
  refine ⟨_, rfl, fun b member => ?_⟩
  rcases List.mem_append.mp member with inside | same
  · exact between b (List.mem_append_left _ inside)
  · rw [List.mem_singleton.mp same]
    exact last.append blank

/-- **One token more**: only blanks before the first part can change what stands before it. -/
theorem good_step (h : k.Good first) (whole : t.Whole) (step : k.step t = some k') :
    (k'.Good first ∧ k'.isFresh = false) ∨
      (k.isFresh = true ∧ ∃ c, t = .space c ∧ k'.Good (first ++ [c])) := by
  have blank {c : Char} (space : t = .space c) : Blank [c] := by
    intro d member
    rw [List.mem_singleton.mp member]
    rw [space] at whole
    exact whole
  unfold OpenKey.step at step
  split at step
  · next none =>
    split at step
    · next c =>
      cases step
      by_cases later : k.parts = []
      · refine .inr ⟨?_, c, rfl, h.parts, h.part, h.after, [], ?_, fun _ member => ?_⟩
        · rw [isFresh, later, none]
          rfl
        · obtain ⟨rest, all, -⟩ := h.spaced
          rw [later] at all ⊢
          rw [← (List.cons.inj all).1]
          simp
        · cases member
      · refine .inl ⟨h.space (blank rfl) later, ?_⟩
        rw [isFresh, List.isEmpty_eq_false_iff.mpr later]
        rfl
    · obtain ⟨⟨text, name⟩, part, rfl⟩ := Option.map_eq_some_iff.mp step
      refine .inl ⟨⟨h.parts, fun text name same => ?_, blank_nil, h.spaced⟩, Bool.and_false _⟩
      cases same
      exact ⟨t, whole, text_of_part? part, part⟩
  · next p some =>
    have started : k.isFresh = false := by
      rw [isFresh, some]
      exact Bool.and_false _
    split at step
    · obtain ⟨key, finish, rfl⟩ := Option.map_eq_some_iff.mp step
      have good := h.finish finish
      refine .inl ⟨⟨fun q member => good.parts q (List.mem_reverse.mp member), fun _ _ same => ?_,
        blank_nil, ?_⟩, ?_⟩
      · cases same
      · rw [List.reverse_reverse]
        exact good.spaced.snoc blank_nil
      · obtain ⟨text, name, -, rfl⟩ := finish?_eq_some_iff.mp finish
        simp [isFresh]
    · next c =>
      cases step
      exact .inl ⟨⟨h.parts, h.part, (blank rfl).append h.after, h.spaced⟩, started⟩
    · cases step

/-- What begins a key is a part of it. -/
theorem part?_of_step {before : List Char} (other : ¬t.isFiller = true)
    (step : OpenKey.step { before } t = some k) : ∃ p, part? t = some p := by
  have parts : OpenKey.step { before } t = (part? t).map fun p => ⟨[], before, some p, []⟩ := by
    cases t with
    | space c => exact absurd rfl other
    | _ => rfl
  rw [parts] at step
  obtain ⟨p, part, -⟩ := Option.map_eq_some_iff.mp step
  exact ⟨p, part⟩

/-! ## Reading good keys -/

theorem run_blanks_before (parts : List KeyPart) (before after s : List Char) :
    runAll step ⟨parts, before, none, after⟩ (blanks s) =
      some ⟨parts, s.reverse ++ before, none, after⟩ := by
  induction s generalizing before with
  | nil => rfl
  | cons c s ih =>
      rw [List.reverse_cons, List.append_assoc]
      exact ih (c :: before)

theorem run_blanks_after (parts : List KeyPart) (before after s : List Char)
    (p : List Char × String) :
    runAll step ⟨parts, before, some p, after⟩ (blanks s) =
      some ⟨parts, before, some p, s.reverse ++ after⟩ := by
  induction s generalizing after with
  | nil => rfl
  | cons c s ih =>
      rw [List.reverse_cons, List.append_assoc]
      exact ih (c :: after)

/-- Whether a token may stand in a key. -/
def Takes (t : Token) : Prop := (∃ c, t = .space c) ∨ t = .mark '.' ∨ (part? t).isSome = true

/-- Tokens that make a key of a key that is open: the first one is the part at hand. -/
structure Makes (k : OpenKey) (key : Key) (t : Token) (ts : List Token) : Prop where
  part : (part? t).isSome = true
  takes : ∀ u ∈ ts, Takes u
  whole : ∀ u ∈ t :: ts, u.Whole
  chain : ∀ c, IsEnd c → Chain (t :: ts) c
  run : ∃ k', runAll OpenKey.step k (t :: ts) = some k' ∧ k'.finish? = some key

/-- A part of a key ends where words and strings end. -/
theorem cutBy_of_part? {p : List Char × String} {c : Char} (whole : t.Whole)
    (part : part? t = some p) (ends : IsEnd c) : t.CutBy c := by
  refine whole.cutBy ?_
  cases t with
  | word text => exact ends.1
  | quoted text value multiline => exact ends.2
  | _ => cases part

/-- A part and the blanks after it. -/
theorem run_part {p : KeyPart} (parts : List KeyPart) (part : part? t = some (p.text, p.name)) :
    runAll step ⟨parts, p.before.reverse, none, []⟩ (t :: blanks p.after) =
      some ⟨parts, p.before.reverse, some (p.text, p.name), p.after.reverse⟩ := by
  have step : OpenKey.step ⟨parts, p.before.reverse, none, []⟩ t =
      (part? t).map fun p' => ⟨parts, p.before.reverse, some p', []⟩ := by
    cases t with
    | space c => cases part
    | _ => rfl
  rw [runAll_cons, step, part, Option.map_some, Option.bind_some, run_blanks_after, List.append_nil]

/-- A part at the end of a key. -/
theorem makes_part {p : KeyPart} (parts : List KeyPart) (good : p.Good) (whole : t.Whole)
    (part : part? t = some (p.text, p.name)) :
    Makes ⟨parts, p.before.reverse, none, []⟩ (parts.reverse ++ [p]) t (blanks p.after) where
  part := by
    rw [part]
    rfl
  takes u member := by
    obtain ⟨c, -, rfl⟩ := List.mem_map.mp member
    exact .inl ⟨c, rfl⟩
  whole u member := by
    rcases List.mem_cons.mp member with rfl | inside
    · exact whole
    · exact good.after.whole u inside
  chain c ends := by
    refine ⟨cutBy_of_part? whole part ?_, good.after.chain c⟩
    rw [textOf_blanks]
    exact good.after.isEnd ends
  run := by
    refine ⟨_, run_part parts part, finish?_eq_some_iff.mpr ⟨_, _, rfl, ?_⟩⟩
    rw [List.reverse_reverse, List.reverse_reverse]

/-- A part, a dot, and the parts after it. -/
theorem Makes.cons {p q : KeyPart} {key : Key} {u : Token} {us : List Token} {parts : List KeyPart}
    (later : Makes ⟨p :: parts, q.before.reverse, none, []⟩ key u us) (good : p.Good)
    (blank : Blank q.before) (whole : t.Whole) (part : part? t = some (p.text, p.name)) :
    Makes ⟨parts, p.before.reverse, none, []⟩ key t
      (blanks p.after ++ (.mark '.' :: (blanks q.before ++ (u :: us)))) where
  part := by
    rw [part]
    rfl
  takes v member := by
    rcases List.mem_append.mp member with first | member
    · obtain ⟨c, -, rfl⟩ := List.mem_map.mp first
      exact .inl ⟨c, rfl⟩
    rcases List.mem_cons.mp member with rfl | member
    · exact .inr (.inl rfl)
    rcases List.mem_append.mp member with second | member
    · obtain ⟨c, -, rfl⟩ := List.mem_map.mp second
      exact .inl ⟨c, rfl⟩
    rcases List.mem_cons.mp member with rfl | member
    · exact .inr (.inr later.part)
    · exact later.takes v member
  whole v member := by
    rcases List.mem_cons.mp member with rfl | member
    · exact whole
    rcases List.mem_append.mp member with first | member
    · exact good.after.whole v first
    rcases List.mem_cons.mp member with rfl | member
    · exact (rfl : isMark '.' = true)
    rcases List.mem_append.mp member with second | member
    · exact blank.whole v second
    · exact later.whole v member
  chain c ends := by
    have dot : (Token.mark '.').Whole := (rfl : isMark '.' = true)
    refine ⟨cutBy_of_part? whole part ?_, chain_append.mpr ⟨good.after.chain _, ?_⟩⟩
    · rw [textOf_append, textOf_blanks, headD_append]
      exact good.after.isEnd (by decide : IsEnd '.')
    · exact ⟨dot.cutBy trivial, chain_append.mpr ⟨blank.chain _, later.chain c ends⟩⟩
  run := by
    obtain ⟨k', run_later, finish⟩ := later.run
    refine ⟨k', ?_, finish⟩
    have dot : OpenKey.step ⟨parts, p.before.reverse, some (p.text, p.name), p.after.reverse⟩
        (.mark '.') = some ⟨p :: parts, [], none, []⟩ := by
      simp only [OpenKey.step]
      rw [finish?_eq_some_iff.mpr ⟨_, _, rfl, rfl⟩]
      simp
    rw [← List.cons_append, runAll_append, run_part parts part, Option.bind_some, runAll_cons, dot,
      Option.bind_some, runAll_append, run_blanks_before, List.append_nil,
      Option.bind_some, run_later]

/-- The parts of a key are read one after another. -/
theorem exists_makes (parts : List KeyPart) (p : KeyPart) (rest : List KeyPart) (good : p.Good)
    (later : ∀ q ∈ rest, q.Good ∧ Blank q.before) :
    ∃ t ts, Makes ⟨parts, p.before.reverse, none, []⟩ (parts.reverse ++ p :: rest) t ts ∧
      textOf (t :: ts) = p.text ++ p.after ++ rest.flatMap fun q => '.' :: q.render := by
  obtain ⟨t, whole, text, part⟩ := good.token
  induction rest generalizing parts p t with
  | nil =>
      refine ⟨t, blanks p.after, makes_part parts good whole part, ?_⟩
      simp [text]
  | cons q rest ih =>
      obtain ⟨good', blank⟩ := later q List.mem_cons_self
      obtain ⟨u, whole', text', part'⟩ := good'.token
      obtain ⟨u, us, makes, text_later⟩ := ih (p :: parts) q good'
        (fun q' member => later q' (List.mem_cons_of_mem _ member)) u whole' text' part'
      rw [List.reverse_cons, List.append_assoc] at makes
      refine ⟨t, _, makes.cons good blank whole part, ?_⟩
      rw [textOf_cons, textOf_append, textOf_cons, textOf_append, text_later, text]
      simp [KeyPart.render, Token.text]

/-- A key that has come does not go. -/
theorem isFresh_step {k k' : OpenKey} (started : k.isFresh = false) (step : k.step t = some k') :
    k'.isFresh = false := by
  unfold OpenKey.step at step
  split at step
  · split at step
    · cases step
      exact started
    · obtain ⟨p, -, rfl⟩ := Option.map_eq_some_iff.mp step
      exact Bool.and_false _
  · split at step
    · obtain ⟨key, finish, rfl⟩ := Option.map_eq_some_iff.mp step
      obtain ⟨text, name, -, rfl⟩ := finish?_eq_some_iff.mp finish
      simp [isFresh]
    · cases step
      exact started
    · cases step

/-- A part of a key begins it. -/
theorem isFresh_of_part? {k k' : OpenKey} (part : (part? t).isSome = true)
    (step : k.step t = some k') : k'.isFresh = false := by
  by_cases started : k.isFresh = false
  · exact isFresh_step started step
  · have fresh : k.part = none := by
      rw [Bool.not_eq_false, isFresh, Bool.and_eq_true, Option.isNone_iff_eq_none] at started
      exact started.2
    unfold OpenKey.step at step
    split at step
    · split at step
      · cases part
      · obtain ⟨p, -, rfl⟩ := Option.map_eq_some_iff.mp step
        exact Bool.and_false _
    · next some =>
      rw [fresh] at some
      cases some

/-- The tokens of a key are read where the reader leaves them to the key. -/
theorem Makes.run_phase {k : OpenKey} {key : Key} {ts : List Token} (makes : Makes k key t ts)
    {ss : List Statement} {lead : List Char} {start : Phase} (phase : OpenKey → Phase)
    (first : Reader.step ⟨ss, lead, start⟩ t = (k.step t).map fun k => ⟨ss, lead, phase k⟩)
    (later : ∀ k u, k.isFresh = false → Takes u →
      Reader.step ⟨ss, lead, phase k⟩ u = (k.step u).map fun k => ⟨ss, lead, phase k⟩) :
    ∃ k', k'.finish? = some key ∧
      runAll Reader.step ⟨ss, lead, start⟩ (t :: ts) = some ⟨ss, lead, phase k'⟩ := by
  obtain ⟨k', run, finish⟩ := makes.run
  rw [runAll_cons, Option.bind_eq_some_iff] at run
  obtain ⟨m, step, rest⟩ := run
  -- from the first part on the key is no longer fresh, which is when the reader leaves it the
  -- tokens
  have go (us : List Token) (takes : ∀ u ∈ us, Takes u) (m : OpenKey) (started : m.isFresh = false)
      (rest : runAll OpenKey.step m us = some k') :
      runAll Reader.step ⟨ss, lead, phase m⟩ us = some ⟨ss, lead, phase k'⟩ := by
    induction us generalizing m with
    | nil =>
        cases rest
        rfl
    | cons u us ih =>
        rw [runAll_cons, Option.bind_eq_some_iff] at rest
        obtain ⟨n, step, rest⟩ := rest
        rw [runAll_cons, later m u started (takes u List.mem_cons_self), step]
        exact ih (fun v member => takes v (List.mem_cons_of_mem _ member)) n
          (isFresh_step started step) rest
  refine ⟨k', finish, ?_⟩
  rw [runAll_cons, first, step]
  exact go ts makes.takes m (isFresh_of_part? makes.part step) rest

end OpenKey

/-- A text that is a key is its parts with dots between them. -/
theorem render_cons (p : KeyPart) (rest : List KeyPart) :
    Key.render (p :: rest) = p.render ++ rest.flatMap fun q => '.' :: q.render := by
  rw [Key.render]
  induction rest generalizing p with
  | nil => simp [List.intercalate]
  | cons q rest ih =>
      have tail := ih q
      rw [List.flatMap_cons, List.cons_append, ← tail]
      simp [List.intercalate]

/-- **A good key is read back from its text.** -/
theorem Key.Good.read {first : List Char} {key : Key} (good : key.Good first) :
    ∃ t ts, OpenKey.Makes { before := first.reverse } key t ts ∧
      first ++ textOf (t :: ts) = key.render := by
  obtain ⟨parts, rest, befores, between⟩ := good
  cases key with
  | nil => cases befores
  | cons p key =>
      obtain ⟨rfl, rfl⟩ := List.cons.inj befores
      have later : ∀ q ∈ key, q.Good ∧ Blank q.before := fun q member =>
        ⟨parts q (List.mem_cons_of_mem _ member), between _ (List.mem_map_of_mem member)⟩
      obtain ⟨t, ts, makes, text⟩ :=
        OpenKey.exists_makes [] p key (parts p List.mem_cons_self) later
      refine ⟨t, ts, makes, ?_⟩
      rw [text, render_cons, KeyPart.render]
      simp

end Gatekeeper.Toml
