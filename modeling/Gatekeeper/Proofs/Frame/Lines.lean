import Gatekeeper.Proofs.Frame.Cut

set_option autoImplicit false

/-!
# Frames line by line

The reader takes one byte at a time. Here a stream is cut into `lines` first, and a frame is read
from those: a line is of one `Kind` whatever stands around it, the headers end with the first blank
line, and of the bytes behind that line the body takes as many as the last length says
(`next_headers_eq`, `read_eq_ofLines`).
-/

namespace Gatekeeper.Frame

open Text

/-! ## Lines -/

/-- The lines of a byte string, each with its line feed. The last one may lack it. -/
def lines : List UInt8 → List (List UInt8)
  | [] => []
  | b :: rest =>
    if b = 10 then [b] :: lines rest
    else
      match lines rest with
      | [] => [[b]]
      | line :: more => (b :: line) :: more

variable {x rest bytes : List UInt8}

theorem flatten_lines (bytes : List UInt8) : (lines bytes).flatten = bytes := by
  induction bytes with
  | nil => rfl
  | cons b rest ih =>
      rw [lines]
      split
      · rw [List.flatten_cons, ih, List.singleton_append]
      · split
        next none_left =>
          rw [none_left] at ih
          rw [← ih]
          rfl
        next line more some_left =>
          rw [some_left] at ih
          rw [← ih]
          rfl

/-- A line ends with its line feed. -/
theorem lines_append (inside : 10 ∉ x) : lines (x ++ 10 :: rest) = (x ++ [10]) :: lines rest := by
  induction x with
  | nil => rfl
  | cons b x ih =>
      have other : b ≠ 10 := fun same => inside (same ▸ List.mem_cons_self)
      have inside' : 10 ∉ x := fun member => inside (List.mem_cons_of_mem b member)
      rw [List.cons_append, lines, if_neg other, ih inside']
      rfl

/-- What has no line feed is one line. -/
theorem lines_of_open (some_byte : x ≠ []) (inside : 10 ∉ x) : lines x = [x] := by
  induction x with
  | nil => exact absurd rfl some_byte
  | cons b x ih =>
      have other : b ≠ 10 := fun same => inside (same ▸ List.mem_cons_self)
      rw [lines, if_neg other]
      by_cases last : x = []
      · rw [last]
        rfl
      · rw [ih last fun member => inside (List.mem_cons_of_mem b member)]

/-- Bytes begin with a line. -/
theorem exists_line (some_byte : bytes ≠ []) :
    ∃ line ls, lines bytes = line :: ls ∧ line ≠ [] ∧ bytes = line ++ ls.flatten := by
  obtain ⟨line, ls, split, within⟩ : ∃ line ls, lines bytes = line :: ls ∧ line ≠ [] := by
    cases bytes with
    | nil => exact absurd rfl some_byte
    | cons b rest =>
        rw [lines]
        split
        · exact ⟨_, _, rfl, List.cons_ne_nil _ _⟩
        · split <;> exact ⟨_, _, rfl, List.cons_ne_nil _ _⟩
  have whole := flatten_lines bytes
  rw [split, List.flatten_cons] at whole
  exact ⟨line, ls, split, within, whole.symm⟩

/-- What holds of nothing, of an open line, and of a line with more behind it holds of every byte
string. -/
theorem line_induction {P : List UInt8 → Prop} (nil : P [])
    (last : ∀ x, x ≠ [] → 10 ∉ x → P x)
    (line : ∀ x rest, 10 ∉ x → P rest → P (x ++ 10 :: rest)) (bytes : List UInt8) : P bytes := by
  -- the open line is the longest beginning without a line feed
  have key : ∀ bytes x, 10 ∉ x → P (x ++ bytes) := by
    intro bytes
    induction bytes with
    | nil =>
        intro x inside
        rw [List.append_nil]
        by_cases empty : x = []
        · rw [empty]
          exact nil
        · exact last x empty inside
    | cons b bytes ih =>
        intro x inside
        by_cases ends : b = 10
        · rw [ends]
          exact line x bytes inside (ih [] nofun)
        · have inside' : 10 ∉ x ++ [b] := by
            simp only [List.mem_append, List.mem_singleton, not_or]
            exact ⟨inside, Ne.symm ends⟩
          have longer := ih (x ++ [b]) inside'
          rwa [List.append_assoc, List.singleton_append] at longer
  exact key bytes [] nofun

/-! ## Kinds of lines -/

/-- What a line is among the headers. -/
inductive Kind
  /-- The line is not UTF-8. -/
  | garbled (fault : Utf8.Fault)
  /-- The line that ends the headers. -/
  | blank
  /-- A header that says nothing about the body. -/
  | other
  /-- A header that gives the length of the body. -/
  | length (n : Nat)
  /-- A header that should give the length and does not. -/
  | badLength (value : String)
  deriving DecidableEq

/-- The kind of a line. -/
def kind (line : List UInt8) : Kind :=
  match Utf8.decode line with
  | .error fault => .garbled fault
  | .ok s =>
    if trim s = [] then .blank
    else
      match lengthIn (trim s) with
      | none => .other
      | some (.ok n) => .length n
      | some (.error value) => .badLength value

/-- What a line of a kind does to the reader. -/
def Kind.progress (length : Option Nat) : Kind → Progress
  | .garbled fault => .report (.fault (.garbledHeader fault))
  | .blank => Decoder.endHeaders length
  | .other => .more (.headers [] false length)
  | .length n => .more (.headers [] false (some n))
  | .badLength value => .report (.fault (.badLength value))

/-- The length that a line gives. -/
def Kind.length? : Kind → Option Nat
  | .length n => some n
  | _ => none

/-- Whether the line is a header that the reader accepts. -/
def Kind.IsHeader : Kind → Prop
  | .other | .length _ => True
  | .garbled _ | .blank | .badLength _ => False

/-- The length that some lines give: the last one counts. -/
def lastLength (ls : List (List UInt8)) : Option Nat :=
  (ls.filterMap fun line => (kind line).length?).getLast?

theorem lastLength_cons (line : List UInt8) (ls : List (List UInt8)) :
    lastLength (line :: ls) = (lastLength ls).or (kind line).length? := by
  rw [lastLength, List.filterMap_cons]
  cases (kind line).length? with
  | none => exact (Option.or_none ..).symm
  | some n =>
      rw [List.getLast?_cons]
      cases found : lastLength ls with
      | none => rw [lastLength] at found; rw [found]; rfl
      | some m => rw [lastLength] at found; rw [found]; rfl

theorem endLine_eq (line : List UInt8) (length : Option Nat) :
    Decoder.endLine line length = (kind line).progress length := by
  unfold Decoder.endLine kind
  cases Utf8.decode line with
  | error fault => rfl
  | ok s =>
      dsimp only
      by_cases empty : trim s = []
      · rw [if_pos (List.isEmpty_iff.mpr empty), if_pos empty]
        rfl
      · rw [if_neg fun blank => empty (List.isEmpty_iff.mp blank), if_neg empty]
        cases lengthIn (trim s) with
        | none => rfl
        | some given => cases given <;> rfl

/-! ## Reading from lines -/

/-- The body, and what is left behind it. -/
def ofBody : Option Nat → List UInt8 → Option Outcome × List UInt8
  | none, bytes => (some (.fault .missingLength), bytes)
  | some n, bytes =>
    if maxBody < n then (some (.fault (.tooLarge n)), bytes)
    else if n ≤ bytes.length then (some (readBody (bytes.take n)), bytes.drop n)
    else (some (.fault .shortBody), [])

/-- The report on a frame with the given lines, and what is left behind it. A frame without a line
is the end of the stream. -/
def ofLines (first : Bool) (length : Option Nat) : List (List UInt8) → Option Outcome × List UInt8
  | [] => (if first then none else some (.fault .truncatedHeaders), [])
  | line :: rest =>
    match kind line with
    | .garbled fault => (some (.fault (.garbledHeader fault)), rest.flatten)
    | .blank => ofBody length rest.flatten
    | .other => ofLines false length rest
    | .length n => ofLines false (some n) rest
    | .badLength value => (some (.fault (.badLength value)), rest.flatten)

/-- After a header there is another line. -/
theorem ofLines_of_isHeader {line : List UInt8} (header : (kind line).IsHeader) (first : Bool)
    (length : Option Nat) (ls : List (List UInt8)) :
    ofLines first length (line :: ls) = ofLines false ((kind line).length?.or length) ls := by
  rw [ofLines]
  cases found : kind line with
  | other => rfl
  | length n => rfl
  | garbled fault =>
      rw [found] at header
      cases header
  | blank =>
      rw [found] at header
      cases header
  | badLength value =>
      rw [found] at header
      cases header

/-- What a line decides: the frame ends with a fault, its body follows, or there is another line. -/
theorem ofLines_cons (first : Bool) (length : Option Nat) (line : List UInt8)
    (ls : List (List UInt8)) :
    (kind line ≠ .blank ∧
      ∃ f, ofLines first length (line :: ls) = (some (.fault f), ls.flatten)) ∨
    (kind line = .blank ∧ ofLines first length (line :: ls) = ofBody length ls.flatten) ∨
    ((kind line).IsHeader ∧
      ofLines first length (line :: ls) = ofLines false ((kind line).length?.or length) ls) := by
  rw [ofLines]
  cases kind line with
  | garbled fault => exact .inl ⟨nofun, _, rfl⟩
  | blank => exact .inr (.inl ⟨rfl, rfl⟩)
  | other => exact .inr (.inr ⟨trivial, rfl⟩)
  | length n => exact .inr (.inr ⟨trivial, rfl⟩)
  | badLength value => exact .inl ⟨nofun, _, rfl⟩

namespace Decoder

variable {d d' : Decoder} {first : Bool} {length : Option Nat}

/-- Bytes that bring no report are passed over. -/
theorem next_append (fed : d.feed bytes = ([], d')) (rest : List UInt8) :
    d.next (bytes ++ rest) = d'.next rest := by
  induction bytes generalizing d with
  | nil =>
      cases fed
      rfl
  | cons b bytes ih =>
      cases step : d.step b with
      | more d'' =>
          rw [feed_cons_more step] at fed
          rw [List.cons_append, next, step]
          exact ih fed
      | report o =>
          rw [feed_cons_report step] at fed
          cases fed

/-- The stream may not end within a body. -/
theorem next_body_of_short {n : Nat} (read : List UInt8) (short : bytes.length < n) :
    (body n read).next bytes = (some (.fault .shortBody), []) := by
  induction bytes generalizing n read with
  | nil => rfl
  | cons b bytes ih =>
      rw [List.length_cons] at short
      have more : (body n read).step b = .more (body (n - 1) (b :: read)) := if_neg (by omega)
      rw [next, more]
      exact ih (b :: read) (by omega)

theorem next_body {n : Nat} (positive : 0 < n) (bytes : List UInt8) :
    (body n []).next bytes =
      if n ≤ bytes.length then (some (readBody (bytes.take n)), bytes.drop n)
      else (some (.fault .shortBody), []) := by
  split
  next enough =>
    have taken : (bytes.take n).length = n := by rw [List.length_take, Nat.min_eq_left enough]
    have some_byte : bytes.take n ≠ [] := by
      rw [← List.length_pos_iff, taken]
      exact positive
    have fed := feed_body [] some_byte
    rw [taken, List.reverse_nil, List.nil_append] at fed
    have called := @next_of_report _ _ (bytes.drop n) _ fed
    rwa [List.take_append_drop] at called
  next short => exact next_body_of_short [] (Nat.lt_of_not_le short)

/-- What follows on the end of the headers: the reader goes on with the bytes behind them. -/
theorem endHeaders_cases (length : Option Nat) (bytes : List UInt8) :
    (∃ o, endHeaders length = .report o ∧ ofBody length bytes = (some o, bytes)) ∨
      ∃ n, endHeaders length = .more (body n []) ∧
        ofBody length bytes = (body n []).next bytes := by
  cases length with
  | none => exact .inl ⟨_, rfl, rfl⟩
  | some n =>
      rw [endHeaders, ofBody]
      by_cases large : maxBody < n
      · rw [if_pos large, if_pos large]
        exact .inl ⟨_, rfl, rfl⟩
      · rw [if_neg large, if_neg large]
        by_cases empty : n = 0
        · rw [if_pos empty, empty, if_pos (Nat.zero_le _)]
          exact .inl ⟨_, rfl, rfl⟩
        · rw [if_neg empty]
          exact .inr ⟨n, rfl, (next_body (Nat.pos_of_ne_zero empty) bytes).symm⟩

/-- A line is read at its end, and what is behind it with what the line says. -/
theorem next_line (inside : 10 ∉ x) :
    (headers [] first length).next (x ++ 10 :: rest) =
      match (kind (x ++ [10])).progress length with
      | .more d => d.next rest
      | .report o => (some o, rest) := by
  rw [next_append (feed_inside [] first length inside), List.append_nil, next, step, if_pos rfl,
    List.reverse_cons, List.reverse_reverse]
  cases said : (kind (x ++ [10])).progress length <;> simp only [endLine_eq, said]

/-- **A frame is read line by line.** -/
theorem next_headers_eq (first : Bool) (length : Option Nat) (bytes : List UInt8) :
    (headers [] first length).next bytes = ofLines first length (lines bytes) := by
  induction bytes using line_induction generalizing first length with
  | nil => rfl
  | last x some_byte inside =>
      -- the last line lacks its line feed: it is read when the stream ends
      have fed := feed_inside [] first length inside
      rw [List.append_nil] at fed
      rw [next_of_silent fed, lines_of_open some_byte inside, ofLines, finish.eq_def]
      obtain ⟨b, line, reversed⟩ := List.exists_cons_of_ne_nil
        (fun empty => some_byte (List.reverse_eq_nil_iff.mp empty))
      rw [reversed]
      dsimp only
      rw [← reversed, List.reverse_reverse, endLine_eq]
      cases kind x with
      | garbled fault => rfl
      | blank =>
          rw [Kind.progress, List.flatten_nil]
          rcases endHeaders_cases length [] with ⟨o, ended, read⟩ | ⟨n, ended, read⟩
          · rw [ended, read]
          · rw [ended, read]
            rfl
      | other => rfl
      | length n => rfl
      | badLength value => rfl
  | line x rest inside ih =>
      rw [next_line inside, lines_append inside, ofLines, flatten_lines]
      cases kind (x ++ [10]) with
      | garbled fault => rfl
      | blank =>
          rw [Kind.progress]
          rcases endHeaders_cases length rest with ⟨o, ended, read⟩ | ⟨n, ended, read⟩
          · rw [ended, read]
          · rw [ended, read]
      | other => exact ih false length
      | length n => exact ih false (some n)
      | badLength value => rfl

end Decoder

/-- On the lines of a stream: the reader begins with nothing read. -/
theorem read_eq_ofLines (bytes : List UInt8) : read bytes = ofLines true none (lines bytes) :=
  Decoder.next_headers_eq true none bytes

end Gatekeeper.Frame
