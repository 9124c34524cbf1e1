import Gatekeeper.Proofs.Frame.Lines
import Gatekeeper.Proofs.Text.Decode
import Gatekeeper.Proofs.Text.Find
import Gatekeeper.Proofs.Text.Trim

set_option autoImplicit false

/-!
# The grammar of frames

Which streams begin with the frame of a value (`IsFrame`), said in terms of texts: headers, a blank
line, and a body that is as long as the last of the headers with the name `Content-Length` says. The
reader returns a value if a stream begins with such a frame, and takes just that frame; of the
headers only those with the name matter (`frames_are_exactly_read`).
-/

namespace Gatekeeper.Frame

open Text

/-! ## Headers as texts -/

/-- The bytes of a line with the text. -/
def line (s : List Char) : List UInt8 := Utf8.encode (s ++ ['\n'])

/-- Whether a header gives the length of the body: the text before its first colon is the name. -/
def namesLength (s : List Char) : Bool :=
  s.contains ':' && sameName (trim (s.takeWhile (· != ':'))) lengthHeader.toList

/-- What a header says: the text after its first colon. -/
def headerValue (s : List Char) : List Char := trim ((s.dropWhile (· != ':')).drop 1)

/-- The header lines, the text of the blank line and the body of a frame that carries the value. -/
structure IsFrame (headers : List (List Char)) (blank : List Char) (body : List UInt8) (v : Json) :
    Prop where
  /-- A header is one line and is not blank. -/
  solid : ∀ s ∈ headers, '\n' ∉ s ∧ ∃ c ∈ s, isBlank c = false
  /-- The line behind the headers is blank. -/
  ending : '\n' ∉ blank ∧ ∀ c ∈ blank, isBlank c
  /-- All headers that should give a length do. -/
  numbers : ∀ s ∈ headers, namesLength s → (readNat64? (headerValue s)).isSome
  /-- The last of them gives the length of the body. -/
  last : ∃ s, (headers.filter namesLength).getLast? = some s ∧
    readNat64? (headerValue s) = some body.length
  /-- The body is not too long. -/
  short : body.length ≤ maxBody
  /-- The body is the text of the value. -/
  value : ∃ text, body = Utf8.encode text ∧ Json.read? text = some v

/-! ## Kinds of lines -/

variable {s blank : List Char} {headers headers' : List (List Char)} {bytes rest : List UInt8}

/-- What a trimmed line says, in terms of the whole line. -/
theorem lengthIn_trim (s : List Char) : lengthIn (trim s) =
    if namesLength s then
      some (match readNat64? (headerValue s) with
        | some n => .ok n
        | none => .error (String.ofList (headerValue s)))
    else none := by
  by_cases colon : ':' ∈ s
  · obtain ⟨key, value, rfl, absent⟩ := List.eq_append_cons_of_mem colon
    have passed : ∀ c ∈ key, (c != ':') = true :=
      fun c member => bne_iff_ne.mpr fun same => absent (same ▸ member)
    have key_text : (key ++ ':' :: value).takeWhile (· != ':') = key := by
      rw [List.takeWhile_append_of_pos passed, List.takeWhile_cons_of_neg (by simp),
        List.append_nil]
    have value_text : ((key ++ ':' :: value).dropWhile (· != ':')).drop 1 = value := by
      rw [List.dropWhile_append_of_pos passed, List.dropWhile_cons_of_neg (by simp)]
      rfl
    have absent' : ∀ c ∈ trimStart key, (c == ':') = false := by
      intro c member
      refine beq_eq_false_iff_ne.mpr fun same => absent (same ▸ ?_)
      exact (List.dropWhile_suffix isBlank).subset member
    have cut : cutAt? (· == ':') (trim (key ++ ':' :: value)) =
        some (trimStart key, trimEnd value) := by
      rw [trim_append_cons (by decide)]
      exact cutAt?_append absent' rfl
    have has_colon : (key ++ ':' :: value).contains ':' = true := by simp
    cases number : readNat64? (trim value) <;>
      simp only [lengthIn, cut, namesLength, headerValue, key_text, value_text, has_colon,
        trim_trimStart, trim_trimEnd, Bool.true_and, number]
  · have uncut : cutAt? (· == ':') (trim s) = none := by
      cases found : cutAt? (· == ':') (trim s) with
      | none => rfl
      | some parts =>
          obtain ⟨c, whole, at_cut, -⟩ := cutAt?_eq_some_iff.mp found
          obtain ⟨before, after, around, -⟩ := exists_trim s
          refine absurd ?_ colon
          rw [around, whole, beq_iff_eq.mp at_cut]
          simp
    have no_colon : s.contains ':' = false := by simpa using colon
    simp only [lengthIn, uncut, namesLength, no_colon, Bool.false_and, Bool.false_eq_true, if_false]

theorem trim_line (s : List Char) : trim (s ++ ['\n']) = trim s :=
  trim_blanks [] s ['\n'] nofun (List.forall_mem_singleton.mpr (by decide))

/-- A line is blank if its text is. -/
theorem kind_line_blank (all : ∀ c ∈ s, isBlank c) : kind (line s) = .blank := by
  simp only [kind, line, Utf8.decode_encode, trim_line, trim_eq_nil_iff.mpr all, if_true]

/-- What another line is among the headers. -/
theorem kind_line (solid : ∃ c ∈ s, isBlank c = false) : kind (line s) =
    if namesLength s then
      match readNat64? (headerValue s) with
        | some n => .length n
        | none => .badLength (String.ofList (headerValue s))
    else .other := by
  have some_char : trim s ≠ [] := by
    obtain ⟨c, member, solid⟩ := solid
    intro empty
    rw [trim_eq_nil_iff.mp empty c member] at solid
    cases solid
  simp only [kind, line, Utf8.decode_encode, trim_line, if_neg some_char, lengthIn_trim]
  cases namesLength s with
  | false => rfl
  | true => cases readNat64? (headerValue s) <;> rfl

/-- The bytes of a line that is closed and is UTF-8 are those of a text. -/
theorem exists_line_text {x : List UInt8} (inside : 10 ∉ x)
    (readable : ∀ fault, kind (x ++ [10]) ≠ .garbled fault) :
    ∃ s, x ++ [10] = line s ∧ '\n' ∉ s := by
  obtain ⟨text, same⟩ : ∃ text, x ++ [10] = Utf8.encode text := by
    cases decoded : Utf8.decode (x ++ [10]) with
    | error fault => exact absurd (by simp only [kind, decoded]) (readable fault)
    | ok text => exact ⟨text, Utf8.eq_encode_of_decode decoded⟩
  have some_char : text ≠ [] := by
    rintro rfl
    simp [Utf8.encode] at same
  -- the last byte belongs to the last character, which is the line feed then
  obtain ⟨s, c, rfl⟩ : ∃ s c, text = s ++ [c] :=
    ⟨_, _, (List.dropLast_append_getLast some_char).symm⟩
  have split : Utf8.encode (s ++ [c]) = Utf8.encode s ++ String.utf8EncodeChar c := by
    rw [Utf8.encode, List.flatMap_append, List.flatMap_singleton]
    rfl
  rw [split] at same
  have last : c = '\n' := by
    have byte : 10 ∈ String.utf8EncodeChar c := by
      have ends := congrArg List.getLast? same
      rw [List.getLast?_concat, List.getLast?_append_of_ne_nil _ String.utf8EncodeChar_ne_nil]
        at ends
      exact List.mem_of_getLast? ends.symm
    have feed : 10 ∈ Utf8.encode [c] := by
      rw [Utf8.encode, List.flatMap_singleton]
      exact byte
    exact (List.mem_singleton.mp (mem_of_lineFeed_mem_encode feed)).symm
  subst last
  have before : x = Utf8.encode s := List.append_cancel_right same
  refine ⟨s, by rw [line, split, same], fun member => inside ?_⟩
  rw [before]
  exact List.mem_flatMap.mpr ⟨'\n', member, by decide⟩

/-! ## Frames from lines -/

variable {v : Json} {first : Bool} {length : Option Nat} {ls heads : List (List UInt8)}

/-- Headers are passed over, and the last length among them counts. -/
theorem ofLines_append (accepted : ∀ h ∈ heads, (kind h).IsHeader) (first : Bool)
    (length : Option Nat) (ls : List (List UInt8)) :
    ofLines first length (heads ++ ls) =
      ofLines (first && heads.isEmpty) ((lastLength heads).or length) ls := by
  induction heads generalizing first length with
  | nil => rw [List.nil_append, List.isEmpty_nil, Bool.and_true]; rfl
  | cons h heads ih =>
      obtain ⟨header, accepted⟩ := List.forall_mem_cons.mp accepted
      rw [List.cons_append, ofLines_of_isHeader header, ih accepted, lastLength_cons,
        Option.or_assoc, List.isEmpty_cons, Bool.and_false, Bool.false_and]

theorem readBody_eq_value_iff {body : List UInt8} : readBody body = .value v ↔
    ∃ text, body = Utf8.encode text ∧ Json.read? text = some v := by
  constructor
  · intro read
    rw [readBody] at read
    cases decoded : Utf8.decode body with
    | error fault =>
        rw [decoded] at read
        cases read
    | ok text =>
        rw [decoded] at read
        dsimp only at read
        split at read
        next v' parsed =>
          cases read
          exact ⟨text, Utf8.eq_encode_of_decode decoded, parsed⟩
        next => cases read
  · rintro ⟨text, rfl, parsed⟩
    simp only [readBody, Utf8.decode_encode, parsed]

/-- The body is as long as was said, and all behind it is left. -/
theorem ofBody_eq_value_iff : ofBody length bytes = (some (.value v), rest) ↔
    ∃ body, length = some body.length ∧ body.length ≤ maxBody ∧ bytes = body ++ rest ∧
      readBody body = .value v := by
  constructor
  · intro read
    unfold ofBody at read
    split at read
    · cases read
    next n =>
      split at read
      · cases read
      next small =>
        split at read
        next enough =>
          obtain ⟨report, rfl⟩ := Prod.mk.inj read
          have size : (bytes.take n).length = n := List.length_take_of_le enough
          refine ⟨bytes.take n, by rw [size], ?_, (List.take_append_drop n bytes).symm,
            Option.some.inj report⟩
          rw [size]
          exact Nat.le_of_not_lt small
        next => cases read
  · rintro ⟨body, rfl, short, rfl, read⟩
    rw [ofBody, if_neg (Nat.not_lt_of_le short), if_pos (by simp), List.take_left, List.drop_left,
      read]

/-- **The lines of a frame**: headers, a blank line, and lines that make up body and rest. -/
theorem ofLines_eq_value_iff : ofLines first length ls = (some (.value v), rest) ↔
    ∃ heads blank tail body, ls = heads ++ blank :: tail ∧ (∀ h ∈ heads, (kind h).IsHeader) ∧
      kind blank = .blank ∧ (lastLength heads).or length = some body.length ∧
      body.length ≤ maxBody ∧ tail.flatten = body ++ rest ∧ readBody body = .value v := by
  constructor
  · intro read
    induction ls generalizing first length with
    | nil => cases first <;> cases read
    | cons l ls ih =>
        rcases ofLines_cons first length l ls with
          ⟨_, f, step⟩ | ⟨blank, step⟩ | ⟨header, step⟩ <;> rw [step] at read
        · cases read
        · obtain ⟨body, given, short, parts, value⟩ := ofBody_eq_value_iff.mp read
          exact ⟨[], l, ls, body, rfl, nofun, blank, given, short, parts, value⟩
        · obtain ⟨heads, blank, tail, body, rfl, accepted, ends, given, rest⟩ := ih read
          refine ⟨l :: heads, blank, tail, body, rfl, List.forall_mem_cons.mpr ⟨header, accepted⟩,
            ends, ?_, rest⟩
          rw [lastLength_cons, Option.or_assoc, given]
  · rintro ⟨heads, blank, tail, body, rfl, accepted, ends, given, short, parts, value⟩
    rw [ofLines_append accepted, ofLines, ends, given]
    exact ofBody_eq_value_iff.mpr ⟨body, rfl, short, parts, value⟩

/-! ## Frames from texts -/

/-- A line of text is one line. -/
theorem lines_line (inside : '\n' ∉ s) (rest : List UInt8) :
    lines (line s ++ rest) = line s :: lines rest := by
  have split : line s = Utf8.encode s ++ [10] := List.flatMap_append
  rw [split, List.append_assoc, List.singleton_append]
  exact lines_append fun byte => inside (mem_of_lineFeed_mem_encode byte)

theorem lines_flatMap_line (inside : ∀ s ∈ headers, '\n' ∉ s) (rest : List UInt8) :
    lines (headers.flatMap line ++ rest) = headers.map line ++ lines rest := by
  induction headers with
  | nil => rfl
  | cons s headers ih =>
      obtain ⟨first, others⟩ := List.forall_mem_cons.mp inside
      rw [List.flatMap_cons, List.append_assoc, lines_line first, ih others]
      rfl

/-- A header with a number, or without the name, is one that the reader accepts. -/
theorem isHeader_kind_line (solid : ∃ c ∈ s, isBlank c = false)
    (number : namesLength s → (readNat64? (headerValue s)).isSome) :
    (kind (line s)).IsHeader ∧ (kind (line s)).length? =
      if namesLength s then readNat64? (headerValue s) else none := by
  rw [kind_line solid]
  cases named : namesLength s with
  | false => exact ⟨trivial, rfl⟩
  | true =>
      obtain ⟨n, given⟩ := Option.isSome_iff_exists.mp (number named)
      rw [given]
      exact ⟨trivial, rfl⟩

theorem number_of_isHeader (solid : ∃ c ∈ s, isBlank c = false)
    (accepted : (kind (line s)).IsHeader) (named : namesLength s) :
    (readNat64? (headerValue s)).isSome := by
  rw [kind_line solid, if_pos named] at accepted
  cases given : readNat64? (headerValue s) with
  | some n => rfl
  | none =>
      rw [given] at accepted
      cases accepted

/-- The last length is that of the last header with the name. -/
theorem lastLength_map_line (solid : ∀ s ∈ headers, ∃ c ∈ s, isBlank c = false)
    (numbers : ∀ s ∈ headers, namesLength s → (readNat64? (headerValue s)).isSome) :
    lastLength (headers.map line) =
      (headers.filter namesLength).getLast?.bind fun s => readNat64? (headerValue s) := by
  induction headers with
  | nil => rfl
  | cons s headers ih =>
      obtain ⟨solid, others⟩ := List.forall_mem_cons.mp solid
      obtain ⟨number, numbers⟩ := List.forall_mem_cons.mp numbers
      rw [List.map_cons, lastLength_cons, ih others numbers, (isHeader_kind_line solid number).2]
      cases named : namesLength s with
      | false =>
          rw [List.filter_cons_of_neg (by simp [named]), if_neg nofun, Option.or_none]
      | true =>
          rw [List.filter_cons_of_pos named, List.getLast?_cons, if_pos rfl]
          -- the last one counts, so a header gives the length only if no later one has the name
          cases last : (headers.filter namesLength).getLast? with
          | none => rfl
          | some s' =>
              -- a later header with the name has a number too
              obtain ⟨member, named'⟩ := List.mem_filter.mp (List.mem_of_getLast? last)
              obtain ⟨n, given⟩ := Option.isSome_iff_exists.mp (numbers s' member named')
              simp only [Option.bind_some, Option.getD_some, given, Option.some_or]

theorem blank_of_kind_line (ends : kind (line s) = .blank) : ∀ c ∈ s, isBlank c := by
  by_contra some_solid
  have solid : ∃ c ∈ s, isBlank c = false := by simpa using some_solid
  rw [kind_line solid] at ends
  split at ends
  · split at ends <;> cases ends
  · cases ends

/-- Lines with another one behind them are closed. -/
theorem closed_of_lines {bytes : List UInt8} {before after : List (List UInt8)} {l : List UInt8}
    (split : lines bytes = before ++ l :: after) (more : after ≠ []) :
    ∃ x, l = x ++ [10] ∧ 10 ∉ x := by
  induction bytes using line_induction generalizing before with
  | nil => simp [lines] at split
  | last x some_byte inside =>
      rw [lines_of_open some_byte inside] at split
      cases before with
      | nil => exact absurd (List.cons.inj split).2.symm more
      | cons b before => simp at split
  | line x rest inside ih =>
      rw [lines_append inside] at split
      cases before with
      | nil => exact ⟨x, (List.cons.inj split).1.symm, inside⟩
      | cons b before => exact ih (List.cons.inj split).2

/-- Lines with more behind them that are no faults are lines of text. -/
theorem exists_texts {bytes : List UInt8} {before after heads : List (List UInt8)}
    (split : lines bytes = before ++ (heads ++ after)) (more : after ≠ [])
    (accepted : ∀ h ∈ heads, (kind h).IsHeader) :
    ∃ headers : List (List Char), heads = headers.map line ∧
      ∀ s ∈ headers, '\n' ∉ s ∧ ∃ c ∈ s, isBlank c = false := by
  induction heads generalizing before with
  | nil => exact ⟨[], rfl, nofun⟩
  | cons h heads ih =>
      obtain ⟨header, accepted⟩ := List.forall_mem_cons.mp accepted
      obtain ⟨x, same, inside⟩ := closed_of_lines split (by simp [more])
      obtain ⟨s, same', single⟩ := exists_line_text inside fun fault garbled => by
        rw [same, garbled] at header
        exact header
      have solid : ∃ c ∈ s, isBlank c = false := by
        by_contra none_solid
        have blank : ∀ c ∈ s, isBlank c := by simpa using none_solid
        rw [same, same', kind_line_blank blank] at header
        exact header
      have split' : lines bytes = (before ++ [h]) ++ (heads ++ after) := by
        rw [split, List.append_assoc]
        rfl
      obtain ⟨headers, rfl, all⟩ := ih split' accepted
      exact ⟨s :: headers, by rw [same, same', List.map_cons],
        List.forall_mem_cons.mpr ⟨⟨single, solid⟩, all⟩⟩

/-- **A value is read if the stream begins with its frame**, and just the frame is taken. -/
theorem read_eq_value_iff : read bytes = (some (.value v), rest) ↔
    ∃ headers blank body, IsFrame headers blank body v ∧
      bytes = headers.flatMap line ++ (line blank ++ (body ++ rest)) := by
  rw [read_eq_ofLines, ofLines_eq_value_iff]
  constructor
  · rintro ⟨heads, last, tail, body, split, accepted, ends, given, short, parts, value⟩
    obtain ⟨text, rfl, parsed⟩ := readBody_eq_value_iff.mp value
    -- a body has bytes, so there are lines behind the headers
    have more : tail ≠ [] := by
      rintro rfl
      obtain ⟨empty, -⟩ := List.append_eq_nil_iff.mp parts.symm
      cases text with
      | nil => cases parsed
      | cons c text => exact String.utf8EncodeChar_ne_nil (List.append_eq_nil_iff.mp empty).1
    obtain ⟨x, rfl, inside⟩ := closed_of_lines split more
    obtain ⟨blank, same, single⟩ := exists_line_text inside fun fault garbled => by
      rw [garbled] at ends
      cases ends
    obtain ⟨headers, rfl, solid⟩ := @exists_texts _ [] _ _ split (by simp) accepted
    have solid' : ∀ s ∈ headers, ∃ c ∈ s, isBlank c = false := fun s member => (solid s member).2
    have numbers : ∀ s ∈ headers, namesLength s → (readNat64? (headerValue s)).isSome :=
      fun s member => number_of_isHeader (solid' s member) (accepted _ (List.mem_map_of_mem member))
    rw [Option.or_none, lastLength_map_line solid' numbers] at given
    rw [same] at split ends
    refine ⟨headers, blank, Utf8.encode text, ⟨solid, ⟨single, blank_of_kind_line ends⟩, numbers,
      Option.bind_eq_some_iff.mp given, short, text, rfl, parsed⟩, ?_⟩
    rw [← flatten_lines bytes, split, List.flatten_append, List.flatten_cons, parts,
      List.flatMap_def]
  · rintro ⟨headers, blank, body, frame, rfl⟩
    have solid : ∀ s ∈ headers, ∃ c ∈ s, isBlank c = false :=
      fun s member => (frame.solid s member).2
    refine ⟨headers.map line, line blank, lines (body ++ rest), body, ?_, ?_,
      kind_line_blank frame.ending.2, ?_, frame.short, flatten_lines _,
      readBody_eq_value_iff.mpr frame.value⟩
    · rw [lines_flatMap_line fun s member => (frame.solid s member).1, lines_line frame.ending.1]
    · intro h member
      obtain ⟨s, among, rfl⟩ := List.mem_map.mp member
      exact (isHeader_kind_line (solid s among) (frame.numbers s among)).1
    · rw [Option.or_none, lastLength_map_line solid frame.numbers]
      exact Option.bind_eq_some_iff.mpr frame.last

/-! ## Other headers -/

/-- Two calls report the same, and leave the same behind a value. -/
def Agree (a b : Option Outcome × List UInt8) : Prop :=
  a.1 = b.1 ∧ ∀ v, a.1 = some (.value v) → a.2 = b.2

theorem Agree.refl (a : Option Outcome × List UInt8) : Agree a a := ⟨rfl, fun _ _ => rfl⟩

theorem Agree.symm {a b : Option Outcome × List UInt8} (same : Agree a b) : Agree b a :=
  ⟨same.1.symm, fun v value => (same.2 v (same.1.trans value)).symm⟩

theorem Agree.trans {a b c : Option Outcome × List UInt8} (same : Agree a b) (same' : Agree b c) :
    Agree a c :=
  ⟨same.1.trans same'.1, fun v value => (same.2 v value).trans (same'.2 v (same.1 ▸ value))⟩

/-- Only the first line of a frame may be missing. -/
theorem ofLines_first (some_line : ls ≠ []) (first : Bool) (length : Option Nat) :
    ofLines first length ls = ofLines false length ls := by
  cases ls with
  | nil => exact absurd rfl some_line
  | cons l ls => rfl

/-- **Headers without the name may be left out**, or put in. -/
theorem agree_filter (solid : ∀ s ∈ headers, ∃ c ∈ s, isBlank c = false) (first : Bool)
    (length : Option Nat) (ls : List (List UInt8)) :
    Agree (ofLines first length (headers.map line ++ ls))
      (ofLines (first && headers.isEmpty) length
        ((headers.filter namesLength).map line ++ ls)) := by
  induction headers generalizing first length with
  | nil =>
      rw [List.isEmpty_nil, Bool.and_true]
      exact .refl _
  | cons s headers ih =>
      obtain ⟨solid, others⟩ := List.forall_mem_cons.mp solid
      have later (length : Option Nat) := ih others false length
      simp only [Bool.false_and] at later
      rw [List.isEmpty_cons, Bool.and_false, List.map_cons, List.cons_append, ofLines,
        kind_line solid]
      cases named : namesLength s with
      | false =>
          rw [List.filter_cons_of_neg (by simp [named])]
          exact later length
      | true =>
          rw [List.filter_cons_of_pos named, List.map_cons, List.cons_append, ofLines,
            kind_line solid, if_pos named]
          cases readNat64? (headerValue s) with
          | some n => exact later (some n)
          | none => exact ⟨rfl, fun v same => by cases same⟩

/-- What the reader makes of bytes depends on the headers with the name and on what follows. -/
theorem agree_read {tail : List UInt8}
    (solid : ∀ s ∈ headers, '\n' ∉ s ∧ ∃ c ∈ s, isBlank c = false)
    (some_byte : headers.flatMap line ++ tail ≠ []) :
    Agree (read (headers.flatMap line ++ tail))
      (ofLines false none ((headers.filter namesLength).map line ++ lines tail)) := by
  obtain ⟨l, ls, split, -⟩ := exists_line some_byte
  have some_line : lines (headers.flatMap line ++ tail) ≠ [] := by
    rw [split]
    exact List.cons_ne_nil l ls
  have agree := agree_filter (fun s member => (solid s member).2) false none (lines tail)
  rwa [← lines_flatMap_line (fun s member => (solid s member).1), ← ofLines_first some_line true,
    ← read_eq_ofLines, Bool.false_and] at agree

theorem line_ne_nil (s : List Char) : line s ≠ [] := by
  simp [line, Utf8.encode, String.utf8EncodeChar_ne_nil]

theorem Agree.value_iff {a b : Option Outcome × List UInt8} (same : Agree a b) :
    a = (some (.value v), rest) ↔ b = (some (.value v), rest) := by
  have half {a b : Option Outcome × List UInt8} (same : Agree a b)
      (read : a = (some (.value v), rest)) : b = (some (.value v), rest) := by
    have report : a.1 = some (.value v) := congrArg Prod.fst read
    have left := (same.2 v report).symm.trans (congrArg Prod.snd read)
    exact Prod.ext (same.1.symm.trans report) left
  exact ⟨half same, half same.symm⟩

/-- Where there is nothing no value is read either way. -/
theorem read_value_iff {tail : List UInt8}
    (solid : ∀ s ∈ headers, '\n' ∉ s ∧ ∃ c ∈ s, isBlank c = false) :
    read (headers.flatMap line ++ tail) = (some (.value v), rest) ↔
      ofLines false none ((headers.filter namesLength).map line ++ lines tail) =
        (some (.value v), rest) := by
  -- where there is nothing the one call reports the end and the other a fault, but neither a value
  by_cases empty : headers.flatMap line ++ tail = []
  · obtain ⟨no_header, rfl⟩ := List.append_eq_nil_iff.mp empty
    cases headers with
    | nil =>
        constructor
        · intro read
          cases read
        · intro read
          cases read
    | cons s headers => exact absurd (List.append_eq_nil_iff.mp no_header).1 (line_ne_nil s)
  · exact (agree_read solid empty).value_iff

/-- **Frames are read, and nothing else is read as a value.** A call returns a value if what is left
of the stream begins with a frame of the value, and then it has taken just this frame: header lines
that are not blank, a blank line, and a body whose length the last header with the name
`Content-Length` gives, where every header with the name gives a number.

Of the headers only those with this name matter. If two streams differ in the others, be it in their
number, their order or what they say, then the same value is returned on both, if on one, and the
same is left. Any other report is the same too, unless one of the streams is empty. -/
theorem frames_are_exactly_read :
    (∀ bytes rest v, read bytes = (some (.value v), rest) ↔
      ∃ headers blank body, IsFrame headers blank body v ∧
        bytes = headers.flatMap line ++ (line blank ++ (body ++ rest))) ∧
    ∀ (headers headers' : List (List Char)) (tail : List UInt8),
      (∀ s ∈ headers ++ headers', '\n' ∉ s ∧ ∃ c ∈ s, isBlank c = false) →
      headers.filter namesLength = headers'.filter namesLength →
        let bytes := headers.flatMap line ++ tail
        let bytes' := headers'.flatMap line ++ tail
        (∀ v rest, read bytes = (some (.value v), rest) ↔ read bytes' = (some (.value v), rest)) ∧
          ((bytes = [] ↔ bytes' = []) → (read bytes).1 = (read bytes').1) := by
  refine ⟨fun bytes rest v => read_eq_value_iff, fun headers headers' tail solid same => ?_⟩
  obtain ⟨solid, solid'⟩ := List.forall_mem_append.mp solid
  refine ⟨fun v rest => ?_, fun neither => ?_⟩
  · rw [read_value_iff solid, read_value_iff solid', same]
  · by_cases empty : headers.flatMap line ++ tail = []
    · rw [empty, neither.mp empty]
    · have agree := agree_read solid empty
      have agree' := agree_read solid' fun empty' => empty (neither.mpr empty')
      rw [same] at agree
      exact (agree.trans agree'.symm).1

/-- The length is given twice, in capitals and with other headers around it, and the last one
counts: the frame of an empty object with two bytes behind it. -/
theorem frames_are_exactly_read_twice :
    let named := ["CONTENT-LENGTH :7".toList, "Content-Length:\t+2 \r".toList]
    let headers := ["X: Content-Length: 9".toList, named[0], "no colon".toList, named[1]]
    let tail := line [] ++ (Utf8.encode "\x7b\x7d".toList ++ [255, 255])
    (∀ s ∈ headers ++ named, '\n' ∉ s ∧ ∃ c ∈ s, isBlank c = false) ∧
      headers.filter namesLength = named.filter namesLength ∧
      read (headers.flatMap line ++ tail) = (some (.value (.object [])), [255, 255]) ∧
      read (named.flatMap line ++ tail) = (some (.value (.object [])), [255, 255]) := by
  intro named headers tail
  have solid : ∀ s ∈ headers ++ named, '\n' ∉ s ∧ ∃ c ∈ s, isBlank c = false := by
    have checked : ((headers ++ named).all fun s =>
        !s.contains '\n' && s.any fun c => !isBlank c) = true := by decide
    intro s member
    have both := List.all_eq_true.mp checked s member
    simpa using both
  have same : headers.filter namesLength = named.filter namesLength := by decide
  have frame : IsFrame named [] (Utf8.encode "\x7b\x7d".toList) (.object []) := by
    refine ⟨fun s member => solid s (List.mem_append_right _ member), ⟨List.not_mem_nil, nofun⟩,
      by decide, ⟨named[1], by decide, by decide⟩, by decide, "\x7b\x7d".toList, rfl, by rfl⟩
  obtain ⟨grammar, others⟩ := frames_are_exactly_read
  have bare : read (named.flatMap line ++ tail) = (some (.value (.object [])), [255, 255]) :=
    (grammar _ _ _).mpr ⟨named, [], _, frame, rfl⟩
  exact ⟨solid, same, ((others headers named tail solid same).1 _ _).mpr bare, bare⟩

end Gatekeeper.Frame
