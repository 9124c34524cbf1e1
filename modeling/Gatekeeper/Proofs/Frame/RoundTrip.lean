import Gatekeeper.Proofs.Frame.Stream
import Gatekeeper.Proofs.Text.Blank
import Gatekeeper.Proofs.Text.Decimal
import Gatekeeper.Proofs.Text.Utf8

set_option autoImplicit false

/-!
# Frames that are written are read back

The reader gets out of the headers of a frame the length of its body (`Decoder.feed_header`), takes
as many bytes (`Decoder.feed_body`), and is where it began. So it reads a sequence of frames back in
order, in whatever chunks their bytes arrive, and nothing is left over
(`written_frames_read_back`).
-/

namespace Gatekeeper.Frame

open Text

/-! ## Header lines -/

/-- The header line that gives the length of the body. -/
def lengthLine (n : Nat) : List Char := lengthHeader.toList ++ ':' :: ' ' :: writeNat n

theorem header_eq (n : Nat) : header n =
    Utf8.encode (lengthLine n ++ ['\r'] ++ ['\n']) ++ Utf8.encode (['\r'] ++ ['\n']) := by
  have ending : "\r\n\r\n".toList = ['\r'] ++ ['\n'] ++ (['\r'] ++ ['\n']) := rfl
  have colon : ": ".toList = [':', ' '] := rfl
  rw [header, ending, colon, lengthLine, Utf8.encode, Utf8.encode, Utf8.encode,
    ← List.flatMap_append]
  simp only [List.append_assoc, List.cons_append, List.nil_append]

/-- Only a line feed has its byte. -/
theorem mem_of_lineFeed_mem_encode {s : List Char} (byte : 10 ∈ Utf8.encode s) : '\n' ∈ s := by
  obtain ⟨c, member, inside⟩ := List.mem_flatMap.mp byte
  have code : c.val.toNat = 10 := Utf8.code_eq_of_mem inside (by decide)
  have same : c = '\n' := Char.ext (UInt32.toNat_inj.mp code)
  exact same ▸ member

theorem head?_writeNat_not_blank (n : Nat) : ∀ c ∈ (writeNat n).head?, isBlank c = false :=
  fun _ first => isBlank_eq_false_of_isDigit (isDigit_of_mem_writeNat (List.mem_of_mem_head? first))

theorem getLast?_writeNat_not_blank (n : Nat) : ∀ c ∈ (writeNat n).getLast?, isBlank c = false :=
  fun _ last =>
    isBlank_eq_false_of_isDigit (isDigit_of_mem_writeNat (List.mem_of_mem_getLast? last))

/-- What the line says is the length. -/
theorem lengthIn_lengthLine {n : Nat} (fits : n < word) :
    lengthIn (lengthLine n) = some (.ok n) := by
  have cut : cutAt? (· == ':') (lengthLine n) = some (lengthHeader.toList, ' ' :: writeNat n) :=
    cutAt?_append (by simp [lengthHeader]) rfl
  have name : sameName (trim lengthHeader.toList) lengthHeader.toList = true := by decide
  have value : trim (' ' :: writeNat n) = writeNat n := by
    have trimmed : trim ([' '] ++ (writeNat n ++ [])) = writeNat n :=
      trim_append (List.all_eq_true.mp (by decide)) nofun (writeNat_ne_nil n)
        (head?_writeNat_not_blank n) (getLast?_writeNat_not_blank n)
    rwa [List.append_nil] at trimmed
  simp only [lengthIn, cut, name, if_true, value, readNat64?_writeNat fits]

theorem trim_lengthLine (n : Nat) : trim (lengthLine n ++ ['\r'] ++ ['\n']) = lengthLine n := by
  have last : ∀ c ∈ (lengthLine n).getLast?, isBlank c = false := by
    intro c last
    rw [lengthLine, List.getLast?_append, List.getLast?_cons_cons, List.getLast?_cons_of_ne_nil
      (writeNat_ne_nil n), Option.or_of_isSome (by simp [writeNat_ne_nil])] at last
    exact getLast?_writeNat_not_blank n c last
  have begins : ∀ c ∈ (lengthLine n).head?, isBlank c = false := by
    rintro c ⟨⟩
    decide
  have trimmed : trim ([] ++ (lengthLine n ++ (['\r'] ++ ['\n']))) = lengthLine n :=
    trim_append nofun (List.all_eq_true.mp (by decide)) (by simp [lengthLine]) begins last
  rwa [List.nil_append, ← List.append_assoc] at trimmed

namespace Decoder

/-! ## Lines -/

/-- Bytes before the end of a line are kept. -/
theorem feed_inside {bytes : List UInt8} (line : List UInt8) (first : Bool) (length : Option Nat)
    (inside : 10 ∉ bytes) :
    (headers line first length).feed bytes =
      ([], headers (bytes.reverse ++ line) first length) := by
  induction bytes generalizing line with
  | nil => rfl
  | cons b bytes ih =>
      have other : b ≠ 10 := fun same => inside (same ▸ List.mem_cons_self)
      have inside : 10 ∉ bytes := fun member => inside (List.mem_cons_of_mem b member)
      have more : (headers line first length).step b = .more (headers (b :: line) first length) :=
        if_neg other
      rw [feed_cons_more more, ih _ inside, List.reverse_cons, List.append_assoc,
        List.singleton_append]

/-- A line that is not the last of the headers. -/
theorem feed_line {s : List Char} {first : Bool} {length : Option Nat} {d : Decoder}
    (inside : '\n' ∉ s) (ended : endLine (Utf8.encode (s ++ ['\n'])) length = .more d) :
    (headers [] first length).feed (Utf8.encode (s ++ ['\n'])) = ([], d) := by
  have bytes : Utf8.encode (s ++ ['\n']) = Utf8.encode s ++ [10] := List.flatMap_append
  rw [bytes] at ended ⊢
  have step : (headers ((Utf8.encode s).reverse ++ []) first length).step 10 = .more d := by
    rw [List.append_nil, step, if_pos rfl, List.reverse_cons, List.reverse_reverse, ended]
  rw [feed_append, feed_inside [] first length fun byte => inside (mem_of_lineFeed_mem_encode byte)]
  dsimp only
  rw [feed_cons_more step]
  rfl

/-! ## Frames -/

/-- **The headers tell how many bytes are to come.** -/
theorem feed_header {n : Nat} (some_byte : 0 < n) (short : n ≤ maxBody) :
    start.feed (header n) = ([], body n []) := by
  have fits : n < word := Nat.lt_of_le_of_lt short (by decide)
  have first : endLine (Utf8.encode (lengthLine n ++ ['\r'] ++ ['\n'])) none =
      .more (headers [] false (some n)) := by
    simp only [endLine, Utf8.decode_encode, trim_lengthLine, lengthIn_lengthLine fits]
    rfl
  have last : endLine (Utf8.encode (['\r'] ++ ['\n'])) (some n) = .more (body n []) := by
    have blank : trim (['\r'] ++ ['\n']) = [] := by decide
    simp only [endLine, Utf8.decode_encode, blank, List.isEmpty_nil, if_true, endHeaders]
    rw [if_neg (Nat.not_lt_of_le short), if_neg (Nat.ne_of_gt some_byte)]
  have inside : '\n' ∉ lengthLine n ++ ['\r'] := by
    intro member
    rcases List.mem_append.mp member with member | member
    · rcases List.mem_append.mp member with member | member
      · revert member
        decide
      · rcases List.mem_cons.mp member with same | member
        · cases same
        · rcases List.mem_cons.mp member with same | member
          · cases same
          · cases isDigit_of_mem_writeNat member
    · cases List.mem_singleton.mp member
  rw [header_eq, feed_append, start, feed_line inside first]
  dsimp only
  rw [feed_line (by decide) last]
  rfl

/-- The bytes of a body are taken, and with the last of them the body is read. -/
theorem feed_body {bytes : List UInt8} (read : List UInt8) (some_byte : bytes ≠ []) :
    (body bytes.length read).feed bytes = ([readBody (read.reverse ++ bytes)], start) := by
  induction bytes generalizing read with
  | nil => exact absurd rfl some_byte
  | cons b bytes ih =>
      by_cases last : bytes = []
      · subst last
        have report : (body [b].length read).step b = .report (readBody (b :: read).reverse) := by
          rw [step]
          exact if_pos (Nat.le_refl 1)
        rw [feed_cons_report report, List.reverse_cons]
        rfl
      · have more : (body (b :: bytes).length read).step b =
            .more (body bytes.length (b :: read)) :=
          if_neg (by have := List.length_pos_iff.mpr last; simp only [List.length_cons]; omega)
        rw [feed_cons_more more, ih _ last, List.reverse_cons, List.append_assoc,
          List.singleton_append]

end Decoder

variable {v : Json} {vs : List Json}

/-- A body that is read back has bytes. -/
theorem body_ne_nil (faithful : Json.read? v.write = some v) : body v ≠ [] := by
  intro empty
  have written : v.write = [] := by
    cases text : v.write with
    | nil => rfl
    | cons c rest =>
        rw [body, text, Utf8.encode, List.flatMap_cons] at empty
        exact absurd (List.append_eq_nil_iff.mp empty).1 String.utf8EncodeChar_ne_nil
  rw [written] at faithful
  cases faithful

theorem readBody_body (faithful : Json.read? v.write = some v) : readBody (body v) = .value v := by
  simp only [readBody, body, Utf8.decode_encode, faithful]

/-- **A frame is read back**, and the reader is where it began. -/
theorem feed_encode (short : (body v).length ≤ maxBody) (faithful : Json.read? v.write = some v) :
    Decoder.start.feed (encode v) = ([.value v], .start) := by
  have some_byte := body_ne_nil faithful
  rw [encode, Decoder.feed_append,
    Decoder.feed_header (List.length_pos_iff.mpr some_byte) short]
  dsimp only
  rw [Decoder.feed_body [] some_byte, List.reverse_nil, List.nil_append, List.nil_append,
    readBody_body faithful]

theorem feed_flatMap_encode (short : ∀ v ∈ vs, (body v).length ≤ maxBody)
    (faithful : ∀ v ∈ vs, Json.read? v.write = some v) :
    Decoder.start.feed (vs.flatMap encode) = (vs.map .value, .start) := by
  induction vs with
  | nil => rfl
  | cons v vs ih =>
      have rest := ih (fun v member => short v (List.mem_cons_of_mem _ member))
        (fun v member => faithful v (List.mem_cons_of_mem _ member))
      rw [List.flatMap_cons, Decoder.feed_append,
        feed_encode (short v List.mem_cons_self) (faithful v List.mem_cons_self)]
      dsimp only
      rw [rest, List.map_cons, List.singleton_append]

/-- **Frames that are written are read back.** Let the bodies of some values be short enough, and
their texts be read as the values. If the frames of the values arrive one after another, in any
chunks, then the reader reports the values in order, is between two frames after the last of them,
and at the end of the stream reports nothing more. -/
theorem written_frames_read_back {chunks : List (List UInt8)}
    (short : ∀ v ∈ vs, (body v).length ≤ maxBody)
    (faithful : ∀ v ∈ vs, Json.read? v.write = some v)
    (arrived : chunks.flatten = vs.flatMap encode) :
    Decoder.start.feedChunks chunks = (vs.map .value, .start) ∧ Decoder.start.finish = none ∧
      readAll (vs.flatMap encode) = vs.map .value := by
  have read := feed_flatMap_encode short faithful
  refine ⟨?_, rfl, ?_⟩
  · rw [Decoder.feedChunks_eq, arrived, read]
  · rw [readAll, read]
    exact List.append_nil _

/-- Two frames that arrive byte by byte, one of them with a character of three bytes. -/
theorem written_frames_read_back_bytewise :
    let vs : List Json := [.ofMembers [("a", .string "✓")], .array [.null, .bool true]]
    let chunks := (vs.flatMap encode).map fun b => [b]
    (∀ v ∈ vs, (body v).length ≤ maxBody) ∧ (∀ v ∈ vs, Json.read? v.write = some v) ∧
      chunks.flatten = vs.flatMap encode ∧
      Decoder.start.feedChunks chunks = (vs.map .value, .start) := by
  intro vs chunks
  have short : ∀ v ∈ vs, (body v).length ≤ maxBody := by decide
  have faithful : ∀ v ∈ vs, Json.read? v.write = some v := by
    simp only [vs, List.forall_mem_cons, List.not_mem_nil, false_imp_iff, implies_true, and_true]
    exact ⟨by rfl, by rfl⟩
  have arrived : chunks.flatten = vs.flatMap encode := by
    rw [← List.flatMap_def, List.flatMap_singleton']
  exact ⟨short, faithful, arrived, (written_frames_read_back short faithful arrived).1⟩

end Gatekeeper.Frame
