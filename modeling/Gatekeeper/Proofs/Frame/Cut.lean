import Gatekeeper.Proofs.Frame.RoundTrip
import Gatekeeper.Proofs.Json.Nesting

set_option autoImplicit false

/-!
# Streams that are cut off

What the reader makes of the beginning of a stream of frames. A frame is reported with its last byte
and not before (`Decoder.feed_cut`), and in the middle of a frame the stream may not end
(`Decoder.finish_of_silent`), so a cut within a frame gives one fault and a cut between two frames
none. Nothing here looks into the headers: all of it follows from the fact that a whole frame is
read in one piece (`feed_frame`).

Main statement: a stream that is cut off is read up to its last whole frame (`cut_stream_reports`).
For a value whose text is not read back, that is what its text is read as: nesting is bounded for
the reader and not for the writer, so a value that is nested too deep is a malformed body
(`readBody_of_maxDepth_lt`), and not every value is returned (`not_cut_stream_values`).
-/

namespace Gatekeeper.JsonNumber

open Text

/-- A number has digits. -/
theorem write_ne_nil (n : JsonNumber) : n.write ≠ [] := by
  cases n with
  | whole n =>
      rw [write, writeInt]
      split
      · exact List.cons_ne_nil _ _
      · exact writeNat_ne_nil _
  | double x =>
      have digits : writeNat (Decimal.binary64.shortest x).digits ≠ [] := writeNat_ne_nil _
      simp only [write, writeDouble, ne_eq, List.append_eq_nil_iff, not_and]
      intro _
      split
      · decide
      · split
        · -- with a point there is at least the point
          rw [writePlain]
          split
          · simp
          · dsimp only
            split <;> simp [digits]
        · obtain ⟨c, more, written⟩ := List.exists_cons_of_ne_nil digits
          rw [written]
          cases more <;> exact List.cons_ne_nil _ _

end Gatekeeper.JsonNumber

namespace Gatekeeper.Json

/-- Every value has a text. -/
theorem write_ne_nil (v : Json) : v.write ≠ [] := by
  cases v with
  | null => decide
  | bool b => cases b <;> decide
  | number n => exact JsonNumber.write_ne_nil n
  | string s => exact List.cons_ne_nil _ _
  | array items => cases items <;> exact List.cons_ne_nil _ _
  | object members => cases members <;> exact List.cons_ne_nil _ _

end Gatekeeper.Json

namespace Gatekeeper.Frame

open Text

namespace Decoder

variable {d d' : Decoder} {bytes taken missing rest : List UInt8} {o : Outcome}

/-! ## Where a report comes -/

/-- Bytes that bring no report leave the reader within a frame. -/
theorem ne_headers_of_silent (fed : d.feed bytes = ([], d')) (some_byte : bytes ≠ [])
    (length : Option Nat) : d' ≠ headers [] true length := by
  induction bytes generalizing d with
  | nil => exact absurd rfl some_byte
  | cons b bytes ih =>
      cases step : d.step b with
      | more d'' =>
          rw [feed_cons_more step] at fed
          by_cases last : bytes = []
          · subst last
            cases fed
            exact step_more_ne step length
          · exact ih fed last
      | report o =>
          rw [feed_cons_report step] at fed
          cases fed

/-- Where bytes have brought no report, the stream may not end. -/
theorem finish_of_silent (fed : d.feed bytes = ([], d')) (some_byte : bytes ≠ []) :
    ∃ f, d'.finish = some (.fault f) := by
  cases finished : d'.finish with
  | none =>
      obtain ⟨length, same⟩ := eq_headers_of_finish finished
      exact absurd same (ne_headers_of_silent fed some_byte length)
  | some o =>
      obtain ⟨f, same⟩ := finish_fault finished
      exact ⟨f, by rw [same]⟩

/-- **The one report on a piece comes with its last byte**: what is missing of the piece is read
without a report up to there. -/
theorem feed_cut (fed : d.feed (taken ++ missing) = ([o], start)) (cut : missing ≠ []) :
    (d.feed taken).1 = [] := by
  rw [feed_append] at fed
  obtain ⟨reports, last⟩ := Prod.mk.inj fed
  cases early : (d.feed taken).1 with
  | nil => rfl
  | cons o' os =>
      -- a report on the first part leaves none for the second, which then ends within a frame
      rw [early] at reports
      have silent : ((d.feed taken).2.feed missing).1 = [] :=
        (List.append_eq_nil_iff.mp (List.cons.inj reports).2).2
      have within := ne_headers_of_silent (Prod.ext silent last) cut none
      exact absurd rfl within

/-! ## Single calls -/

/-- A call takes the bytes up to the report and no more. -/
theorem next_of_report (fed : d.feed bytes = ([o], start)) :
    d.next (bytes ++ rest) = (some o, rest) := by
  induction bytes generalizing d with
  | nil => cases fed
  | cons b bytes ih =>
      cases step : d.step b with
      | more d'' =>
          rw [feed_cons_more step] at fed
          rw [List.cons_append, next, step]
          exact ih fed
      | report o' =>
          rw [feed_cons_report step] at fed
          obtain ⟨reports, last⟩ := Prod.mk.inj fed
          obtain ⟨rfl, silent⟩ := List.cons.inj reports
          have nothing : bytes = [] := by
            by_contra some_byte
            exact ne_headers_of_silent (Prod.ext silent last) some_byte none rfl
          rw [nothing, List.singleton_append, next, step]

/-- A call that meets the end of the stream first reports what that means. -/
theorem next_of_silent (fed : d.feed bytes = ([], d')) : d.next bytes = (d'.finish, []) := by
  induction bytes generalizing d with
  | nil =>
      cases fed
      rfl
  | cons b bytes ih =>
      cases step : d.step b with
      | more d'' =>
          rw [feed_cons_more step] at fed
          rw [next, step]
          exact ih fed
      | report o =>
          rw [feed_cons_report step] at fed
          cases fed

end Decoder

/-! ## Calls one after another -/

/-- What so many calls return, each for the next frame: the end of the stream is `none`. -/
def calls : Nat → List UInt8 → List (Option Outcome)
  | 0, _ => []
  | n + 1, bytes => (read bytes).1 :: calls n (read bytes).2

/-- After the end there is nothing but the end. -/
theorem calls_nil (n : Nat) : calls n [] = List.replicate n none := by
  induction n with
  | zero => rfl
  | succ n ih => exact congrArg (none :: ·) ih

/-- The values whose frames lie entirely within so many bytes. -/
def within : Nat → List Json → List Json
  | _, [] => []
  | n, v :: vs => if (encode v).length ≤ n then v :: within (n - (encode v).length) vs else []

theorem within_isPrefix (n : Nat) (vs : List Json) : within n vs <+: vs := by
  induction vs generalizing n with
  | nil => exact List.prefix_rfl
  | cons v vs ih =>
      rw [within]
      split
      · exact (List.prefix_cons_inj v).mpr (ih _)
      · exact List.nil_prefix

variable {v : Json} {vs : List Json} {taken missing : List UInt8}

/-- A frame is read in one piece, whether or not its text is read back as the value. -/
theorem feed_frame (short : (body v).length ≤ maxBody) :
    Decoder.start.feed (encode v) = ([readBody (body v)], .start) := by
  have some_byte : body v ≠ [] := by
    obtain ⟨c, text, written⟩ := List.exists_cons_of_ne_nil v.write_ne_nil
    rw [body, written, Utf8.encode, List.flatMap_cons]
    exact fun empty => String.utf8EncodeChar_ne_nil (List.append_eq_nil_iff.mp empty).1
  rw [encode, Decoder.feed_append, Decoder.feed_header (List.length_pos_iff.mpr some_byte) short]
  dsimp only
  rw [Decoder.feed_body [] some_byte, List.reverse_nil, List.nil_append, List.nil_append]

/-- The frame of a value that is nested too deep has a malformed body. -/
theorem readBody_of_maxDepth_lt (deep : Json.maxDepth < v.depth) :
    readBody (body v) = .fault .malformedBody := by
  simp only [readBody, body, Utf8.decode_encode, Json.read?_write_eq_none deep]

/-- What is reported at the end of a stream that is cut off: the fault for the frame that was cut,
if there is one. -/
def IsEnding (vs : List Json) (taken : List UInt8) (fault : Option Fault) : Prop :=
  (fault = none ↔ taken = (within taken.length vs).flatMap encode) ∧
    ∀ n, calls n taken =
      (((within taken.length vs).map fun v => some (readBody (body v))) ++
        (fault.toList.map fun f => some (Outcome.fault f)) ++ List.replicate n none).take n

/-- The cut falls into the first frame, or in front of it. -/
theorem isEnding_of_lt (short : (body v).length ≤ maxBody) (cut : encode v = taken ++ missing)
    (some_byte : missing ≠ []) : ∃ fault, IsEnding (v :: vs) taken fault := by
  have less : ¬ (encode v).length ≤ taken.length := by
    have := List.length_pos_iff.mpr some_byte
    rw [cut, List.length_append]
    omega
  have none_whole : within taken.length (v :: vs) = [] := by rw [within, if_neg less]
  by_cases empty : taken = []
  · refine ⟨none, ?_, fun n => ?_⟩
    · rw [none_whole, empty]
      simp
    · rw [none_whole, empty, calls_nil]
      simp
  · have fed := feed_frame short
    rw [cut] at fed
    have silent : Decoder.start.feed taken = ([], (Decoder.start.feed taken).2) :=
      Prod.ext (Decoder.feed_cut fed some_byte) rfl
    obtain ⟨f, finished⟩ := Decoder.finish_of_silent silent empty
    refine ⟨some f, ?_, fun n => ?_⟩
    · rw [none_whole]
      simp [empty]
    · rw [none_whole]
      cases n with
      | zero => rfl
      | succ n =>
          have call : read taken = (some (.fault f), []) := by
            rw [read, Decoder.next_of_silent silent, finished]
          rw [calls, call]
          dsimp only
          rw [calls_nil]
          simp

/-- The first frame lies within the stream and is read, and the rest of the stream is cut off as it
was. -/
theorem IsEnding.cons {fault : Option Fault} (short : (body v).length ≤ maxBody)
    (ending : IsEnding vs taken fault) : IsEnding (v :: vs) (encode v ++ taken) fault := by
  have whole : within (encode v ++ taken).length (v :: vs) = v :: within taken.length vs := by
    rw [within, List.length_append, if_pos (Nat.le_add_right _ _), Nat.add_sub_cancel_left]
  obtain ⟨boundary, called⟩ := ending
  refine ⟨?_, fun n => ?_⟩
  · rw [boundary, whole, List.flatMap_cons, List.append_cancel_left_eq]
  · rw [whole]
    cases n with
    | zero => rfl
    | succ n =>
        have call : read (encode v ++ taken) = (some (readBody (body v)), taken) :=
          Decoder.next_of_report (feed_frame short)
        rw [calls, call]
        dsimp only
        rw [called n]
        -- one more end of the stream at the end makes no difference to the first `n`
        simp only [List.map_cons, List.cons_append, List.take_succ_cons, List.cons.injEq, true_and,
          List.replicate_succ', ← List.append_assoc]
        rw [@List.take_append_of_le_length _ _ [none]]
        simp only [List.length_append, List.length_replicate]
        omega

/-- **A stream that is cut off is read up to its last whole frame.** Let the bodies of some values
be short enough, and let the bytes `taken` be a beginning of the bytes that are written for the
values. Then calls for one frame after another report each of the frames that lie entirely in
`taken`, in order, by what its body is read as, which is the value if the text of the value is read
back, and a fault if the value is nested deeper than the reader goes; after them, if the cut is not
between two frames, one fault; and from then on only the end of the stream. -/
theorem cut_stream_reports (short : ∀ v ∈ vs, (body v).length ≤ maxBody)
    (cut : vs.flatMap encode = taken ++ missing) :
    within taken.length vs <+: vs ∧
      (∀ v ∈ vs, Json.read? v.write = some v → readBody (body v) = .value v) ∧
      (∀ v ∈ vs, Json.maxDepth < v.depth → readBody (body v) = .fault .malformedBody) ∧
      ∃ fault : Option Fault, (fault = none ↔ taken = (within taken.length vs).flatMap encode) ∧
        ∀ n, calls n taken =
          (((within taken.length vs).map fun v => some (readBody (body v))) ++
            (fault.toList.map fun f => some (Outcome.fault f)) ++
              List.replicate n none).take n := by
  refine ⟨within_isPrefix _ _, fun v _ faithful => readBody_body faithful,
    fun v _ deep => readBody_of_maxDepth_lt deep, ?_⟩
  change ∃ fault, IsEnding vs taken fault
  induction vs generalizing taken with
  | nil =>
      obtain ⟨rfl, -⟩ := List.append_eq_nil_iff.mp cut.symm
      exact ⟨none, by simp [within], fun n => by simp [within, calls_nil]⟩
  | cons v vs ih =>
      have short_first := short v List.mem_cons_self
      rw [List.flatMap_cons] at cut
      have later : ∀ {taken}, vs.flatMap encode = taken ++ missing →
          ∃ fault, IsEnding (v :: vs) (encode v ++ taken) fault := by
        intro taken cut
        obtain ⟨fault, ending⟩ := ih (fun v member => short v (List.mem_cons_of_mem _ member)) cut
        exact ⟨fault, ending.cons short_first⟩
      rcases List.append_eq_append_iff.mp cut with ⟨more, rfl, rest⟩ | ⟨lost, rest, all⟩
      · exact later rest
      · by_cases none_lost : lost = []
        · -- the cut is right behind the first frame
          rw [none_lost, List.append_nil] at rest
          rw [none_lost, List.nil_append] at all
          have ending := @later [] all.symm
          rwa [List.append_nil, rest] at ending
        · exact isEnding_of_lt short_first rest none_lost

/-- The stream of two frames that is cut off in the header of the second one, inside the number. -/
theorem cut_stream_reports_digits :
    let vs : List Json := [.ofMembers [("a", .string "✓")], .array [.null, .null, .bool true]]
    let taken := encode (.ofMembers [("a", .string "✓")]) ++ Utf8.encode "Content-Length: 1".toList
    let missing := Utf8.encode "6\r\n\r\n[null,null,true]".toList
    (∀ v ∈ vs, (body v).length ≤ maxBody) ∧ vs.flatMap encode = taken ++ missing ∧
      ∃ fault : Option Fault, (fault = none ↔ taken = (within taken.length vs).flatMap encode) ∧
        ∀ n, calls n taken =
          (((within taken.length vs).map fun v => some (readBody (body v))) ++
            (fault.toList.map fun f => some (Outcome.fault f)) ++
              List.replicate n none).take n := by
  intro vs taken missing
  have short : ∀ v ∈ vs, (body v).length ≤ maxBody := by decide
  have cut : vs.flatMap encode = taken ++ missing := by decide
  exact ⟨short, cut, (cut_stream_reports short cut).2.2.2⟩

/-- So many arrays, each in the one before. -/
def nested : Nat → Json
  | 0 => .array []
  | n + 1 => .array [nested n]

theorem depth_nested (n : Nat) : (nested n).depth = n + 1 := by
  induction n with
  | zero => rfl
  | succ n ih => rw [nested, Json.depth, Json.depth.inItems, Json.depth.inItems, ih, Nat.max_zero]

/-- **Not every value whose frame lies within a stream is returned.** The writer writes 128 arrays
in one another, and the reader takes their text for malformed. -/
theorem not_cut_stream_values :
    ¬ ∀ (vs : List Json) (taken missing : List UInt8), (∀ v ∈ vs, (body v).length ≤ maxBody) →
      vs.flatMap encode = taken ++ missing → missing ≠ [] →
      ∃ fault : Option Fault, (fault = none ↔ taken = (within taken.length vs).flatMap encode) ∧
        ∀ n, calls n taken =
          (((within taken.length vs).map fun v => some (Outcome.value v)) ++
            (fault.toList.map fun f => some (Outcome.fault f)) ++
              List.replicate n none).take n := by
  intro claim
  have short : ∀ v ∈ [nested 127, .null], (body v).length ≤ maxBody := by decide +kernel
  obtain ⟨fault, -, called⟩ := claim [nested 127, .null] (encode (nested 127)) (encode .null) short
    (by rw [List.flatMap_cons, List.flatMap_singleton]) (by decide)
  have deep : Json.maxDepth < (nested 127).depth := by
    rw [depth_nested]
    decide
  have refused := readBody_of_maxDepth_lt deep
  have first : read (encode (nested 127)) = (some (.fault .malformedBody), []) := by
    have call : Decoder.start.next (encode (nested 127) ++ []) = _ :=
      Decoder.next_of_report (feed_frame (short _ List.mem_cons_self))
    rwa [List.append_nil, refused] at call
  have whole : within (encode (nested 127)).length [nested 127, .null] = [nested 127] := by
    have more : ¬ (encode .null).length ≤ 0 := by decide
    rw [within, if_pos (Nat.le_refl _), Nat.sub_self, within, if_neg more]
  have one := called 1
  rw [calls, first, whole] at one
  cases one

end Gatekeeper.Frame
