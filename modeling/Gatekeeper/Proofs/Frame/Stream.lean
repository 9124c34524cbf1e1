import Gatekeeper.Frame

set_option autoImplicit false

/-!
# Reading a stream piece by piece

It does not matter in which pieces the bytes of a stream arrive: feeding one piece after another is
feeding all of them (`Decoder.feedChunks_eq`), and so is reading on from report to report, as long
as there are bytes (`Decoder.feed_of_pull_report`, `Decoder.feed_of_pull_more`).

What a stream says before its first fault is its `transcript`.
-/

namespace Gatekeeper.Frame

namespace Decoder

variable {d d' : Decoder} {bytes : List UInt8}

theorem feed_cons_more {b : UInt8} (more : d.step b = .more d') :
    d.feed (b :: bytes) = d'.feed bytes := by
  rw [feed, more]

theorem feed_cons_report {b : UInt8} {o : Outcome} (report : d.step b = .report o) :
    d.feed (b :: bytes) = (o :: (start.feed bytes).1, (start.feed bytes).2) := by
  rw [feed, report]

/-- **What is fed in two pieces is fed in one.** -/
theorem feed_append (d : Decoder) (bytes more : List UInt8) :
    d.feed (bytes ++ more) =
      ((d.feed bytes).1 ++ ((d.feed bytes).2.feed more).1, ((d.feed bytes).2.feed more).2) := by
  induction bytes generalizing d with
  | nil => rfl
  | cons b bytes ih =>
      cases step : d.step b with
      | more d' => rw [List.cons_append, feed_cons_more step, feed_cons_more step, ih]
      | report o => rw [List.cons_append, feed_cons_report step, feed_cons_report step, ih]; rfl

/-- The reports on bytes that arrive in chunks, one after another, and the reader after them. -/
def feedChunks (d : Decoder) : List (List UInt8) → List Outcome × Decoder
  | [] => ([], d)
  | chunk :: rest =>
    let fed := d.feed chunk
    let more := fed.2.feedChunks rest
    (fed.1 ++ more.1, more.2)

/-- **The chunks do not matter.** -/
theorem feedChunks_eq (d : Decoder) (chunks : List (List UInt8)) :
    d.feedChunks chunks = d.feed chunks.flatten := by
  induction chunks generalizing d with
  | nil => rfl
  | cons chunk rest ih =>
      rw [List.flatten_cons, feed_append, ← ih]
      rfl

/-- Reading on to the next report takes the bytes up to its end. -/
theorem feed_of_pull_report {o : Outcome} {rest : List UInt8}
    (pulled : d.pull bytes = .inl (o, rest)) :
    ∃ taken, bytes = taken ++ rest ∧ d.feed taken = ([o], start) := by
  induction bytes generalizing d with
  | nil => cases pulled
  | cons b bytes ih =>
      cases step : d.step b with
      | more d' =>
          simp only [pull, step] at pulled
          obtain ⟨taken, same, fed⟩ := ih pulled
          exact ⟨b :: taken, by rw [same, List.cons_append], by rw [feed_cons_more step, fed]⟩
      | report o' =>
          simp only [pull, step] at pulled
          cases pulled
          exact ⟨[b], rfl, by rw [feed_cons_report step, feed]⟩

/-- Where the bytes end before the next report, all of them are taken. -/
theorem feed_of_pull_more (pulled : d.pull bytes = .inr d') : d.feed bytes = ([], d') := by
  induction bytes generalizing d with
  | nil => cases pulled; rfl
  | cons b bytes ih =>
      cases step : d.step b with
      | more d' =>
          simp only [pull, step] at pulled
          rw [feed_cons_more step, ih pulled]
      | report o => simp only [pull, step, reduceCtorEq] at pulled

end Decoder

/-! ## The end of a stream -/

/-- When the headers end, there is a value only after bytes of a body. -/
theorem endHeaders_fault {length : Option Nat} {o : Outcome}
    (ended : Decoder.endHeaders length = .report o) : ∃ f, o = .fault f := by
  unfold Decoder.endHeaders at ended
  split at ended
  · cases ended
    exact ⟨_, rfl⟩
  · split at ended
    · cases ended
      exact ⟨_, rfl⟩
    · split at ended <;> cases ended
      exact ⟨_, rfl⟩

theorem endLine_fault {line : List UInt8} {length : Option Nat} {o : Outcome}
    (ended : Decoder.endLine line length = .report o) : ∃ f, o = .fault f := by
  unfold Decoder.endLine at ended
  split at ended
  · cases ended
    exact ⟨_, rfl⟩
  · dsimp only at ended
    split at ended
    · exact endHeaders_fault ended
    · split at ended <;> cases ended
      exact ⟨_, rfl⟩

/-- The end of a stream gives no value. -/
theorem finish_fault {d : Decoder} {o : Outcome} (finished : d.finish = some o) :
    ∃ f, o = .fault f := by
  unfold Decoder.finish at finished
  split at finished
  · split at finished <;> cases finished
    exact ⟨_, rfl⟩
  · split at finished <;> cases finished
    · rename_i ended
      exact endLine_fault ended
    · exact ⟨_, rfl⟩
    · exact ⟨_, rfl⟩
  · cases finished
    exact ⟨_, rfl⟩

/-- A stream may end only where a frame could begin. -/
theorem eq_headers_of_finish {d : Decoder} (clean : d.finish = none) :
    ∃ length, d = .headers [] true length := by
  unfold Decoder.finish at clean
  split at clean
  · rename_i first length
    cases first
    · cases clean
    · exact ⟨length, rfl⟩
  · split at clean <;> cases clean
  · cases clean

/-- Within a frame the reader is not where a frame could begin. -/
theorem step_more_ne {d d' : Decoder} {b : UInt8} (more : d.step b = .more d')
    (length : Option Nat) : d' ≠ .headers [] true length := by
  rintro rfl
  unfold Decoder.step at more
  split at more
  · split at more
    · unfold Decoder.endLine at more
      split at more
      · cases more
      · dsimp only at more
        split at more
        · unfold Decoder.endHeaders at more
          split at more
          · cases more
          · split at more
            · cases more
            · split at more <;> cases more
        · split at more <;> cases more
    · cases more
  · split at more <;> cases more

/-- **A stream that may end ends between two frames.** -/
theorem eq_start_of_finish {d : Decoder} (bytes : List UInt8)
    (here : d = .start ∨ ∀ length, d ≠ .headers [] true length)
    (clean : (d.feed bytes).2.finish = none) : (d.feed bytes).2 = .start := by
  -- by induction on the bytes: after a report the reader is at the start,
  -- and after any other byte within a frame
  induction bytes generalizing d with
  | nil =>
      obtain ⟨length, same⟩ := eq_headers_of_finish clean
      exact here.resolve_right fun elsewhere => elsewhere length same
  | cons b bytes ih =>
      cases step : d.step b with
      | more d' =>
          rw [Decoder.feed_cons_more step] at clean ⊢
          exact ih (.inr (step_more_ne step)) clean
      | report o =>
          rw [Decoder.feed_cons_report step] at clean ⊢
          exact ih (.inl rfl) clean

/-! ## What a stream says -/

/-- The values before the first fault, and the fault, if there is one. -/
def untilFault : List Outcome → List Json × Option Fault
  | [] => ([], none)
  | .value v :: rest => (v :: (untilFault rest).1, (untilFault rest).2)
  | .fault f :: _ => ([], some f)

/-- The values of the frames of a stream up to the first fault or its end, and the fault. -/
def transcript (stream : List UInt8) : List Json × Option Fault := untilFault (readAll stream)

theorem untilFault_values (vs : List Json) (rest : List Outcome) :
    untilFault (vs.map .value ++ rest) = (vs ++ (untilFault rest).1, (untilFault rest).2) := by
  induction vs with
  | nil => rfl
  | cons v vs ih => rw [List.map_cons, List.cons_append, untilFault, ih, List.cons_append]

/-- Without a fault there are values only. -/
theorem untilFault_eq_none {os : List Outcome} (clean : (untilFault os).2 = none) :
    os = (untilFault os).1.map .value := by
  induction os with
  | nil => rfl
  | cons o os ih =>
      cases o with
      | fault f => cases clean
      | value v =>
          rw [untilFault, List.map_cons]
          exact congrArg (.value v :: ·) (ih clean)

variable {taken : List UInt8} {vs : List Json} {d : Decoder}

/-- What was read so far is a beginning of what the stream says. -/
theorem values_isPrefix_transcript (fed : Decoder.start.feed taken = (vs.map .value, d))
    (rest : List UInt8) : vs <+: (transcript (taken ++ rest)).1 := by
  rw [transcript, readAll, Decoder.feed_append, fed]
  dsimp only
  rw [List.append_assoc, untilFault_values]
  exact List.prefix_append _ _

/-- A stream that ends between frames has been read to its end. -/
theorem transcript_of_finish_none (fed : Decoder.start.feed taken = (vs.map .value, d))
    (clean : d.finish = none) : transcript taken = (vs, none) := by
  rw [transcript, readAll, fed]
  dsimp only
  rw [clean, untilFault_values]
  simp [untilFault]

/-- A stream that ends within a frame has been read to its end. -/
theorem transcript_of_finish_some {f : Fault} (fed : Decoder.start.feed taken = (vs.map .value, d))
    (cut : d.finish = some (.fault f)) : transcript taken = (vs, some f) := by
  rw [transcript, readAll, fed]
  dsimp only
  rw [cut, untilFault_values]
  simp [untilFault]

/-- A stream is read up to its first fault. -/
theorem transcript_of_fault {f : Fault}
    (fed : Decoder.start.feed taken = (vs.map .value ++ [.fault f], d)) (rest : List UInt8) :
    transcript (taken ++ rest) = (vs, some f) := by
  rw [transcript, readAll, Decoder.feed_append, fed]
  dsimp only
  rw [List.append_assoc, List.append_assoc, untilFault_values]
  simp [untilFault]

/-- **A stream has no fault if it ends between two frames.** -/
theorem transcript_snd_eq_none_iff {stream : List UInt8} : (transcript stream).2 = none ↔
    Decoder.start.feed stream = ((transcript stream).1.map .value, .start) := by
  constructor
  · intro clean
    have all := untilFault_eq_none clean
    have finished : (Decoder.start.feed stream).2.finish = none := by
      cases finish : (Decoder.start.feed stream).2.finish with
      | none => rfl
      | some o =>
          -- what is reported at the end would be among the values
          obtain ⟨f, rfl⟩ := finish_fault finish
          have last : .fault f ∈ readAll stream := by simp [readAll, finish]
          rw [all] at last
          obtain ⟨v, _, same⟩ := List.mem_map.mp last
          cases same
    refine Prod.ext ?_ (eq_start_of_finish stream (.inl rfl) finished)
    rw [readAll] at all
    simpa [finished, transcript, readAll] using all
  · intro fed
    rw [transcript_of_finish_none fed rfl]

end Gatekeeper.Frame
