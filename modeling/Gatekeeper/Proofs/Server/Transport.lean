import Gatekeeper.Proofs.Server.Course

set_option autoImplicit false

/-!
# From the queue to the wire

The caller and the reader put messages into the queue, and the writer writes their frames into the
pipe. Nothing is lost on the way, repeated or overtaken, as long as the writer has not ended:
what it has begun to write, followed by what waits in the queue, is what was put in
(`Link.Transport`). The bytes in the pipe are the frames one after another, of which only the last
one can be cut short.
-/

namespace Gatekeeper.Server

/-- The message of an entry. -/
def Item.message? : Item → Option Outgoing
  | message m => some m
  | close => none

namespace Link

/-- The messages that wait in the queue. -/
def waiting (l : Link) : List Outgoing := l.queue.filterMap Item.message?

/-- What became of the messages that were put into the queue in the course of `h`. -/
structure Transport (l : Link) (h : History) : Prop where
  /-- The messages are taken in the order in which they were put. -/
  order : l.writer = .ended ∧ h.frames <+: h.queued ∨
    l.writer ≠ .ended ∧ h.frames ++ l.waiting = h.queued
  /-- All frames but the last are in the pipe. -/
  whole : h.frames.dropLast.flatMap Outgoing.bytes <+: h.written
  /-- Nothing else is in the pipe. What is missing of the last frame is what the writer has still to
  write. -/
  cut : ∃ rest, h.written ++ rest = h.frames.flatMap Outgoing.bytes ∧
    match l.writer with
    | .idle => rest = []
    | .writing more => rest = more
    | .ended => True

theorem transport_start (c : Client) : Transport (.start c) [] where
  order := .inr ⟨nofun, rfl⟩
  whole := List.prefix_refl _
  cut := ⟨[], rfl, rfl⟩

variable {l l' : Link} {h : History} {d : Deed}

theorem Transport.beginning (transport : l.Transport h) : h.frames <+: h.queued := by
  rcases transport.order with ⟨_, shorter⟩ | ⟨_, all⟩
  · exact shorter
  · exact ⟨l.waiting, all⟩

/-- A deed that does not touch the queue or the writer leaves the transport alone. -/
theorem Transport.congr (transport : l.Transport h) (queue : l'.queue = l.queue)
    (writer : l'.writer = l.writer) (queued : d.queued = []) (frames : d.frames = [])
    (written : d.written = []) : l'.Transport (h ++ [d]) := by
  obtain ⟨order, whole, cut⟩ := transport
  refine ⟨?_, ?_, ?_⟩
  · simpa only [History.queued_snoc, History.frames_snoc, queued, frames, List.append_nil, waiting,
      queue, writer] using order
  · simpa only [History.frames_snoc, History.written_snoc, frames, written, List.append_nil]
      using whole
  · simpa only [History.frames_snoc, History.written_snoc, frames, written, List.append_nil,
      writer] using cut

/-- So does one of the caller that puts nothing into the queue. -/
theorem Transport.onlyCaller (transport : l.Transport h) (own : l.OnlyCaller l')
    (queued : d.queued = []) (frames : d.frames = []) (written : d.written = []) :
    l'.Transport (h ++ [d]) :=
  transport.congr own.queue own.writer queued frames written

/-- An entry comes last in the queue. -/
theorem Transport.puts {i : Item} (transport : l.Transport h) (place : l.HasPlace)
    (queue : l'.queue = l.queue ++ [i]) (writer : l'.writer = l.writer) :
    l'.Transport (h ++ [.puts i]) := by
  obtain ⟨order, whole, cut⟩ := transport
  have isOpen := place.isOpen
  rcases order with ⟨ended, _⟩ | ⟨_, all⟩
  · exact absurd ended isOpen
  · refine ⟨.inr ⟨writer ▸ isOpen, ?_⟩, ?_, ?_⟩
    · rw [History.frames_snoc, History.queued_snoc, ← all, waiting, queue, List.filterMap_append]
      cases i <;> simp [Deed.frames, Deed.queued, Item.message?, waiting]
    · simpa [Deed.frames, Deed.written] using whole
    · simpa [Deed.frames, Deed.written, writer] using cut

/-- When the writer ends, the rest is lost. -/
theorem Transport.ends (transport : l.Transport h) : l.endWriter.Transport (h ++ [.passes]) := by
  obtain ⟨rest, cut, _⟩ := transport.cut
  refine ⟨.inl ⟨rfl, ?_⟩, ?_, rest, ?_, trivial⟩
  · simpa [Deed.frames, Deed.queued] using transport.beginning
  · simpa [Deed.frames, Deed.written] using transport.whole
  · simpa [Deed.frames, Deed.written] using cut

/-- **A deed keeps the order of the messages and of their bytes.** -/
theorem Does.transport (does : l.Does d l') (transport : l.Transport h) :
    l'.Transport (h ++ [d]) := by
  -- Only the writer's deeds move the border between what is taken and what waits, and between what
  -- is written and what is missing. The others put at most one entry at the end.
  cases does with
  | put parcel place => exact transport.puts place rfl rfl
  | turnAway parcel ended => exact transport.onlyCaller l.onlyCaller_turnedAway rfl rfl rfl
  | learn waits answer => exact transport.onlyCaller (l.onlyCaller_answered _ _) rfl rfl rfl
  | orphan waits silent dropped =>
      exact transport.onlyCaller (l.onlyCaller_giveUp _ _ _) rfl rfl rfl
  | timeOut waits silent registered =>
      exact transport.onlyCaller (l.onlyCaller_giveUp _ _ _) rfl rfl rfl
  | reap waits dead => exact transport.congr rfl rfl rfl rfl rfl
  | kill waits alive => exact transport.congr rfl rfl rfl rfl rfl
  | join waits ended => exact transport.congr rfl rfl rfl rfl rfl
  | @take m rest idle first =>
      obtain ⟨missing, cut, none⟩ := transport.cut
      simp only [idle] at none
      rw [none, List.append_nil] at cut
      rcases transport.order with ⟨ended, _⟩ | ⟨_, all⟩
      · cases idle.symm.trans ended
      · refine ⟨.inr ⟨nofun, ?_⟩, ?_, m.bytes, ?_, rfl⟩
        · simpa [Deed.frames, Deed.queued, waiting, first, Item.message?] using all
        · simp [Deed.frames, Deed.written, cut]
        · simp [Deed.frames, Deed.written, cut]
  | flush done =>
      obtain ⟨missing, cut, none⟩ := transport.cut
      simp only [done] at none
      rcases transport.order with ⟨ended, _⟩ | ⟨_, all⟩
      · cases done.symm.trans ended
      · refine ⟨.inr ⟨nofun, ?_⟩, ?_, missing, ?_, none⟩
        · simpa [Deed.frames, Deed.queued, waiting] using all
        · simpa [Deed.frames, Deed.written] using transport.whole
        · simpa [Deed.frames, Deed.written] using cut
  | @write rest writing more intact room =>
      obtain ⟨missing, cut, same⟩ := transport.cut
      simp only [writing] at same
      rcases transport.order with ⟨ended, _⟩ | ⟨_, all⟩
      · cases writing.symm.trans ended
      · refine ⟨.inr ⟨nofun, ?_⟩, ?_, rest.drop l.input.room, ?_, rfl⟩
        · simpa [Deed.frames, Deed.queued, waiting] using all
        · simpa [Deed.frames, Deed.written] using
            transport.whole.trans (List.prefix_append _ _)
        · -- what is written now is the first part of what was missing
          simpa [Deed.frames, Deed.written, same] using cut
  | breakOff writing more broken => exact transport.ends
  | quit idle released => exact transport.ends
  | report listens pulled =>
      obtain ⟨pending, answer, reader, output, events, same⟩ := report_shape l _ _
      rw [same]
      exact transport.congr rfl rfl rfl rfl rfl
  | readOn listens more pulled => exact transport.congr rfl rfl rfl rfl rfl
  | endOfStream listens empty closed clean => exact transport.congr rfl rfl rfl rfl rfl
  | cutShort listens empty closed cut =>
      obtain ⟨pending, answer, reader, output, events, same⟩ := report_shape l _ _
      rw [same]
      exact transport.congr rfl rfl rfl rfl rfl
  | refuse refusing place => exact transport.puts place rfl rfl
  | dropRefusal refusing ended => exact transport.congr rfl rfl rfl rfl rfl
  | server m moved =>
      obtain ⟨input, output, alive, rfl⟩ := move?_shape moved
      exact transport.congr rfl rfl rfl rfl rfl
  | openDocument idle path text =>
      exact transport.onlyCaller (l.onlyCaller_openDocument path text) rfl rfl rfl
  | shutdown idle => exact transport.congr rfl rfl rfl rfl rfl

/-- **In every run the messages are written in the order in which they were put into the queue.** -/
theorem Course.transport {c : Client} (run : Course (.start c) h l) : l.Transport h := by
  induction run with
  | nil => exact transport_start c
  | snoc _ does ih => exact does.transport ih

/-! ## A server that reads -/

/-- If the server reads, the writer gets done with what it writes. -/
theorem sends_rest {rest : List UInt8} (alive : l.alive = true)
    (intact : l.input.readable = true) (writing : l.writer = .writing rest) :
    l.Sends [] { l with writer := .idle, input := { l.input with bytes := [] } } := by
  -- by what is left to write; the server empties the pipe before each write
  induction length : rest.length using Nat.strongRecOn generalizing l rest with
  | ind n ih =>
      have reads : l.Does (.server (.take l.input.bytes.length))
          { l with input := { l.input with bytes := [] } } :=
        .server _ (by simp [move?, alive])
      by_cases done : rest = []
      · exact reads.sends.trans (Does.flush (done ▸ writing)).sends
      · -- now that the pipe is empty, there is room
        have writes := Does.write (l := { l with input := { l.input with bytes := [] } }) writing
          done intact (by simp [Pipe.room, Pipe.capacity])
        have shorter : (rest.drop Pipe.capacity).length < n := by
          have some : 0 < rest.length := List.length_pos_iff.mpr done
          rw [List.length_drop, ← length, Pipe.capacity]
          omega
        have more := ih _ shorter (l := { l with
          writer := .writing (rest.drop Pipe.capacity)
          input := Pipe.put { l.input with bytes := [] } (rest.take Pipe.capacity) })
          alive intact rfl rfl
        exact (reads.sends.trans writes.sends).trans more

/-- If the server reads, the first message of the queue gets written. -/
theorem sends_first {m : Outgoing} {rest : List Item} (alive : l.alive = true)
    (intact : l.input.readable = true) (idle : l.writer = .idle)
    (first : l.queue = .message m :: rest) :
    l.Sends [m]
      { l with queue := rest, writer := .idle, input := { l.input with bytes := [] } } :=
  (Does.take idle first).sends.trans
    (sends_rest (l := { l with queue := rest, writer := .writing m.bytes }) alive intact rfl)

end Link

end Gatekeeper.Server
