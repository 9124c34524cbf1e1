import Gatekeeper.Proofs.Server.Answers

set_option autoImplicit false

/-!
# Where a shutdown can get stuck

Two of the waits of a shutdown have a limit: the wait for the answer and the wait for the server's
end. The waits for a place in the queue have none. If the queue is full, and the writer waits for a
server that does not read, then neither the client nor the clock has a next step, and the kill of
the server is not reached (`Link.exists_stuck`). That is the only way for a shutdown to get stuck
(`Link.shutdown_stuck_iff`): behind the queue, the clock sees to it that the shutdown goes on.

The server is one process here. Its end closes both pipes, so nothing that it forked keeps one open
and makes the reader or the writer wait on after the kill.
-/

namespace Gatekeeper.Server

/-- No frame is empty. -/
theorem Outgoing.bytes_ne_nil (m : Outgoing) : m.bytes ≠ [] := by
  simp [Outgoing.bytes, Frame.encode, Frame.header, Frame.lengthHeader, Text.Utf8.encode,
    String.utf8EncodeChar]

namespace Link

variable {l l' : Link} {c : Client}

/-- A shutdown is in progress, and not over. -/
def IsShuttingDown (l : Link) : Prop :=
  match l.caller with
  | .requesting .shutdown _ => True
  | .awaiting .shutdown _ => True
  | .leaving => True
  | .closing => True
  | .reaping => True
  | .joining => True
  | _ => False

/-- A step of the client or of the clock. -/
inductive OwnStep (l l' : Link) : Prop
  | caller (goesOn : l.caller? = some l')
  | clock (goesOn : l.clock? = some l')
  | writer (goesOn : l.writer? = some l')
  | reader (goesOn : l.reader? = some l')

/-- Neither the client nor the clock can go on. -/
def Stuck (l : Link) : Prop := ∀ l', ¬ l.OwnStep l'

theorem stuck_iff : l.Stuck ↔
    l.caller? = none ∧ l.clock? = none ∧ l.writer? = none ∧ l.reader? = none := by
  simp only [Option.eq_none_iff_forall_ne_some]
  constructor
  · intro stuck
    exact ⟨fun l' goesOn => stuck l' (.caller goesOn), fun l' goesOn => stuck l' (.clock goesOn),
      fun l' goesOn => stuck l' (.writer goesOn), fun l' goesOn => stuck l' (.reader goesOn)⟩
  · rintro ⟨caller, clock, writer, reader⟩ l' (goesOn | goesOn | goesOn | goesOn)
    · exact caller l' goesOn
    · exact clock l' goesOn
    · exact writer l' goesOn
    · exact reader l' goesOn

/-- The queue is full, and the writer waits until the server makes room in the pipe. -/
structure Clogged (l : Link) : Prop where
  full : queueCapacity ≤ l.queue.length
  writing : ∃ rest, rest ≠ [] ∧ l.writer = .writing rest
  intact : l.input.readable = true
  noRoom : l.input.room = 0

/-- Why the writer rests. -/
theorem writer?_eq_none_iff : l.writer? = none ↔
    l.writer = .ended ∨ (l.writer = .idle ∧ l.queue = [] ∧ l.isDeserted = false) ∨
      ∃ rest, rest ≠ [] ∧ l.writer = .writing rest ∧ l.input.readable = true ∧
        l.input.room = 0 := by
  unfold writer?
  split
  · rename_i idle
    split
    · rename_i first
      simp [idle, first]
    · rename_i first
      simp [idle, first]
    · rename_i empty
      simp [idle, empty]
  · rename_i rest writing
    by_cases done : rest = []
    · simp [writing, done]
    · cases intact : l.input.readable <;> simp [writing, done]
  · rename_i ended
    simp [ended]

theorem Clogged.writer?_eq_none (clogged : l.Clogged) : l.writer? = none := by
  obtain ⟨rest, more, writing⟩ := clogged.writing
  exact writer?_eq_none_iff.mpr
    (.inr (.inr ⟨rest, more, writing, clogged.intact, clogged.noRoom⟩))

/-- A caller that finds no place can go on when the writer has. -/
theorem clogged_of_full {i : Item} (full : l.offer i = .full) (rests : l.writer? = none) :
    l.Clogged := by
  rcases l.offer_cases i with ⟨_, offered⟩ | ⟨_, offered⟩ | ⟨isOpen, long, _⟩
  · cases full.symm.trans offered
  · cases full.symm.trans offered
  · rcases writer?_eq_none_iff.mp rests with
      ended | ⟨_, empty, _⟩ | ⟨rest, more, writing, intact, noRoom⟩
    · exact absurd ended isOpen
    · rw [empty] at long
      exact absurd long (by decide)
    · exact ⟨long, ⟨rest, more, writing⟩, intact, noRoom⟩

theorem Clogged.offer (clogged : l.Clogged) (i : Item) : l.offer i = .full := by
  obtain ⟨rest, _, writing⟩ := clogged.writing
  rcases l.offer_cases i with ⟨ended, _⟩ | ⟨place, _⟩ | ⟨_, _, offered⟩
  · cases ended.symm.trans writing
  · exact absurd clogged.full (Nat.not_le_of_lt place.length_lt)
  · exact offered

/-! ## What holds of a link near its end -/

/-- The server's end of the pipe goes with the server, and the caller waits for the writer only when
the server has ended and the writer has been told to. -/
structure Orderly (l : Link) : Prop where
  broken : l.alive = false → l.input.readable = false
  dead : l.caller = .joining → l.alive = false
  told : l.caller = .reaping ∨ l.caller = .joining → l.writer = .ended ∨ .close ∈ l.queue

theorem orderly_start (c : Client) : (Link.start c).Orderly where
  broken := nofun
  dead := nofun
  told := by rintro (at_caller | at_caller) <;> cases at_caller

/-- A caller that does not wait for an end is free to go on in any way. -/
theorem orderly_of_caller (broken : l.alive = false → l.input.readable = false)
    (caller : l.caller ≠ .reaping ∧ l.caller ≠ .joining) : l.Orderly where
  broken := broken
  dead := fun at_caller => absurd at_caller caller.2
  told := fun at_caller => absurd at_caller (not_or.mpr caller)

theorem Orderly.move? {m : Move} (orderly : l.Orderly) (moved : l.move? m = some l') :
    l'.Orderly := by
  unfold Link.move? at moved
  split at moved
  · cases moved
  · split at moved
    · cases moved
      exact ⟨orderly.broken, orderly.dead, orderly.told⟩
    · split at moved <;> cases moved
      exact ⟨orderly.broken, orderly.dead, orderly.told⟩
    · cases moved
      exact ⟨fun _ => rfl, orderly.dead, orderly.told⟩
    · cases moved
      exact ⟨orderly.broken, orderly.dead, orderly.told⟩
    · cases moved
      exact ⟨fun _ => rfl, fun _ => rfl, orderly.told⟩

/-- **A deed keeps a link orderly.** -/
theorem Does.orderly {d : Deed} (does : l.Does d l') (orderly : l.Orderly) : l'.Orderly := by
  obtain ⟨broken, dead, told⟩ := orderly
  -- A caller that goes on to anything but an end leaves only the first part to be shown. Of the
  -- other parties it matters what they do to the writer and to the queue.
  cases does with
  | put parcel place =>
      unfold parcel? at parcel
      split at parcel <;> cases parcel
      · exact orderly_of_caller broken ⟨nofun, nofun⟩
      · exact orderly_of_caller broken ⟨nofun, nofun⟩
      · exact orderly_of_caller broken ⟨nofun, nofun⟩
      · exact orderly_of_caller broken ⟨nofun, nofun⟩
      · -- the caller waits for the server's end once it has told the writer to end
        exact ⟨broken, nofun, fun _ => .inr (List.mem_append_right _ List.mem_cons_self)⟩
  | turnAway parcel ended =>
      unfold parcel? at parcel
      unfold turnedAway
      split at parcel <;> cases parcel
      · rename_i call id _
        cases call
        · exact orderly_of_caller (fun _ => rfl) ⟨nofun, nofun⟩
        · exact orderly_of_caller broken ⟨nofun, nofun⟩
      · exact orderly_of_caller (fun _ => rfl) ⟨nofun, nofun⟩
      · exact orderly_of_caller broken ⟨nofun, nofun⟩
      · exact orderly_of_caller broken ⟨nofun, nofun⟩
      · exact ⟨broken, nofun, fun _ => .inl ended⟩
  | learn waits answer =>
      unfold answered
      split
      · exact orderly_of_caller (fun _ => rfl) ⟨nofun, nofun⟩
      · exact orderly_of_caller broken ⟨nofun, nofun⟩
      · exact orderly_of_caller broken ⟨nofun, nofun⟩
      · exact orderly_of_caller broken ⟨nofun, nofun⟩
  | @orphan call id waits silent dropped =>
      cases call
      · exact orderly_of_caller (fun _ => rfl) ⟨nofun, nofun⟩
      · exact orderly_of_caller broken ⟨nofun, nofun⟩
  | @timeOut call id waits silent registered =>
      cases call
      · exact orderly_of_caller (fun _ => rfl) ⟨nofun, nofun⟩
      · exact orderly_of_caller broken ⟨nofun, nofun⟩
  | reap waits gone => exact ⟨broken, fun _ => gone, fun _ => told (.inl waits)⟩
  | kill waits alive => exact ⟨fun _ => rfl, fun _ => rfl, fun _ => told (.inl waits)⟩
  | join waits ended => exact orderly_of_caller broken ⟨nofun, nofun⟩
  | take idle first =>
      refine ⟨broken, dead, fun at_caller => ?_⟩
      rcases told at_caller with ended | close
      · cases idle.symm.trans ended
      · -- what the writer takes is not the order to end
        rw [first] at close
        rcases List.mem_cons.mp close with same | close
        · cases same
        · exact .inr close
  | flush done =>
      refine ⟨broken, dead, fun at_caller => ?_⟩
      rcases told at_caller with ended | close
      · cases done.symm.trans ended
      · exact .inr close
  | write writing more intact room =>
      refine ⟨broken, dead, fun at_caller => ?_⟩
      rcases told at_caller with ended | close
      · cases writing.symm.trans ended
      · exact .inr close
  | breakOff writing more cut => exact ⟨broken, dead, fun _ => .inl rfl⟩
  | quit idle released => exact ⟨broken, dead, fun _ => .inl rfl⟩
  | report listens pulled =>
      obtain ⟨pending, answer, reader, output, events, same⟩ := report_shape l _ _
      rw [same]
      exact ⟨broken, dead, told⟩
  | readOn listens more pulled => exact ⟨broken, dead, told⟩
  | endOfStream listens empty closed clean => exact ⟨broken, dead, told⟩
  | cutShort listens empty closed cut =>
      obtain ⟨pending, answer, reader, output, events, same⟩ := report_shape l _ _
      rw [same]
      exact ⟨broken, dead, told⟩
  | refuse refusing place =>
      refine ⟨broken, dead, fun at_caller => (told at_caller).imp_right ?_⟩
      exact List.mem_append_left _
  | dropRefusal refusing ended => exact ⟨broken, dead, told⟩
  | server m moved => exact Orderly.move? ⟨broken, dead, told⟩ moved
  | @openDocument sent idle path text =>
      obtain ⟨caller, documents, same⟩ := openDocument_shape l path text
      have free : (l.openDocument path text).caller ≠ .reaping ∧
          (l.openDocument path text).caller ≠ .joining := by
        unfold Link.openDocument
        split
        · exact ⟨nofun, nofun⟩
        · split <;> exact ⟨nofun, nofun⟩
      rw [same] at free ⊢
      exact orderly_of_caller broken free
  | shutdown idle => exact orderly_of_caller broken ⟨nofun, nofun⟩

theorem Reachable.orderly (reachable : Reachable c l) : l.Orderly := by
  induction reachable with
  | refl => exact orderly_start c
  | tail _ step ih =>
      obtain ⟨d, does⟩ := step_iff_does.mp step
      exact does.orderly ih

/-! ## Where it gets stuck -/

theorem caller?_of_full {i : Item} {next : Caller} (parcel : l.parcel? = some (i, next))
    (full : l.offer i = .full) : l.caller? = none := by
  rw [caller?_of_parcel parcel, full]

theorem full_of_caller? {i : Item} {next : Caller} (parcel : l.parcel? = some (i, next))
    (rests : l.caller? = none) : l.offer i = .full := by
  rw [caller?_of_parcel parcel] at rests
  cases offered : l.offer i with
  | full => rfl
  | closed => simp [offered] at rests
  | taken m => simp [offered] at rests

/-- The clock has nothing to say to a caller that waits for a place in the queue. -/
theorem clock?_of_parcel (waits : l.parcel?.isSome) : l.clock? = none := by
  unfold parcel? at waits
  unfold clock?
  split at waits <;> simp_all

/-- The clock, or the writer's end, makes an end of every other wait of a shutdown. -/
theorem isSome_parcel? (orderly : l.Orderly) (down : l.IsShuttingDown) (caller : l.caller? = none)
    (clock : l.clock? = none) (writer : l.writer? = none) : l.parcel?.isSome := by
  rw [Option.isSome_iff_ne_none]
  intro parcel
  unfold IsShuttingDown at down
  split at down <;> rename_i at_caller <;>
    simp only [parcel?, at_caller, reduceCtorEq] at parcel
  · -- the answer: it is there, or it can come, or it cannot
    rename_i id
    simp only [caller?, clock?, at_caller] at caller clock
    cases answer : l.answer with
    | some body => simp [answer] at caller
    | none =>
        simp only [answer] at caller clock
        split at caller <;> simp_all
  · simp only [caller?, clock?, at_caller] at caller clock
    cases alive : l.alive <;> simp_all
  · -- the writer has been told to end, and there is nobody to read what it writes
    simp only [caller?, at_caller] at caller
    have isOpen : l.writer ≠ .ended := by simpa using caller
    have broken := orderly.broken (orderly.dead at_caller)
    rcases writer?_eq_none_iff.mp writer with ended | ⟨_, empty, _⟩ | ⟨_, _, _, intact, _⟩
    · exact isOpen ended
    · rcases orderly.told (.inr at_caller) with ended | close
      · exact isOpen ended
      · rw [empty] at close
        cases close
    · rw [broken] at intact
      cases intact
  · exact down

/-- During a shutdown the host calls nothing. -/
theorem IsShuttingDown.step (down : l.IsShuttingDown) (step : l.Step l') :
    l.OwnStep l' ∨ ∃ m, l.move? m = some l' := by
  cases step with
  | caller goesOn => exact .inl (.caller goesOn)
  | clock goesOn => exact .inl (.clock goesOn)
  | writer goesOn => exact .inl (.writer goesOn)
  | reader goesOn => exact .inl (.reader goesOn)
  | server m moved => exact .inr ⟨m, moved⟩
  | openDocument sent idle path text => simp [IsShuttingDown, idle] at down
  | shutdown sent idle => simp [IsShuttingDown, idle] at down

/-- **A shutdown gets stuck only at the queue.** A shutdown in which neither the client nor the
clock can go on is one whose caller waits for a place in the queue, while the writer waits for the
server to read, and the reader for the server to write. From there nothing but the server goes on.
The server is one process, whose end closes both pipes: that nothing it forked keeps one of them
open is taken for granted, and where something does, the reader or the writer may wait for it.
-/
theorem shutdown_stuck_iff (reachable : Reachable c l) (down : l.IsShuttingDown) :
    (l.Stuck ↔ l.parcel?.isSome ∧ l.Clogged ∧ l.reader? = none) ∧
      (l.Stuck → ∀ l', l.Step l' → ∃ m, l.move? m = some l') := by
  constructor
  · rw [stuck_iff]
    constructor
    · rintro ⟨caller, clock, writer, reader⟩
      have waits := isSome_parcel? reachable.orderly down caller clock writer
      obtain ⟨⟨i, next⟩, parcel⟩ := Option.isSome_iff_exists.mp waits
      exact ⟨waits, clogged_of_full (full_of_caller? parcel caller) writer, reader⟩
    · rintro ⟨waits, clogged, reader⟩
      obtain ⟨⟨i, next⟩, parcel⟩ := Option.isSome_iff_exists.mp waits
      exact ⟨caller?_of_full parcel (clogged.offer i), clock?_of_parcel waits,
        clogged.writer?_eq_none, reader⟩
  · intro stuck l' step
    exact (down.step step).resolve_left (stuck l')

/-! ## A server that does not read -/

/-- The client is up and free to show documents, and the server neither reads nor writes. -/
structure Unread (l : Link) : Prop where
  idle : ∃ sent, l.caller = .idle sent
  isOpen : l.writer ≠ .ended
  messages : ∀ i ∈ l.queue, ∃ m, i = .message m
  intact : l.input.readable = true
  listens : l.reader = .listening .start
  silent : l.output.bytes = []
  writable : l.output.writable = true

theorem unread_greeted : greeted.Unread where
  idle := ⟨_, rfl⟩
  isOpen := nofun
  messages := by simp [greeted]
  intact := rfl
  listens := rfl
  silent := rfl
  writable := rfl

/-- A document is shown that has a URI. -/
theorem openDocument_showing {path uri : String} (named : Uri.ofPath? path = some uri)
    (text : String) : ∃ m documents,
      l.openDocument path text = { l with caller := .showing m, documents } := by
  unfold openDocument
  rw [named]
  dsimp only
  split <;> exact ⟨_, _, rfl⟩

/-- One more document goes into the queue. -/
theorem Unread.shows (unread : l.Unread) (short : l.queue.length < queueCapacity) :
    ∃ l' m, Relation.ReflTransGen Step l l' ∧ l'.Unread ∧ l'.queue = l.queue ++ [.message m] ∧
      l'.writer = l.writer ∧ l'.input = l.input := by
  obtain ⟨sent, idle⟩ := unread.idle
  have named : Uri.ofPath? "/" = some "file:///" := rfl
  obtain ⟨m, documents, shown⟩ := openDocument_showing (l := l) named ""
  have opens : l.Step { l with caller := .showing m, documents } := by
    rw [← shown]
    exact .openDocument sent idle "/" ""
  have puts := Does.put (l := { l with caller := .showing m, documents }) rfl
    ⟨unread.isOpen, short⟩
  refine ⟨_, m, (Relation.ReflTransGen.single opens).tail puts.step, ?_, rfl, rfl, rfl⟩
  refine ⟨⟨_, rfl⟩, unread.isOpen, ?_, unread.intact, unread.listens, unread.silent,
    unread.writable⟩
  intro i queued
  rcases List.mem_append.mp queued with before | last
  · exact unread.messages i before
  · exact ⟨m, List.mem_singleton.mp last⟩

/-- A writer that is idle takes a message, if need be one that is shown first. -/
theorem Unread.takes (unread : l.Unread) (idle : l.writer = .idle) :
    ∃ l' rest, Relation.ReflTransGen Step l l' ∧ l'.Unread ∧ rest ≠ [] ∧
      l'.writer = .writing rest ∧ l'.input = l.input := by
  -- it is enough that something is in the queue
  suffices took : ∀ m : Link, m.Unread → m.writer = .idle → m.queue ≠ [] →
      ∃ m' rest, Relation.ReflTransGen Step m m' ∧ m'.Unread ∧ rest ≠ [] ∧
        m'.writer = .writing rest ∧ m'.input = m.input by
    by_cases empty : l.queue = []
    · obtain ⟨l', m, steps, unread', queue, writer, input⟩ := unread.shows (by simp [empty]; decide)
      obtain ⟨l'', rest, more⟩ := took l' unread' (writer.trans idle) (by simp [queue])
      exact ⟨l'', rest, steps.trans more.1, more.2.1, more.2.2.1, more.2.2.2.1,
        more.2.2.2.2.trans input⟩
    · exact took l unread idle empty
  intro m unread idle some
  obtain ⟨i, rest, queue⟩ := List.exists_cons_of_ne_nil some
  obtain ⟨message, rfl⟩ := unread.messages i (queue ▸ List.mem_cons_self)
  refine ⟨_, message.bytes, .single (Does.take idle queue).step, ?_, message.bytes_ne_nil, rfl, rfl⟩
  exact ⟨unread.idle, nofun,
    fun i later => unread.messages i (queue ▸ List.mem_cons_of_mem _ later),
    unread.intact, unread.listens, unread.silent, unread.writable⟩

/-- The writer has something to write, or comes to have it. -/
theorem Unread.begins (unread : l.Unread) :
    ∃ l' rest, Relation.ReflTransGen Step l l' ∧ l'.Unread ∧ rest ≠ [] ∧
      l'.writer = .writing rest ∧ l'.input = l.input := by
  cases writer : l.writer with
  | idle => exact unread.takes writer
  | ended => exact absurd writer unread.isOpen
  | writing rest =>
      by_cases done : rest = []
      · have flushes := Does.flush (l := l) (done ▸ writer)
        have after : Link.Unread { l with writer := .idle } := ⟨unread.idle, nofun, unread.messages,
          unread.intact, unread.listens, unread.silent, unread.writable⟩
        obtain ⟨l', rest, steps, facts⟩ := after.takes rfl
        exact ⟨l', rest, steps.head flushes.step, facts⟩
      · exact ⟨l, rest, .refl, unread, done, writer, rfl⟩

/-- **The pipe is filled**, however much room there is. -/
theorem Unread.fillsPipe (unread : l.Unread) :
    ∃ l' rest, Relation.ReflTransGen Step l l' ∧ l'.Unread ∧ rest ≠ [] ∧
      l'.writer = .writing rest ∧ l'.input.room = 0 := by
  -- by the room that is left, of which every write takes some
  induction room : l.input.room using Nat.strongRecOn generalizing l with
  | ind n ih =>
      obtain ⟨l', rest, steps, unread', more, writing, input⟩ := unread.begins
      by_cases full : n = 0
      · exact ⟨l', rest, steps, unread', more, writing, by rw [input, room, full]⟩
      · have room' : l'.input.room = n := by rw [input, room]
        have writes := Does.write writing more unread'.intact (room' ▸ full)
        have after : Link.Unread { l' with
            writer := .writing (rest.drop l'.input.room),
            input := l'.input.put (rest.take l'.input.room) } :=
          ⟨unread'.idle, nofun, unread'.messages, unread'.intact, unread'.listens, unread'.silent,
            unread'.writable⟩
        -- there is less room than before
        have less : (l'.input.put (rest.take l'.input.room)).room < n := by
          have some : 0 < rest.length := List.length_pos_iff.mpr more
          simp only [Pipe.room, Pipe.put, List.length_append, List.length_take] at room' ⊢
          omega
        obtain ⟨l'', rest', steps', facts⟩ := ih _ less after rfl
        exact ⟨l'', rest', (steps.tail writes.step).trans steps', facts⟩

/-- **The queue is filled** behind a writer that waits. -/
theorem Unread.fillsQueue (unread : l.Unread) {rest : List UInt8} (more : rest ≠ [])
    (writing : l.writer = .writing rest) (noRoom : l.input.room = 0) :
    ∃ l', Relation.ReflTransGen Step l l' ∧ l'.Unread ∧ l'.Clogged := by
  -- by the places that are left: the writer waits, so every document takes one
  induction places : queueCapacity - l.queue.length generalizing l with
  | zero =>
      exact ⟨l, .refl, unread, Nat.le_of_sub_eq_zero places, ⟨rest, more, writing⟩, unread.intact,
        noRoom⟩
  | succ n ih =>
      obtain ⟨l', m, steps, unread', queue, writer, input⟩ := unread.shows (by omega)
      have fewer : queueCapacity - l'.queue.length = n := by
        rw [queue, List.length_append, List.length_singleton]
        omega
      obtain ⟨l'', steps', facts⟩ := ih unread' (writer.trans writing) (by rw [input, noRoom]) fewer
      exact ⟨l'', steps.trans steps', facts⟩

/-- **A shutdown can get stuck**: the server has granted the handshake and does not read, the pipe
and the queue are full of documents, and then the server is to be shut down. -/
theorem exists_stuck : ∃ l, Reachable simpleClient l ∧ l.IsShuttingDown ∧ l.Stuck := by
  obtain ⟨h, handshake, -⟩ := sends_greeted
  obtain ⟨l₁, rest, toPipe, unread₁, more, writing, noRoom⟩ := unread_greeted.fillsPipe
  obtain ⟨l₂, toQueue, unread₂, clogged⟩ := unread₁.fillsQueue more writing noRoom
  obtain ⟨sent, idle⟩ := unread₂.idle
  have reachable : Reachable simpleClient (l₂.request .shutdown) :=
    ((handshake.reaches.trans toPipe).trans toQueue).tail (.shutdown sent idle)
  have down : (l₂.request .shutdown).IsShuttingDown := trivial
  refine ⟨_, reachable, down, (stuck_iff).mpr ?_⟩
  have clogged' : (l₂.request .shutdown).Clogged :=
    ⟨clogged.full, clogged.writing, clogged.intact, clogged.noRoom⟩
  refine ⟨caller?_of_full rfl (clogged'.offer _), rfl, clogged'.writer?_eq_none, ?_⟩
  simp [reader?, request, unread₂.listens, unread₂.silent, unread₂.writable, Frame.Decoder.pull]

theorem shutdown_stuck_iff_unread : ∃ l, Reachable simpleClient l ∧ l.IsShuttingDown ∧
    l.parcel?.isSome ∧ l.Clogged ∧ l.reader? = none := by
  obtain ⟨l, reachable, down, stuck⟩ := exists_stuck
  exact ⟨l, reachable, down, (shutdown_stuck_iff reachable down).1.mp stuck⟩

/-- It is not so that the client or the clock can always go on with a shutdown. -/
theorem not_shutdown_goes_on :
    ¬ ∀ (c : Client) (l : Link), Reachable c l → l.IsShuttingDown → ∃ l', l.OwnStep l' := by
  intro always
  obtain ⟨l, reachable, down, stuck⟩ := exists_stuck
  obtain ⟨l', step⟩ := always simpleClient l reachable down
  exact stuck l' step

end Link

end Gatekeeper.Server
