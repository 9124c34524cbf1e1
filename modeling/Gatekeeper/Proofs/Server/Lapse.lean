import Gatekeeper.Proofs.Server.Answers

set_option autoImplicit false

/-!
# Requests that outlive the reader

When the reader ends, no answer can come any more. The caller does not learn of it: it shares the
list of registered requests with the reader, so its request is registered still, and it waits on
until the clock ends the wait (`Link.orphaned_until_timeout`). The failure that there can be no
answer any more, which is meant for this case, does not occur.
-/

namespace Gatekeeper.Server.Link

/-- The reader has ended, and the caller waits for the answer to a request. -/
structure Orphaned (l : Link) (call : Call) (id : Nat) : Prop where
  ended : l.reader = .ended
  waits : l.caller = .awaiting call id
  silent : l.answer = none

variable {l l' : Link} {c : Client} {h k : History} {call : Call} {id : Nat}

/-- Of an orphaned request that is registered, nothing but the clock makes an end. -/
theorem Orphaned.does {d : Deed} (orphaned : l.Orphaned call id) (registered : id ∈ l.pending)
    (does : l.Does d l') :
    l'.Orphaned call id ∨ d = .lapses call id (.timedOut call.method) := by
  obtain ⟨ended, waits, silent⟩ := orphaned
  cases does with
  | put parcel place => simp [parcel?, waits] at parcel
  | turnAway parcel closed => simp [parcel?, waits] at parcel
  | learn waits' answer =>
      rw [silent] at answer
      cases answer
  | orphan waits' _ dropped =>
      cases waits.symm.trans waits'
      exact absurd registered dropped
  | timeOut waits' _ _ =>
      cases waits.symm.trans waits'
      exact .inr rfl
  | reap waits' dead => cases waits.symm.trans waits'
  | kill waits' alive => cases waits.symm.trans waits'
  | join waits' closed => cases waits.symm.trans waits'
  | take idle first => exact .inl ⟨ended, waits, silent⟩
  | flush done => exact .inl ⟨ended, waits, silent⟩
  | write writing more intact room => exact .inl ⟨ended, waits, silent⟩
  | breakOff writing more broken => exact .inl ⟨ended, waits, silent⟩
  | quit idle released => exact .inl ⟨ended, waits, silent⟩
  -- nothing is read any more
  | report listens pulled => cases ended.symm.trans listens
  | readOn listens more pulled => cases ended.symm.trans listens
  | endOfStream listens empty closed clean => cases ended.symm.trans listens
  | cutShort listens empty closed cut => cases ended.symm.trans listens
  | refuse refusing place => cases ended.symm.trans refusing
  | dropRefusal refusing closed => cases ended.symm.trans refusing
  | server m moved =>
      obtain ⟨input, output, alive, rfl⟩ := move?_shape moved
      exact .inl ⟨ended, waits, silent⟩
  | openDocument idle path text => cases waits.symm.trans idle
  | shutdown idle => cases waits.symm.trans idle

/-- A request that has lapsed has timed out. -/
theorem Course.lapses_timedOut {f : Failure} (run : Course (.start c) h l)
    (lapsed : .lapses call id f ∈ h) : f = .timedOut call.method := by
  induction run with
  | nil => cases lapsed
  | snoc past does ih =>
      rcases List.mem_append.mp lapsed with before | last
      · exact ih before
      · cases List.mem_singleton.mp last
        cases does with
        | orphan waits silent dropped =>
            rw [past.registered waits silent] at dropped
            exact absurd List.mem_cons_self dropped
        | timeOut waits silent registered => rfl

/-- **A request that outlives the reader waits for the clock.** Every request that is given up
without an answer has timed out. If the reader ends before the answer has come, then the clock can
end the wait, and whatever happens, the caller waits on until it does. -/
theorem orphaned_until_timeout (run : Course (.start c) h l) :
    (∀ call id f, .lapses call id f ∈ h → f = .timedOut call.method) ∧
    ∀ call id, l.Orphaned call id →
      l.clock? = some (l.giveUp call id (.timedOut call.method)) ∧
      ∀ k l', Course l k l' →
        l'.Orphaned call id ∨ .lapses call id (.timedOut call.method) ∈ k := by
  refine ⟨fun _ _ _ => run.lapses_timedOut, ?_⟩
  intro call id orphaned
  have registered := run.registered orphaned.waits orphaned.silent
  refine ⟨by simp [clock?, orphaned.waits, orphaned.silent, registered], ?_⟩
  intro k l' more
  -- along the course: as long as it waits the request is registered, so only the clock can end it
  induction more with
  | nil => exact .inl orphaned
  | @snoc k d m m' past does ih =>
      rcases ih with waiting | lapsed
      · have still := (run.trans past).registered waiting.waits waiting.silent
        rcases waiting.does (still ▸ List.mem_cons_self) does with waiting | rfl
        · exact .inl waiting
        · exact .inr (List.mem_append_right _ List.mem_cons_self)
      · exact .inr (List.mem_append_left _ lapsed)

/-- The server ends before it has answered the handshake, and the reader sees it. -/
theorem orphaned_handshake :
    ∃ h l, Course (.start simpleClient) h l ∧ l.Orphaned .hello 1 := by
  have start : Course (.start simpleClient) [] (.start simpleClient) := .nil
  have asked := start.snoc
    (@Does.put _ (.message (.hello 1 0 "file:///")) (.awaiting .hello 1) rfl
      ⟨by decide, by decide⟩)
  have ended := asked
    |>.snoc (.server .exit rfl)
    |>.snoc (.endOfStream (d := .start) rfl rfl rfl rfl)
  exact ⟨_, _, ended, rfl, rfl, rfl⟩

theorem orphaned_until_timeout_handshake :
    ∃ h l, Course (.start simpleClient) h l ∧ l.Orphaned .hello 1 ∧
      l.clock? = some (l.giveUp .hello 1 (.timedOut "initialize")) := by
  obtain ⟨h, l, run, orphaned⟩ := orphaned_handshake
  exact ⟨h, l, run, orphaned, ((orphaned_until_timeout run).2 .hello 1 orphaned).1⟩

/-- It is not so that a request that outlives the reader fails because there can be no answer. -/
theorem not_orphaned_unanswerable :
    ¬ ∀ (c : Client) (h : History) (l l' : Link) (call : Call) (id : Nat) (f : Failure),
      Course (.start c) h l → l.Orphaned call id → l.Does (.lapses call id f) l' →
        f.message = "server exited before answering " ++ call.method := by
  intro always
  obtain ⟨h, l, run, orphaned⟩ := orphaned_handshake
  have registered := run.registered orphaned.waits orphaned.silent
  have lapses := Does.timeOut orphaned.waits orphaned.silent (registered ▸ List.mem_cons_self)
  have wording := always _ h l _ _ _ _ run orphaned lapses
  revert wording
  decide

end Gatekeeper.Server.Link
