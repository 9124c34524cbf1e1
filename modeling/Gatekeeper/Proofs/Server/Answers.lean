import Gatekeeper.Proofs.Server.Course

set_option autoImplicit false

/-!
# Answers to requests

A request is registered until the reader finds its answer or the caller gives it up. `Link.Expects`
says what the fields of the link tell of this, and holds along every course (`Link.Course.expects`).
So at most the request that is under way is registered, and a request without an answer is
(`Link.Course.registered`), also when the reader has ended.
-/

namespace Gatekeeper.Server

/-- The body of a response is the value that was read. -/
theorem Incoming.body_eq_of_response {v body : Json} {id : Nat}
    (response : Incoming.ofJson? v = some (.response id body)) : body = v := by
  unfold Incoming.ofJson? at response
  split at response
  · cases response
  · split at response
    · obtain ⟨_, _, same⟩ := Option.map_eq_some_iff.mp response
      cases same
      rfl
    · cases response
  · obtain ⟨_, _, fields⟩ := Option.bind_eq_some_iff.mp response
    obtain ⟨_, _, read⟩ := Option.bind_eq_some_iff.mp fields
    obtain ⟨_, _, same⟩ := Option.map_eq_some_iff.mp read
    cases same
  · cases response

namespace Link

/-! ## What the fields tell of an answer -/

/-- The request is either registered still, or its answer has come and is one of the values that
were read. -/
def Expected (l : Link) (id : Nat) (values : List Json) : Prop :=
  l.pending = [id] ∧ l.answer = none ∨
    l.pending = [] ∧
      ∃ body ∈ values, l.answer = some body ∧ Incoming.ofJson? body = some (.response id body)

/-- What the fields tell of the answer that the caller waits for, where `values` were read. -/
def Expects (l : Link) (values : List Json) : Prop :=
  match l.caller with
  | .requesting _ id => l.Expected id values
  | .awaiting _ id => l.Expected id values
  | .greeting => l.pending = [] ∧ l.answer = none
  | .showing _ => l.pending = [] ∧ l.answer = none
  | .idle _ => l.pending = [] ∧ l.answer = none
  | _ => l.pending = []

theorem expects_start (c : Client) : (Link.start c).Expects [] := .inl ⟨rfl, rfl⟩

variable {l l' : Link} {values : List Json}

theorem Expected.mono {id : Nat} {more : List Json} (expected : l.Expected id values) :
    l.Expected id (values ++ more) := by
  rcases expected with registered | ⟨clear, body, read, rest⟩
  · exact .inl registered
  · exact .inr ⟨clear, body, List.mem_append_left more read, rest⟩

theorem Expects.mono {more : List Json} (expects : l.Expects values) :
    l.Expects (values ++ more) := by
  unfold Expects at *
  split at expects
  · exact Expected.mono expects
  · exact Expected.mono expects
  all_goals exact expects

/-- Only these fields matter. -/
theorem Expects.congr (expects : l.Expects values) (caller : l'.caller = l.caller)
    (pending : l'.pending = l.pending) (answer : l'.answer = l.answer) : l'.Expects values := by
  unfold Expects Expected at *
  rwa [caller, pending, answer]

/-- At most the request that is under way is registered. -/
theorem Expects.pending_cases (expects : l.Expects values) :
    l.pending = [] ∨ ∃ id, l.pending = [id] ∧
      ((∃ call, l.caller = .requesting call id) ∨ ∃ call, l.caller = .awaiting call id) := by
  unfold Expects at expects
  split at expects
  · rename_i call id at_caller
    rcases expects with ⟨registered, _⟩ | ⟨clear, _⟩
    · exact .inr ⟨id, registered, .inl ⟨call, at_caller⟩⟩
    · exact .inl clear
  · rename_i call id at_caller
    rcases expects with ⟨registered, _⟩ | ⟨clear, _⟩
    · exact .inr ⟨id, registered, .inr ⟨call, at_caller⟩⟩
    · exact .inl clear
  · exact .inl expects.1
  · exact .inl expects.1
  · exact .inl expects.1
  · exact .inl expects

/-- When a request is given up, none is registered any more. -/
theorem Expected.giveUp {id : Nat} (expected : l.Expected id values) (call : Call) (f : Failure) :
    (l.giveUp call id f).Expects values := by
  have clear : l.pending.erase id = [] := by
    rcases expected with ⟨registered, _⟩ | ⟨clear, _⟩
    · rw [registered, List.erase_cons_head]
    · rw [clear, List.erase_nil]
  cases call <;> exact clear

/-- The reader may find the answer. -/
theorem Expects.hear (expects : l.Expects values) (v : Json) :
    (l.hear v).Expects (values ++ [v]) := by
  unfold Link.hear
  split
  · rename_i id body response
    split
    · rename_i registered
      cases Incoming.body_eq_of_response response
      rcases expects.pending_cases with clear | ⟨id', only, at_caller⟩
      · simp [clear] at registered
      · -- it is the one request that is registered
        have same : id = id' := by simpa [only] using registered
        subst same
        have found : Link.Expected
            { l with pending := l.pending.erase id, answer := some v } id (values ++ [v]) :=
          .inr ⟨by simp [only], v, List.mem_append_right _ List.mem_cons_self, rfl, response⟩
        rcases at_caller with ⟨call, at_caller⟩ | ⟨call, at_caller⟩
        · simpa only [Expects, at_caller] using found
        · simpa only [Expects, at_caller] using found
    · exact expects.mono
  all_goals exact (expects.congr rfl rfl rfl).mono

theorem Expects.report (expects : l.Expects values) (o : Frame.Outcome) (rest : List UInt8) :
    (l.report o rest).Expects (values ++ Deed.values (.reads o)) := by
  have before : Link.Expects
      { l with output := { l.output with bytes := rest }, reader := .listening .start } values :=
    expects.congr rfl rfl rfl
  cases o with
  | value v => exact before.hear v
  | fault f => exact (before.congr rfl rfl rfl).mono

/-- **A deed keeps what the fields tell of the answer.** -/
theorem Does.expects {d : Deed} (does : l.Does d l') (expects : l.Expects values) :
    l'.Expects (values ++ d.values) := by
  -- The deeds of the caller change what is expected. The writer and the server touch none of the
  -- three fields, and the reader does so only by what it hears.
  cases does with
  | put parcel place =>
      unfold Expects at expects ⊢
      unfold parcel? at parcel
      split at parcel <;> cases parcel <;> rename_i at_caller <;> simp only [at_caller] at expects
      · exact expects.mono
      all_goals exact expects
  | turnAway parcel ended =>
      refine Expects.mono ?_
      unfold Expects at expects
      unfold parcel? at parcel
      unfold turnedAway
      split at parcel <;> cases parcel <;> rename_i at_caller <;> simp only [at_caller] at expects
      · exact expects.giveUp _ _
      · exact expects.1
      · exact expects
      · exact expects
      · exact expects
  | @learn call id body waits answer =>
      unfold Expects at expects
      simp only [waits] at expects
      rcases expects with ⟨_, silent⟩ | ⟨clear, _⟩
      · rw [answer] at silent
        cases silent
      · unfold answered
        split
        · exact clear
        · exact ⟨clear, rfl⟩
        · exact clear
        · exact clear
  | orphan waits silent dropped =>
      unfold Expects at expects
      simp only [waits] at expects
      exact expects.mono.giveUp _ _
  | timeOut waits silent registered =>
      unfold Expects at expects
      simp only [waits] at expects
      exact expects.mono.giveUp _ _
  | reap waits dead =>
      simp only [Expects, waits] at expects
      exact expects
  | kill waits alive =>
      simp only [Expects, waits] at expects
      exact expects
  | join waits ended =>
      simp only [Expects, waits] at expects
      exact expects
  | take idle first => exact (expects.congr rfl rfl rfl).mono
  | flush done => exact (expects.congr rfl rfl rfl).mono
  | write writing more intact room => exact (expects.congr rfl rfl rfl).mono
  | breakOff writing more broken => exact (expects.congr rfl rfl rfl).mono
  | quit idle released => exact (expects.congr rfl rfl rfl).mono
  | report listens pulled => exact expects.report _ _
  | readOn listens more pulled => exact (expects.congr rfl rfl rfl).mono
  | endOfStream listens empty closed clean => exact (expects.congr rfl rfl rfl).mono
  | cutShort listens empty closed cut => exact expects.report _ _
  | refuse refusing place => exact (expects.congr rfl rfl rfl).mono
  | dropRefusal refusing ended => exact (expects.congr rfl rfl rfl).mono
  | server m moved =>
      obtain ⟨input, output, alive, rfl⟩ := move?_shape moved
      exact (expects.congr rfl rfl rfl).mono
  | @openDocument sent idle path text =>
      simp only [Expects, idle] at expects
      unfold Link.openDocument
      split
      · exact expects
      · split <;> exact expects
  | shutdown idle =>
      simp only [Expects, idle] at expects
      refine .inl ⟨?_, expects.2⟩
      rw [Link.request, expects.1]

/-- So does a run. -/
theorem Expects.course {h : History} (expects : l.Expects values) (run : Course l h l') :
    l'.Expects (values ++ h.values) := by
  induction run with
  | nil => exact expects.mono
  | snoc _ does ih =>
      rw [History.values_snoc, ← List.append_assoc]
      exact does.expects ih

/-- **In every run the fields tell of the answer that is expected.** -/
theorem Course.expects {c : Client} {h : History} (run : Course (.start c) h l) :
    l.Expects h.values := (expects_start c).course run

/-- A request without an answer is registered. -/
theorem Course.registered {c : Client} {h : History} {call : Call} {id : Nat}
    (run : Course (.start c) h l) (waits : l.caller = .awaiting call id)
    (silent : l.answer = none) : l.pending = [id] := by
  have expects := run.expects
  simp only [Expects, waits] at expects
  rcases expects with ⟨registered, _⟩ | ⟨_, body, _, answer, _⟩
  · exact registered
  · rw [silent] at answer
    cases answer

/-! ## A handshake -/

/-- A client that says nothing about itself but its session. -/
def simpleClient : Client := { session := ⟨1⟩ }

/-- What a server says that grants a request. -/
def grant (id : Nat) : Json := .ofMembers [("id", .ofNat id), ("result", .ofMembers [])]

/-- The handshake is over, and the writer has not begun yet. -/
def greeted : Link :=
  { client := simpleClient
    caller := .idle (.ok ())
    nextId := 2
    queue := [.message (.hello 1 0 "file:///"), .message .initialized] }

/-- A server may grant the handshake before it has read anything. -/
theorem sends_greeted : (Link.start simpleClient).Sends [] greeted := by
  have start : Course (.start simpleClient) [] (.start simpleClient) := .nil
  have asked := start
    |>.snoc (@Does.put _ (.message (.hello 1 0 "file:///")) (.awaiting .hello 1) rfl
      ⟨by decide, by decide⟩)
    |>.snoc (.server (.put (Frame.encode (grant 1))) rfl)
    |>.snoc (@Does.report _ .start (.value (grant 1)) [] rfl rfl)
  have answered := asked
    |>.snoc (@Does.learn _ .hello 1 (grant 1) rfl rfl)
    |>.snoc (@Does.put _ (.message .initialized) (.idle (.ok ())) rfl ⟨by decide, by decide⟩)
  exact ⟨_, answered, rfl⟩

end Link

end Gatekeeper.Server
