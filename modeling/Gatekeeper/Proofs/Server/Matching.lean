import Gatekeeper.Proofs.Server.Incoming
import Gatekeeper.Proofs.Server.Script

set_option autoImplicit false

/-!
# Which response answers a request

A request is answered by the first response with its id that the reader reads after the request was
registered, and by nothing else (`Link.Matched`). What the server says before that, a second
response to the same request, and responses to others change nothing. A server may speak before it
is spoken to, so a run begins here with what was read before the first request
(`Link.spawned`, `Link.Untried`).
-/

namespace Gatekeeper.Server

open Incoming (respondsTo)

/-- The request that the caller has under way. -/
def Caller.request? : Caller → Option (Call × Nat)
  | requesting call id => some (call, id)
  | awaiting call id => some (call, id)
  | _ => none

/-- Whether the server has been started: its answer to the handshake let the caller go on. -/
def Caller.isUp : Caller → Bool
  | .requesting .hello _ => false
  | .awaiting .hello _ => false
  | .failed _ => false
  | _ => true

namespace History

/-- Whether a request was made: the first is made at the start. -/
def made (h : History) : Call → Bool
  | .hello => true
  | .shutdown => h.isShutDown

/-- What happened after the client was called to shut the server down. -/
def afterShutDown : History → History
  | [] => []
  | d :: rest => if d.isShutDown then rest else afterShutDown rest

/-- What happened since a request was made. -/
def since (h : History) : Call → History
  | .hello => h
  | .shutdown => h.afterShutDown

variable {h : History} {call : Call}

theorem afterShutDown_snoc (h : History) (d : Deed) :
    afterShutDown (h ++ [d]) = if h.isShutDown then h.afterShutDown ++ [d] else [] := by
  induction h with
  | nil => cases d <;> rfl
  | cons first rest ih =>
      rw [List.cons_append, afterShutDown, afterShutDown, ih]
      cases ends : first.isShutDown <;> simp [isShutDown, ends]

theorem made_snoc (already : h.made call) (d : Deed) : made (h ++ [d]) call := by
  cases call with
  | hello => rfl
  | shutdown =>
      have before : h.isShutDown = true := already
      simp [made, before]

/-- What happens after the request was made comes last. -/
theorem since_snoc (already : h.made call) (d : Deed) :
    since (h ++ [d]) call = h.since call ++ [d] := by
  cases call with
  | hello => rfl
  | shutdown =>
      have before : h.isShutDown = true := already
      rw [since, afterShutDown_snoc, if_pos before, since]

/-- Nothing is read. -/
theorem values_since_snoc (already : h.made call) {d : Deed} (silent : d.values = []) :
    (since (h ++ [d]) call).values = (h.since call).values := by
  rw [since_snoc already, values_snoc, silent, List.append_nil]

/-- When it is made, nothing has happened since. -/
theorem since_shutsDown (first : h.isShutDown = false) :
    since (h ++ [.shutsDown]) .shutdown = [] := by
  rw [since, afterShutDown_snoc, first]
  rfl

end History

namespace Link

variable {c : Client} {l l' l₀ : Link} {h early : History} {d : Deed} {values : List Json}

/-! ## Hearing a response -/

/-- The answer that is waited for. -/
theorem hear_of_respondsTo {v : Json} {id : Nat} (registered : l.pending = [id])
    (responds : respondsTo id v) : l.hear v = { l with pending := [], answer := some v } := by
  rw [hear, Incoming.ofJson?_of_respondsTo responds]
  simp [registered]

/-- Any other value is no answer. -/
theorem hear_of_not_respondsTo {v : Json} (other : ∀ id ∈ l.pending, ¬ respondsTo id v) :
    ∃ reader events, l.hear v = { l with reader, events } := by
  unfold hear
  cases Incoming.reading v with
  | request reading isRequest => rw [reading]; exact ⟨_, _, rfl⟩
  | @response id reading responds =>
      have unregistered : l.pending.contains id = false := by
        simpa using fun member => other id member responds
      rw [reading]
      simp only [unregistered]
      exact ⟨_, _, rfl⟩
  | @message shown kind text reading announces =>
      rw [reading]
      cases shown <;> exact ⟨_, _, rfl⟩
  | other reading isNoRequest silent => rw [reading]; exact ⟨_, _, rfl⟩

/-! ## The answer that is waited for -/

/-- The answer to the request with the id is the first response to it among the values. Until it is
read the request is registered, and nothing else is. -/
def Matched (l : Link) (id : Nat) (values : List Json) : Prop :=
  match values.find? (respondsTo id) with
  | none => l.pending = [id] ∧ l.answer = none
  | some body => l.pending = [] ∧ l.answer = some body

/-- A request that is under way has the answer that it should have. -/
def Pairs (l : Link) (h : History) : Prop :=
  ∀ call id, l.caller.request? = some (call, id) →
    h.made call ∧ l.Matched id (h.since call).values

theorem Matched.answer_eq {id : Nat} (matched : l.Matched id values) :
    l.answer = values.find? (respondsTo id) := by
  unfold Matched at matched
  split at matched <;> rename_i first <;> rw [first, matched.2]

/-- A value is heard. -/
theorem Matched.hear {id : Nat} (matched : l.Matched id values) (v : Json) :
    (l.hear v).Matched id (values ++ [v]) := by
  unfold Matched at *
  rw [List.find?_append]
  cases first : values.find? (respondsTo id) with
  | none =>
      rw [first] at matched
      obtain ⟨registered, silent⟩ := matched
      by_cases responds : respondsTo id v
      · rw [hear_of_respondsTo registered responds, List.find?_cons_of_pos responds]
        exact ⟨rfl, rfl⟩
      · obtain ⟨reader, events, same⟩ := hear_of_not_respondsTo (l := l) (v := v)
          (by simpa [registered] using responds)
        rw [same, List.find?_cons_of_neg responds]
        exact ⟨registered, silent⟩
  | some body =>
      -- the answer has been read: nothing is registered
      rw [first] at matched
      obtain ⟨reader, events, same⟩ := hear_of_not_respondsTo (l := l) (v := v)
        (by simp [matched.1])
      rw [same]
      exact matched

/-- The reader reads a value, or a fault. -/
theorem Pairs.report (pairs : l.Pairs h) (o : Frame.Outcome) (rest : List UInt8) :
    (l.report o rest).Pairs (h ++ [.reads o]) := by
  have caller : (l.report o rest).caller = l.caller := by
    obtain ⟨_, _, _, _, _, same⟩ := l.report_shape o rest
    rw [same]
  intro call id underWay
  rw [caller] at underWay
  obtain ⟨made, matched⟩ := pairs call id underWay
  refine ⟨History.made_snoc made _, ?_⟩
  cases o with
  | value v =>
      rw [History.since_snoc made, History.values_snoc]
      exact Matched.hear (l := { l with
        output := { l.output with bytes := rest }, reader := .listening .start }) matched v
  | fault f =>
      rw [History.values_since_snoc made rfl]
      exact matched

/-- Nothing is read, and the request stays under way. -/
theorem Pairs.congr (pairs : l.Pairs h) (caller : l'.caller.request? = l.caller.request?)
    (pending : l'.pending = l.pending) (answer : l'.answer = l.answer) (silent : d.values = []) :
    l'.Pairs (h ++ [d]) := by
  intro call id underWay
  rw [caller] at underWay
  obtain ⟨made, matched⟩ := pairs call id underWay
  refine ⟨History.made_snoc made _, ?_⟩
  rw [History.values_since_snoc made silent]
  unfold Matched at *
  rwa [pending, answer]

/-- No request is under way. -/
theorem pairs_of_free (free : l.caller.request? = none) : l.Pairs h := by
  intro call id underWay
  rw [free] at underWay
  cases underWay

theorem giveUp_free (l : Link) (call : Call) (id : Nat) (f : Failure) :
    (l.giveUp call id f).caller.request? = none := by
  cases call <;> rfl

theorem answered_free (l : Link) (call : Call) (body : Json) :
    (l.answered call body).caller.request? = none := by
  unfold answered
  split <;> rfl

theorem openDocument_free (l : Link) (path text : String) :
    (l.openDocument path text).caller.request? = none := by
  unfold openDocument
  split
  · rfl
  · split <;> rfl

/-- **A deed keeps requests and answers paired.** -/
theorem Does.pairs (does : l.Does d l') (phase : l.Phase h.isShutDown)
    (expects : l.Expects h.values) (pairs : l.Pairs h) : l'.Pairs (h ++ [d]) := by
  -- A request gets under way with a call, and ends when the caller learns or gives up. In between
  -- it stays as it is, but for what the reader reads.
  cases does with
  | put parcel place =>
      unfold parcel? at parcel
      split at parcel <;> cases parcel <;> rename_i at_caller
      · exact pairs.congr (by rw [at_caller]; rfl) rfl rfl rfl
      all_goals exact pairs_of_free rfl
  | turnAway parcel ended =>
      unfold parcel? at parcel
      unfold turnedAway
      split at parcel <;> cases parcel
      · exact pairs_of_free (giveUp_free l _ _ _)
      all_goals exact pairs_of_free rfl
  | learn waits answer => exact pairs_of_free (answered_free l _ _)
  | orphan waits silent dropped => exact pairs_of_free (giveUp_free l _ _ _)
  | timeOut waits silent registered => exact pairs_of_free (giveUp_free l _ _ _)
  | reap waits dead => exact pairs_of_free rfl
  | kill waits alive => exact pairs_of_free rfl
  | join waits ended => exact pairs_of_free rfl
  | take idle first => exact pairs.congr rfl rfl rfl rfl
  | flush done => exact pairs.congr rfl rfl rfl rfl
  | write writing more intact room => exact pairs.congr rfl rfl rfl rfl
  | breakOff writing more broken => exact pairs.congr rfl rfl rfl rfl
  | quit idle released => exact pairs.congr rfl rfl rfl rfl
  | report listens pulled => exact pairs.report _ _
  | readOn listens more pulled => exact pairs.congr rfl rfl rfl rfl
  | endOfStream listens empty closed clean => exact pairs.congr rfl rfl rfl rfl
  | cutShort listens empty closed cut => exact pairs.report _ _
  | refuse refusing place => exact pairs.congr rfl rfl rfl rfl
  | dropRefusal refusing ended => exact pairs.congr rfl rfl rfl rfl
  | server m moved =>
      obtain ⟨input, output, alive, rfl⟩ := move?_shape moved
      exact pairs.congr rfl rfl rfl rfl
  | openDocument idle path text => exact pairs_of_free (openDocument_free l path text)
  | shutdown idle =>
      -- a new request: nothing was registered before, and nothing has been read since
      simp only [Phase, idle] at phase
      simp only [Expects, idle] at expects
      rintro call id ⟨⟩
      refine ⟨by simp [History.made, Deed.isShutDown], ?_⟩
      rw [History.since_shutsDown phase.2]
      exact ⟨by rw [request, expects.1], expects.2⟩

/-! ## Before the first request -/

/-- The link to a server that has just been started, before the client makes its first request. -/
def spawned (c : Client) : Link := { client := c, caller := .idle (.ok ()) }

/-- The client has not said anything yet. -/
structure Untried (c : Client) (l : Link) : Prop where
  client_eq : l.client = c
  caller_eq : l.caller = .idle (.ok ())
  nextId_eq : l.nextId = 1
  documents_eq : l.documents = {}
  pending_eq : l.pending = []
  answer_eq : l.answer = none

theorem untried_spawned (c : Client) : (spawned c).Untried c := ⟨rfl, rfl, rfl, rfl, rfl, rfl⟩

/-- While nothing is registered, no value is an answer. -/
theorem Untried.report (untried : l.Untried c) (o : Frame.Outcome) (rest : List UInt8) :
    (l.report o rest).Untried c := by
  obtain ⟨client_eq, caller_eq, nextId_eq, documents_eq, pending_eq, answer_eq⟩ := untried
  cases o with
  | fault f => exact ⟨client_eq, caller_eq, nextId_eq, documents_eq, pending_eq, answer_eq⟩
  | value v =>
      obtain ⟨reader, events, same⟩ := hear_of_not_respondsTo (v := v) (l := { l with
        output := { l.output with bytes := rest }, reader := .listening .start })
        (by simp [pending_eq])
      rw [Link.report, same]
      exact ⟨client_eq, caller_eq, nextId_eq, documents_eq, pending_eq, answer_eq⟩

/-- Without a call to the client nobody but the server and the reader does anything that matters. -/
theorem Does.untried (does : l.Does d l') (untried : l.Untried c) (uncalled : d.isCall = false) :
    l'.Untried c := by
  have caller_eq := untried.caller_eq
  cases does
  case report => exact untried.report _ _
  case cutShort => exact untried.report _ _
  case server moved =>
    obtain ⟨input, output, alive, rfl⟩ := move?_shape moved
    exact { untried with }
  case openDocument => cases uncalled
  case shutdown => cases uncalled
  case put parcel _ => simp [parcel?, caller_eq] at parcel
  case turnAway parcel _ => simp [parcel?, caller_eq] at parcel
  case learn waits _ => cases caller_eq.symm.trans waits
  case orphan waits _ _ => cases caller_eq.symm.trans waits
  case timeOut waits _ _ => cases caller_eq.symm.trans waits
  case reap waits _ => cases caller_eq.symm.trans waits
  case kill waits _ => cases caller_eq.symm.trans waits
  case join waits _ => cases caller_eq.symm.trans waits
  all_goals exact { untried with }

/-- **A client that was not called yet has not said anything.** -/
theorem Course.untried (run : Course (spawned c) h l) (uncalled : h.IsUncalled) :
    l.Untried c := by
  induction run with
  | nil => exact untried_spawned c
  | snoc _ does ih =>
      have before := ih fun d member => uncalled d (List.mem_append_left _ member)
      exact does.untried before (uncalled _ (List.mem_append_right _ List.mem_cons_self))

theorem Untried.speech (untried : l.Untried c) : (l.request .hello).Speech c [] where
  client_eq := untried.client_eq
  phase := ⟨untried.nextId_eq, by rw [request, untried.nextId_eq], rfl⟩
  versions := by
    unfold Versions version? request
    rw [untried.documents_eq]
    exact versions_start c
  told := by
    left
    rw [owed, request, untried.nextId_eq, untried.client_eq]
    rfl

theorem Untried.expects (untried : l.Untried c) : (l.request .hello).Expects [] :=
  .inl ⟨by rw [request, untried.pending_eq], untried.answer_eq⟩

theorem Untried.pairs (untried : l.Untried c) : (l.request .hello).Pairs [] := by
  rintro call id ⟨⟩
  exact ⟨rfl, by rw [request, untried.pending_eq], untried.answer_eq⟩

/-- **In every run requests and answers are paired.** -/
theorem Course.pairs (untried : l₀.Untried c) (run : Course (l₀.request .hello) h l) :
    l.Pairs h := by
  induction run with
  | nil => exact untried.pairs
  | snoc past does ih =>
      exact does.pairs (untried.speech.course past).phase (untried.expects.course past) ih

/-! ## The end of the handshake -/

/-- The server comes up only with an answer that is no error. -/
theorem Does.isUp (does : l.Does d l') (up : l'.caller.isUp) : l.caller.isUp ∨ ∃ id body,
    l.caller = .awaiting .hello id ∧ l.answer = some body ∧ body.get? "error" = none := by
  cases does with
  | put parcel place =>
      unfold parcel? at parcel
      split at parcel <;> cases parcel <;> rename_i at_caller <;> rw [at_caller]
      · rename_i call id
        cases call
        · cases up
        · exact .inl rfl
      all_goals exact .inl rfl
  | turnAway parcel ended =>
      unfold parcel? at parcel
      unfold turnedAway at up
      split at parcel <;> cases parcel <;> rename_i at_caller <;> rw [at_caller] at up ⊢
      · rename_i call id
        cases call
        · cases up
        · exact .inl rfl
      all_goals exact .inl rfl
  | @learn call id body waits answer =>
      cases call with
      | shutdown => exact .inl (by rw [waits]; rfl)
      | hello =>
          refine .inr ⟨id, body, waits, answer, ?_⟩
          cases refused : body.get? "error" with
          | none => rfl
          | some error =>
              simp only [answered, refusalReason?, refused, Option.map_some] at up
              cases up
  | @orphan call id waits silent dropped =>
      cases call
      · cases up
      · exact .inl (by rw [waits]; rfl)
  | @timeOut call id waits silent registered =>
      cases call
      · cases up
      · exact .inl (by rw [waits]; rfl)
  | reap waits dead => exact .inl (by rw [waits]; rfl)
  | kill waits alive => exact .inl (by rw [waits]; rfl)
  | join waits ended => exact .inl (by rw [waits]; rfl)
  | report listens pulled =>
      obtain ⟨_, _, _, _, _, same⟩ := l.report_shape _ _
      rw [same] at up
      exact .inl up
  | cutShort listens empty closed cut =>
      obtain ⟨_, _, _, _, _, same⟩ := l.report_shape _ _
      rw [same] at up
      exact .inl up
  | server m moved =>
      obtain ⟨input, output, alive, rfl⟩ := move?_shape moved
      exact .inl up
  | openDocument idle path text => exact .inl (by rw [idle]; rfl)
  | shutdown idle => exact .inl (by rw [idle]; rfl)
  | _ => exact .inl up

/-- The first response to the handshake let the caller go on. -/
theorem Course.isUp (untried : l₀.Untried c) (run : Course (l₀.request .hello) h l)
    (up : l.caller.isUp) :
    ∃ body, h.values.find? (respondsTo 1) = some body ∧ body.get? "error" = none := by
  induction run with
  | nil => cases up
  | @snoc h d l l' past does ih =>
      -- what was first among the values stays first when more are read
      have found : ∃ body, h.values.find? (respondsTo 1) = some body ∧
          body.get? "error" = none := by
        rcases does.isUp up with before | ⟨id, body, waits, answer, accepted⟩
        · exact ih before
        · have phase := (untried.speech.course past).phase
          obtain ⟨-, matched⟩ := Course.pairs untried past .hello id (by rw [waits]; rfl)
          simp only [Phase, waits] at phase
          rw [phase.1] at matched
          exact ⟨body, matched.answer_eq.symm.trans answer, accepted⟩
      obtain ⟨body, first, accepted⟩ := found
      refine ⟨body, ?_, accepted⟩
      rw [History.values_snoc, List.find?_append, first]
      rfl

/-! ## Requests and answers -/

/-- **Responses are matched to requests by their ids, whatever else arrives.** Let the server have
spoken before the client made its first request, and let the client go on from there.

* The answer that the caller takes is the first response to its request among the values that were
  read since the request was registered.
* When the caller goes on without an answer, there was no such response.
* While a request is under way and no response to it has been read, it is registered, and nothing
  else is; once one has been read, it is the answer, and nothing is registered.
* While no request is under way, nothing is registered.
* The server comes up only if the first response to the first request is no error. -/
theorem answers_match_requests (heard : Course (spawned c) early l₀) (uncalled : early.IsUncalled)
    (run : Course (l₀.request .hello) h l) :
    (∀ (before : History) call id body after, h = before ++ .learns call id body :: after →
      (before.since call).values.find? (respondsTo id) = some body) ∧
    (∀ (before : History) call id f after, h = before ++ .lapses call id f :: after →
      (before.since call).values.find? (respondsTo id) = none) ∧
    (∀ call id, l.caller.request? = some (call, id) →
      match (h.since call).values.find? (respondsTo id) with
      | none => l.pending = [id] ∧ l.answer = none
      | some body => l.pending = [] ∧ l.answer = some body) ∧
    (l.caller.request? = none → l.pending = []) ∧
    (l.caller.isUp → ∃ body, h.values.find? (respondsTo 1) = some body ∧
      body.get? "error" = none) := by
  have untried := heard.untried uncalled
  refine ⟨?_, ?_, fun call id underWay => (Course.pairs untried run call id underWay).2, ?_,
    Course.isUp untried run⟩
  · rintro before call id body after cut
    obtain ⟨m, m', past, does, -⟩ := run.split cut
    cases does with
    | learn waits answer =>
        obtain ⟨-, matched⟩ := Course.pairs untried past call id (by rw [waits]; rfl)
        rw [← matched.answer_eq, answer]
  · rintro before call id f after cut
    obtain ⟨m, m', past, does, -⟩ := run.split cut
    cases does with
    | orphan waits silent dropped =>
        obtain ⟨-, matched⟩ := Course.pairs untried past call id (by rw [waits]; rfl)
        rw [← matched.answer_eq, silent]
    | timeOut waits silent registered =>
        obtain ⟨-, matched⟩ := Course.pairs untried past call id (by rw [waits]; rfl)
        rw [← matched.answer_eq, silent]
  · intro free
    rcases (untried.expects.course run).pending_cases with clear | ⟨id, -, at_caller⟩
    · exact clear
    · rcases at_caller with ⟨call, at_caller⟩ | ⟨call, at_caller⟩ <;> rw [at_caller] at free <;>
        cases free

/-- What a server says that denies a request. -/
def denial (id : Nat) : Json := .ofMembers [("id", .ofNat id), ("error", .ofMembers [])]

/-- The link to a server that was asked for the handshake. -/
def asked (pending : List Nat) (answer : Option Json) : Link :=
  { client := simpleClient
    caller := .awaiting .hello 1
    nextId := 2
    pending
    answer
    queue := [.message (.hello 1 0 "file:///")] }

/-- A server says something, and is heard at once. -/
theorem Course.says {v : Json} (run : Course l₀ h l) (alive : l.alive = true)
    (listens : l.reader = .listening .start) (quiet : l.output = {})
    (fits : (Frame.encode v).length ≤ Pipe.capacity)
    (whole : Frame.Decoder.start.pull (Frame.encode v) = .inl (.value v, [])) :
    Course l₀ (h ++ [.server (.put (Frame.encode v))] ++ [.reads (.value v)]) (l.hear v) := by
  have puts : l.move? (.put (Frame.encode v)) =
      some { l with output := { bytes := Frame.encode v } } := by
    simp [move?, alive, quiet, Pipe.room, Pipe.put, fits]
  have same : l = { l with output := {}, reader := .listening .start } := by
    rw [← quiet, ← listens]
  have heard := run
    |>.snoc (.server _ puts)
    |>.snoc (@Does.report { l with output := { bytes := Frame.encode v } } _ _ _ listens whole)
  rw [report] at heard
  rwa [same]

/-- A server denies the handshake before it is asked. When it is asked, it grants another request,
then the handshake, and denies it again. -/
theorem exists_contradictory : ∃ early h,
    Course (spawned simpleClient) early (spawned simpleClient) ∧ early.IsUncalled ∧
    early.values = [denial 1] ∧ Course (start simpleClient) h (asked [] (some (grant 1))) ∧
    h.values = [grant 2, grant 1, denial 1] := by
  have denied : Course (spawned simpleClient) _ (spawned simpleClient) :=
    Course.nil.says (v := denial 1) rfl rfl rfl (by decide) rfl
  have asks : Course (start simpleClient) _ (asked [1] none) :=
    Course.nil.snoc (@Does.put _ (.message (.hello 1 0 "file:///")) (.awaiting .hello 1) rfl
      ⟨by decide, by decide⟩)
  have astray : Course (start simpleClient) _ (asked [1] none) :=
    asks.says (v := grant 2) rfl rfl rfl (by decide) rfl
  have granted : Course (start simpleClient) _ (asked [] (some (grant 1))) :=
    astray.says (v := grant 1) rfl rfl rfl (by decide) rfl
  have deniedAgain : Course (start simpleClient) _ (asked [] (some (grant 1))) :=
    granted.says (v := denial 1) rfl rfl rfl (by decide) rfl
  exact ⟨_, _, denied, by simp [History.IsUncalled, Deed.isCall], rfl, deniedAgain, rfl⟩

/-- The caller goes on with the answer that came first. -/
theorem answers_match_requests_contradictory : ∃ early h l,
    Course (spawned simpleClient) early (spawned simpleClient) ∧ early.values = [denial 1] ∧
    Course ((spawned simpleClient).request .hello) h l ∧ l.caller.isUp ∧ l.pending = [] ∧
    h.values = [grant 2, grant 1, denial 1] ∧
    h.values.find? (respondsTo 1) = some (grant 1) := by
  obtain ⟨early, h, heard, uncalled, before, run, values⟩ := exists_contradictory
  have learns := run.snoc (@Does.learn _ .hello 1 (grant 1) rfl rfl)
  obtain ⟨first, _, _, clear, _⟩ := answers_match_requests heard uncalled learns
  have answer : h.values.find? (respondsTo 1) = some (grant 1) :=
    first h .hello 1 (grant 1) [] rfl
  refine ⟨early, _, _, heard, before, learns, rfl, clear rfl, ?_, ?_⟩
  · simp [Deed.values, values]
  · simpa [Deed.values] using answer

end Link

end Gatekeeper.Server
