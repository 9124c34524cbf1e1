import Gatekeeper.Proofs.Server.Course

set_option autoImplicit false

/-!
# What a value from the server calls for

A value with an id and a method is a request, and is refused (`request?`). One with a method and
without an id may be a message for the host (`announcement?`). One with an id, and with a result or
an error in place of a method, is a response (`respondsTo`). No value is two of these, and what the
reader does with a value follows from what it is (`Link.hear_reader`, `Link.hear_events`,
`Link.hear_of_respondsTo`).
-/

namespace Gatekeeper.Server

namespace Incoming

/-- The method that a value names. -/
def method? (v : Json) : Option String := (v.get? "method").bind Json.text?

/-- The id and the method of a request. -/
def request? (v : Json) : Option (Json × String) :=
  (v.get? "id").bind fun id => (method? v).map fun method => (id, method)

/-- The event for the host that a value leads to in the session: a message for the user or for the
log, with parameters that can be read. -/
def announcement? (session : Session.Id) (v : Json) : Option Event :=
  if (v.get? "id").isSome then none
  else if method? v = some "window/showMessage" then
    ((v.get? "params").bind readMessage?).map fun m => .show session m.1 m.2
  else if method? v = some "window/logMessage" then
    ((v.get? "params").bind readMessage?).map fun m => .log session m.1 m.2
  else none

/-- Whether a value is a response to the request with the id. -/
def respondsTo (id : Nat) (v : Json) : Bool :=
  (v.get? "id").bind Json.nat? = some id ∧ method? v = none ∧
    ((v.get? "result").isSome ∨ (v.get? "error").isSome)

variable {v : Json} {session : Session.Id}

/-- A request is no message for the host. -/
theorem announcement?_of_request? {id : Json} {method : String}
    (request : request? v = some (id, method)) : announcement? session v = none := by
  obtain ⟨_, named, _⟩ := Option.bind_eq_some_iff.mp request
  rw [announcement?, named, Option.isSome_some, if_pos rfl]

/-- A response is no request. -/
theorem request?_of_respondsTo {id : Nat} (responds : respondsTo id v) : request? v = none := by
  simp only [respondsTo, decide_eq_true_eq] at responds
  rw [request?, responds.2.1]
  cases v.get? "id" <;> rfl

/-- A response is no message for the host. -/
theorem announcement?_of_respondsTo {id : Nat} (responds : respondsTo id v) :
    announcement? session v = none := by
  simp only [respondsTo, decide_eq_true_eq] at responds
  cases named : v.get? "id" with
  | none => simp [named] at responds
  | some _ => rw [announcement?, named, Option.isSome_some, if_pos rfl]

/-! ## The client's reading -/

/-- The client takes a response for one. -/
theorem ofJson?_of_respondsTo {id : Nat} (responds : respondsTo id v) :
    ofJson? v = some (.response id v) := by
  simp only [respondsTo, decide_eq_true_eq] at responds
  obtain ⟨named, calls, answers⟩ := responds
  obtain ⟨name, given, number⟩ := Option.bind_eq_some_iff.mp named
  rw [method?] at calls
  simp [ofJson?, given, calls, answers, number]

/-- The four ways in which the client can take a value. -/
inductive Reading (v : Json) : Prop
  | request {id : Json} {method : String} (reading : ofJson? v = some (.request id method))
      (isRequest : request? v = some (id, method))
  | response {id : Nat} (reading : ofJson? v = some (.response id v)) (responds : respondsTo id v)
  | message {shown : Bool} {kind : MessageKind} {text : String}
      (reading : ofJson? v = some (.message shown kind text))
      (announces : ∀ session, announcement? session v =
        some (if shown then .show session kind text else .log session kind text))
  | other (reading : ofJson? v = none) (isNoRequest : request? v = none)
      (silent : ∀ session, announcement? session v = none)

variable {method : String}

theorem reading_of_request {id : Json} (named : v.get? "id" = some id)
    (calls : method? v = some method) : Reading v := by
  have isRequest : request? v = some (id, method) := by
    rw [request?, named, calls]
    rfl
  rw [method?] at calls
  exact .request (by rw [ofJson?, named, calls]) isRequest

theorem reading_of_id {id : Json} (named : v.get? "id" = some id) (calls : method? v = none) :
    Reading v := by
  have isNoRequest : request? v = none := by
    rw [request?, named, calls]
    rfl
  have silent : ∀ session, announcement? session v = none := fun session => by
    rw [announcement?, named, Option.isSome_some, if_pos rfl]
  have taken := calls
  rw [method?] at taken
  by_cases answers : (v.get? "result").isSome ∨ (v.get? "error").isSome
  · cases number : id.nat? with
    | some n =>
        have responds : respondsTo n v := by simp [respondsTo, named, calls, answers, number]
        exact .response (ofJson?_of_respondsTo responds) responds
    | none => exact .other (by simp [ofJson?, named, taken, number]) isNoRequest silent
  · exact .other (by simp [ofJson?, named, taken, answers]) isNoRequest silent

theorem reading_of_notification (unnamed : v.get? "id" = none) (calls : method? v = some method) :
    Reading v := by
  have isNoRequest : request? v = none := by
    rw [request?, unnamed]
    rfl
  have taken : ofJson? v = (shows? method).bind fun shown =>
      ((v.get? "params").bind readMessage?).map fun m => .message shown m.1 m.2 := by
    rw [method?] at calls
    simp only [ofJson?, unnamed, calls, Option.map_bind]
    rfl
  by_cases shown : method = "window/showMessage"
  · have announced : ∀ session, announcement? session v =
        ((v.get? "params").bind readMessage?).map fun m => .show session m.1 m.2 := by
      simp [announcement?, unnamed, calls, shown]
    cases told : (v.get? "params").bind readMessage? with
    | none => exact .other (by simp [taken, told]) isNoRequest (by simp [announced, told])
    | some m =>
        have reading : ofJson? v = some (.message true m.1 m.2) := by
          simp [taken, told, shown, shows?]
        exact .message reading (by simp [announced, told])
  · by_cases logged : method = "window/logMessage"
    · have announced : ∀ session, announcement? session v =
          ((v.get? "params").bind readMessage?).map fun m => .log session m.1 m.2 := by
        simp [announcement?, unnamed, calls, logged]
      cases told : (v.get? "params").bind readMessage? with
      | none => exact .other (by simp [taken, told]) isNoRequest (by simp [announced, told])
      | some m =>
          have reading : ofJson? v = some (.message false m.1 m.2) := by
            simp [taken, told, logged, shows?]
          exact .message reading (by simp [announced, told])
    · exact .other (by simp [taken, shows?, shown, logged]) isNoRequest
        (by simp [announcement?, calls, shown, logged])

/-- **The client takes a value for what it is.** -/
theorem reading (v : Json) : Reading v := by
  cases named : v.get? "id" with
  | some id =>
      cases calls : method? v with
      | some method => exact reading_of_request named calls
      | none => exact reading_of_id named calls
  | none =>
      cases calls : method? v with
      | some method => exact reading_of_notification named calls
      | none =>
          have silent : ∀ session, announcement? session v = none := by simp [announcement?, calls]
          have isNoRequest : request? v = none := by
            rw [request?, named]
            rfl
          rw [method?] at calls
          exact .other (by rw [ofJson?, named, calls]) isNoRequest silent

end Incoming

end Gatekeeper.Server
