import Gatekeeper.Server.Event

set_option autoImplicit false

/-!
# What client and server say to each other

The messages that the client sends, as JSON values, and those from the server that it takes notice
of. Requests have an id, notifications have none, and a response carries the id of its request.
-/

namespace Gatekeeper.Server

/-- A message from the client. -/
inductive Outgoing
  | hello (id process : Nat) (root : String)
  | initialized
  /-- A document is shown for the first time. -/
  | opened (uri language : String) (version : Nat) (text : String)
  /-- A document is shown again, with its full text. -/
  | changed (uri : String) (version : Nat) (text : String)
  | shutdown (id : Nat)
  | exit
  /-- The answer to a request of the server: the client serves none. -/
  | refusal (id : Json) (method : String)
  deriving Repr

/-- The name under which the client makes itself known. -/
def clientName : String := "spacyls"

/-- The version of the client. -/
def clientVersion : String := "0.1.0"

/-- The code of the error that a method is not known. -/
def methodNotFound : Int := -32601

namespace Outgoing

/-- A message with the given members. -/
def message (members : List (String × Json)) : Json :=
  .ofMembers (("jsonrpc", .string "2.0") :: members)

/-- A notification. -/
def notification (method : String) (params : Option Json) : Json :=
  message (("method", .string method) :: (params.map (Prod.mk "params")).toList)

/-- A request. -/
def request (id : Nat) (method : String) (params : Option Json) : Json :=
  message
    (("id", .ofNat id) :: ("method", .string method) :: (params.map (Prod.mk "params")).toList)

/-- What the client can do. -/
def capabilities : Json :=
  .ofMembers [
    ("textDocument", .ofMembers [
      ("synchronization", .ofMembers [
        ("dynamicRegistration", .bool false), ("didSave", .bool false)]),
      ("hover", .ofMembers [
        ("contentFormat", .array [.string "markdown", .string "plaintext"])])]),
    ("window", .ofMembers [("showMessage", .ofMembers [])])]

/-- The parameters of the first request. -/
def greeting (process : Nat) (root : String) : Json :=
  .ofMembers [
    ("processId", .ofNat process),
    ("clientInfo", .ofMembers [
      ("name", .string clientName), ("version", .string clientVersion)]),
    ("rootUri", .string root),
    ("capabilities", capabilities),
    ("workspaceFolders", .array [
      .ofMembers [("uri", .string root), ("name", .string "workspace")]])]

/-- The JSON value of a message. -/
def toJson : Outgoing → Json
  | .hello id process root => request id "initialize" (some (greeting process root))
  | initialized => notification "initialized" (some (.ofMembers []))
  | opened uri language version text =>
    notification "textDocument/didOpen" (some (.ofMembers [
      ("textDocument", .ofMembers [
        ("uri", .string uri), ("languageId", .string language), ("version", .ofNat version),
        ("text", .string text)])]))
  | changed uri version text =>
    notification "textDocument/didChange" (some (.ofMembers [
      ("textDocument", .ofMembers [("uri", .string uri), ("version", .ofNat version)]),
      ("contentChanges", .array [.ofMembers [("text", .string text)]])]))
  | shutdown id => request id "shutdown" none
  | exit => notification "exit" none
  | refusal id method =>
    message [
      ("id", id),
      ("error", .ofMembers [
        ("code", .number (.whole methodNotFound)),
        ("message", .string ("Method not found: " ++ method))])]

/-- The bytes of a message. -/
def bytes (m : Outgoing) : List UInt8 := Frame.encode m.toJson

end Outgoing

/-- A message from the server of which the client takes notice. -/
inductive Incoming
  | response (id : Nat) (body : Json)
  | request (id : Json) (method : String)
  /-- A message for the user if `shown`, and for the log otherwise. -/
  | message (shown : Bool) (kind : MessageKind) (text : String)
  deriving Repr

namespace Incoming

/-- The kind and the text of a message, from its parameters. They are an object or an array of both.
A number that stands for no kind is taken for the log. -/
def readMessage? (params : Json) : Option (MessageKind × String) :=
  let fields := match params with
    | .array [kind, text] => some (kind, text)
    | .object _ => (params.get? "type").bind fun kind => (params.get? "message").map (Prod.mk kind)
    | _ => none
  fields.bind fun (kind, text) =>
    kind.nat?.bind fun kind =>
      text.text?.map fun text => ((MessageKind.ofNat? kind).getD .log, text)

/-- Whether the messages of a method are for the user; none for any other method. -/
def shows? (method : String) : Option Bool :=
  if method == "window/showMessage" then some true
  else if method == "window/logMessage" then some false
  else none

/-- What a JSON value from the server says. -/
def ofJson? (v : Json) : Option Incoming :=
  match v.get? "id", (v.get? "method").bind Json.text? with
  | some id, some method => some (request id method)
  | some id, none =>
    if (v.get? "result").isSome || (v.get? "error").isSome then
      id.nat?.map fun id => response id v
    else none
  | none, some method =>
    (shows? method).bind fun shown =>
      (v.get? "params").bind fun params =>
        (readMessage? params).map fun (kind, text) => message shown kind text
  | none, none => none

end Incoming

/-- The reason that an error response gives, if the response is one. -/
def refusalReason? (response : Json) : Option String :=
  (response.get? "error").map fun error =>
    ((error.get? "message").bind Json.text?).getD "unknown error"

end Gatekeeper.Server
