import Gatekeeper.Decimal.Shortest
import Gatekeeper.Probe.Output
import Gatekeeper.Probe.Script

set_option autoImplicit false

/-!
# Verification

A candidate that exists is probed once, and its answer counts if it comes in time.
-/

namespace Gatekeeper.Probe

open Decimal Text

/-- A request to run a program. -/
structure Call where
  program : String
  args : List String
  deriving DecidableEq, Repr

/-- What a request to run a program leads to: an output, or a reason why there is none, so many
milliseconds later. -/
structure Answer where
  result : Except String Output
  delay : Nat := 0

/-- How long a verification waits by default, in seconds. -/
def defaultTimeout : Nat := 10

/-- A number of milliseconds as seconds in single precision. -/
def seconds? (ms : Nat) : Option Binary :=
  (binary32.nearest? (ms / 1000) 1).bind fun whole =>
    (binary32.nearest? (ms % 1000 * 1000000) 1).bind fun nanos =>
      (binary32.nearest? 1000000000 1).bind fun giga =>
        (binary32.div? nanos giga).bind fun part => binary32.add? whole part

/-- The decimal text of a number, never with an exponent. -/
def writeFixed (d : Digits) : List Char :=
  let digits := writeNat d.digits
  let point := digits.length + d.exponent
  if point ≤ 0 then
    if d.digits = 0 then ['0'] else "0.".toList ++ List.replicate (-point).toNat '0' ++ digits
  else
    let n := point.toNat
    if digits.length ≤ n then digits ++ List.replicate (n - digits.length) '0'
    else digits.take n ++ '.' :: digits.drop n

/-- A number of milliseconds as seconds, in the shortest decimal form of single precision. -/
def showSeconds (ms : Nat) : String :=
  match seconds? ms with
  | some x => String.ofList (writeFixed (binary32.shortest x))
  | none => "inf"

/-- The verdict on the answer to a probe. -/
def judge (answer : Answer) (timeout : Nat) (requirements : List Requirement) : Verdict :=
  if timeout < answer.delay then .failed ("probe timed out after " ++ showSeconds timeout ++ "s")
  else
    match answer.result with
    | .ok out => classify out requirements
    | .error reason => .failed ("failed to run interpreter: " ++ reason)

/-- The verdict on the candidate at `path`, with the requests that were made to run it. `occupied`
says whether there is something at the path, `run` answers a request. -/
def verify (path : String) (occupied : Bool) (run : Call → Answer) (timeout : Nat)
    (requirements : List Requirement) : Verdict × List Call :=
  if occupied then
    let call : Call := ⟨path, args requirements⟩
    (judge (run call) timeout requirements, [call])
  else (.notFound path, [])

end Gatekeeper.Probe
