import MexcApi.WsShapeSound
import MexcApi.WsStreams

/-!
# From a session to the wire

A request is written from a string that is destroyed when the handler that
starts the write is left. The stream masks what a client sends: when the write
begins it copies the text into its own buffer, as far as that goes. While a ping
or a close is being written the write does not begin, and when it does the
string is gone.
-/

namespace MexcApi

open Nlohmann

namespace Futures

namespace Session

/-- The step applies the const `operator[]` to a missing key. -/
def unchecked (U : JsonUtils) (s : Session) : Event → Bool
  | .subscribe subscriptionRequest =>
    match compareAll subscriptionRequest s.subscriptions with
    | .error .undefined => true
    | _ => false
  | .read result =>
    match result.dataEvent U with
    | some (.error .undefined) => true
    | _ => false
  | _ => false

def Event.isPinged : Event → Bool
  | .pinged => true
  | _ => false

/-- The text of the write that a step starts, where `none` is the empty one. -/
def payload (s : Session) : Event → Option (Option Json)
  | .handshaken true => some s.subscriptionRequests.head?
  | .readNext => s.subscriptionRequests.head?.map some
  | _ => none

theorem written_payload {s s' : Session} {e : Event} (hs : s.step e = some s') :
    s'.written = s.written ++ (s.payload e).toList := by
  by_cases hhs : e = .handshaken true
  · obtain ⟨-, -, rfl⟩ := step_some hs
    subst hhs
    simp only [next, onHandshake, ite_true, readSubscription, payload]
    cases s.subscriptionRequests <;> rfl
  · by_cases hnext : e = .readNext
    · obtain ⟨-, -, rfl⟩ := step_some hs
      subst hnext
      simp only [next, onReadNext, readSubscription, payload]
      cases s.subscriptionRequests with
      | nil => exact (List.append_nil _).symm
      | cons r queue => rfl
    · have hnone : s.payload e = none := by
        cases e with
        | handshaken ok =>
          cases ok with
          | false => rfl
          | true => exact absurd rfl hhs
        | readNext => exact absurd rfl hnext
        | _ => rfl
      rw [(written_other hs hnext hhs).2, hnone]
      exact (List.append_nil _).symm

end Session

/-! ## The stream under the session -/

/-- What a write has put on the wire. -/
inductive Sent where
  | text (payload : Option Json)
  /-- Nothing, or what was found where the string had been. -/
  | gone

structure Wire where
  session : Session
  /-- The pings that have not been written out. -/
  pinging : Nat := 0
  sent : List Sent := []
  /-- There was an access to a missing key; of such a run nothing is known. -/
  undefined : Bool := false

namespace Wire

inductive Event where
  | session (e : Session.Event)
  /-- A ping has been written out. -/
  | pingWritten

/-- The write buffer of a stream, in bytes. -/
def writeBufferSize : Nat := 4096

section
variable (U : JsonUtils) (dump : Json → String)

/-- A write that begins at once and reads its whole text. An `async_close` ends
all sending. -/
def direct (c : Wire) (payload : Option Json) : Bool :=
  c.pinging = 0 && !c.session.closing && ((payload.map dump).getD "").utf8ByteSize ≤ writeBufferSize

def send (c : Wire) (payload : Option Json) : Sent := if c.direct dump payload then .text payload else .gone

def step (c : Wire) : Event → Option Wire
  | .session e =>
    -- the handler of a ping comes after the ping
    if e.isPinged && c.session.ping ≤ c.pinging then none
    else (c.session.step e).map fun session => {
      session
      pinging := c.pinging + (session.ping - c.session.ping)
      sent := c.sent ++ (c.session.payload e).toList.map (c.send dump)
      undefined := c.undefined || c.session.unchecked U e }
  | .pingWritten => if 0 < c.pinging then some { c with pinging := c.pinging - 1 } else none

end

def start (subscriptionRequest : Json) : Wire := { session := .start subscriptionRequest }

end Wire

end Futures

end MexcApi
