import MexcApi.WsQueueSound
import MexcApi.WsWire

/-!
# When the requests arrive

What is written is what was taken from the queue, in order, as long as every
write begins in its handler. A write that has to wait loses its request.
-/

namespace MexcApi

open Nlohmann

namespace Futures

namespace Wire

/-- What is on the wire and what is still queued are the accepted requests, in order. -/
structure InOrder (c : Wire) : Prop where
  known : c.undefined = false
  sequence : c.sent ++ c.session.subscriptionRequests.map (.text ∘ some) = c.session.accepted.map (.text ∘ some)
  payload : .text none ∉ c.sent

section
variable (U : JsonUtils) (dump : Json → String)

/-- The step accesses no missing key, and its write does not have to wait. -/
def Direct (c : Wire) : Event → Prop
  | .session e => c.session.unchecked U e = false ∧ ∀ payload ∈ c.session.payload e, c.direct dump payload = true
  | .pingWritten => True

variable {U dump}

theorem step_session {c c' : Wire} {e : Session.Event} (h : c.step U dump (.session e) = some c') :
    ∃ session, c.session.step e = some session ∧ c' = {
      session
      pinging := c.pinging + (session.ping - c.session.ping)
      sent := c.sent ++ (c.session.payload e).toList.map (c.send dump)
      undefined := c.undefined || c.session.unchecked U e } := by
  simp only [step] at h
  split at h
  · cases h
  · obtain ⟨session, hs, rfl⟩ := Option.map_eq_some_iff.mp h
    exact ⟨session, hs, rfl⟩

theorem step_pingWritten {c c' : Wire} (h : c.step U dump .pingWritten = some c') :
    c' = { c with pinging := c.pinging - 1 } := by
  simp only [step] at h
  split at h
  · cases h
    rfl
  · cases h

/-- Everything written so far has arrived. -/
structure Inv (c : Wire) : Prop where
  known : c.undefined = false
  queued : c.session.Queued
  arrived : c.sent = c.session.written.map .text

theorem inv_start (r : Json) : (start r).Inv := ⟨rfl, Session.queued_start r, rfl⟩

theorem inv_step (c : Wire) (e : Event) (c' : Wire) (h : c.Inv) (hok : c.Direct U dump e)
    (hs : c.step U dump e = some c') : c'.Inv := by
  cases e with
  | pingWritten =>
    rw [step_pingWritten hs]
    exact ⟨h.known, h.queued, h.arrived⟩
  | session e =>
    obtain ⟨session, hstep, rfl⟩ := step_session hs
    obtain ⟨hchecked, hdirect⟩ := hok
    refine ⟨by rw [h.known, hchecked]; rfl, Session.queued_step _ _ _ h.queued hstep, ?_⟩
    have hsend : (c.session.payload e).toList.map (c.send dump) = (c.session.payload e).toList.map .text := by
      apply List.map_congr_left
      intro payload hpayload
      exact if_pos (hdirect payload (Option.mem_toList.mp hpayload))
    rw [Session.written_payload hstep, List.map_append, ← h.arrived, ← hsend]

end

def eth : Json := (WSStreamManager.tickerSubscription "ETH_USDT").toJson

def kline : Json := (WSStreamManager.candlestickSubscription "ETH_USDT" ._1m).toJson

end Wire

end Futures

end MexcApi
