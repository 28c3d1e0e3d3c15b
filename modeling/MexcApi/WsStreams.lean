import MexcApi.WsClient
import MexcApi.WsStreamManager

/-!
# The stream manager and its client

`WSStreamManager::P` owns the websocket client and the caches its callback
fills. One state for all of it, one step for a call and for a handler of the
session; `onRead` calls the callback with what `Event::fromJson` makes of a
message that is not for the session itself.
-/

namespace MexcApi

open Nlohmann

namespace Futures

/-- What `onRead` decodes for the callback. -/
def ReadResult.dataEvent (U : JsonUtils) : ReadResult → Option (Except Fault Event)
  | .text (some json) =>
    if json.isObject then
      match Session.isApiControlMsg json with
      | .ok false => some (Event.fromJson U json)
      | _ => none
    else none
  | _ => none

def Session.Event.dataEvent (U : JsonUtils) : Session.Event → Option (Except Fault Futures.Event)
  | .read result => result.dataEvent U
  | _ => none

/-- What the handlers do. The stream manager does not close a session, and
subscribes by its own functions only. -/
def Session.Event.isHandler : Session.Event → Bool
  | .subscribe _ | .close => false
  | _ => true

namespace WSStreamManager

structure P where
  wsClient : WSClient := {}
  caches : Caches := {}

namespace P

inductive Event where
  | subscribeTickerStream (pair : String)
  | subscribeCandlestickStream (pair : String) (interval : CandleInterval)
  | session (e : Session.Event)

/-- The read of a message, with its callback. What `fromJson` throws is caught;
where it is undefined the run does not go on. -/
def deliver (U : EventUtils) (m : P) : Option (Except Fault Futures.Event) → Option P
  | some (.ok event) => some { m with caches := onDataEvent U m.caches event }
  | some (.error .undefined) => none
  | some (.error _) => some m
  | none => some m

/-- An exception of a subscription goes to its caller. -/
def step (U : EventUtils) (m : P) : Event → Option P
  | .subscribeTickerStream pair =>
    match WSStreamManager.subscribeTickerStream m.wsClient pair with
    | .ok wsClient => some { m with wsClient }
    | .error _ => some m
  | .subscribeCandlestickStream pair interval =>
    match WSStreamManager.subscribeCandlestickStream m.wsClient pair interval with
    | .ok wsClient => some { m with wsClient }
    | .error _ => some m
  | .session e =>
    if e.isHandler then
      match m.wsClient.step (.session e) with
      | some wsClient => { m with wsClient }.deliver U (e.dataEvent U.toJsonUtils)
      | none => none
    else none

end P

end WSStreamManager

end Futures

end MexcApi
