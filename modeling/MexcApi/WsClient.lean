import MexcApi.Enums
import MexcApi.WsSession

/-!
# The websocket client and the requests of the stream manager

`WSClient` keeps a `weak_ptr` to its session, which can be locked as long as
some handler holds the session. The thread that runs the handlers is in
`WsThread`.
-/

namespace MexcApi

open Nlohmann

namespace Futures

structure WSSubscriptionParameters where
  symbol : String := ""
  interval : String := ""
  limit : Int := -1
  compress : Bool := false

def WSSubscriptionParameters.toJson (parameters : WSSubscriptionParameters) : Json :=
  let result := Json.set "symbol" (.str parameters.symbol) []
  let result := if parameters.compress then Json.set "compress" (.bool parameters.compress) result else result
  let result := if parameters.limit ≠ -1 then Json.set "limit" (.num (.int parameters.limit)) result else result
  let result := if parameters.interval ≠ "" then Json.set "interval" (.str parameters.interval) result else result
  .obj result

structure WSSubscription where
  method : String := ""
  parameters : WSSubscriptionParameters := {}

def WSSubscription.toJson (subscription : WSSubscription) : Json :=
  .obj (Json.set "param" subscription.parameters.toJson (Json.set "method" (.str subscription.method) []))

/-- The client; `session` is what `m_session` was last set to. -/
structure WSClient where
  session : Option Session := none

namespace WSClient

/-- `m_session.lock()`. -/
def lock (c : WSClient) : Option Session := c.session.filter Session.alive

def subscribe (c : WSClient) (subscriptionRequest : Json) : Except Fault WSClient :=
  match c.lock with
  | some session => do return { session := some (← session.writeSubscription subscriptionRequest) }
  | none => do return { session := some (← ({} : Session).run subscriptionRequest) }

def isSubscribed (c : WSClient) (subscriptionRequest : Json) : Bool :=
  match c.lock with
  | some session => session.isSubscribed subscriptionRequest
  | none => false

inductive Event where
  | subscribe (subscriptionRequest : Json)
  | session (e : Session.Event)

/-- An exception of `subscribe` goes to its caller. -/
def step (c : WSClient) : Event → Option WSClient
  | .subscribe subscriptionRequest =>
    match c.subscribe subscriptionRequest with
    | .ok c' => some c'
    | .error _ => some c
  | .session e =>
    match c.session with
    | some session => (session.step e).map fun session' => { session := some session' }
    | none => none

end WSClient

/-! ## The stream manager -/

namespace WSStreamManager

def tickerSubscription (pair : String) : WSSubscription :=
  { method := "sub.ticker", parameters := { symbol := pair } }

def candlestickSubscription (pair : String) (interval : CandleInterval) : WSSubscription :=
  { method := "sub.kline", parameters := { symbol := pair, interval := interval.enumName } }

def subscribeTickerStream (wsClient : WSClient) (pair : String) : Except Fault WSClient :=
  let subscriptionRequest := (tickerSubscription pair).toJson
  if !wsClient.isSubscribed subscriptionRequest then wsClient.subscribe subscriptionRequest
  else .ok wsClient

def subscribeCandlestickStream (wsClient : WSClient) (pair : String) (interval : CandleInterval) :
    Except Fault WSClient :=
  let subscriptionRequest := (candlestickSubscription pair interval).toJson
  if !wsClient.isSubscribed subscriptionRequest then wsClient.subscribe subscriptionRequest
  else .ok wsClient

end WSStreamManager

end Futures

end MexcApi
