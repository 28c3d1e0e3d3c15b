import Mathlib.Logic.Function.Basic
import MexcApi.EventModels
import MexcApi.WsSession

/-!
# The caches of the stream manager

`WSStreamManager::P` sets a callback that keeps the last ticker of each symbol
and the last candlestick of each symbol and interval. What it catches it logs.
The read functions poll the caches every 3 ms.
-/

namespace MexcApi

open Nlohmann

namespace Futures

namespace WSStreamManager

structure Caches where
  tickers : String → Option EventTicker := fun _ => none
  candlesticks : String → Option (CandleInterval → Option EventCandlestick) := fun _ => none

/-- `candlesticks[symbol][interval]`, when both are there. -/
def Caches.candlestick (m : Caches) (symbol : String) (interval : CandleInterval) : Option EventCandlestick :=
  (m.candlesticks symbol).bind fun it => it interval

def onTicker (U : JsonUtils) (m : Caches) (event : Event) : Caches :=
  match m.tickers event.symbol with
  | none =>
    match EventTicker.fromJson U event.data {} with
    | (.ok (), eventTicker) => { m with tickers := Function.update m.tickers eventTicker.symbol (some eventTicker) }
    | (.error _, _) => m
  | some ticker =>
    -- after an exception the fields read before it have their new values
    let (_, ticker') := EventTicker.fromJson U event.data ticker
    { m with tickers := Function.update m.tickers event.symbol (some ticker') }

def onCandlestick (U : EventUtils) (m : Caches) (event : Event) : Caches :=
  match EventCandlestick.fromJson U event.data with
  | .ok eventCandlestick =>
    let it := (m.candlesticks event.symbol).getD fun _ => none
    let it := Function.update it eventCandlestick.interval (some eventCandlestick)
    { m with candlesticks := Function.update m.candlesticks event.symbol (some it) }
  | .error _ => m

def isTicker (event : Event) : Bool := Session.findText "push.ticker".toList event.channel.toList

def isKline (event : Event) : Bool := !isTicker event && Session.findText "push.kline".toList event.channel.toList

def onDataEvent (U : EventUtils) (m : Caches) (event : Event) : Caches :=
  if isTicker event then onTicker U.toJsonUtils m event
  else if isKline event then onCandlestick U m event
  else m

/-! ## Reading the caches -/

/-- The loop of both `readEvent` functions, from `numTries` on with `left` tries
to go: what `find` has found, and the number of sleeps. `timeout 0` is the value
at the call, `timeout (n + 1)` the one in try `n`. -/
def poll {α : Type} (timeout : Nat → Int) (find : Nat → Option α) : Nat → Nat → Option α × Nat
  | 0, numTries => (none, numTries)
  | left + 1, numTries =>
    if timeout (numTries + 1) = 0 then (none, numTries)
    else
      match find numTries with
      | some retVal => (some retVal, numTries)
      | none => poll timeout find left (numTries + 1)

/-- The bound `timeout / 0.01` is exact for an integer. -/
def maxNumTries (timeout : Nat → Int) : Int := 100 * timeout 0

/-- `caches n` are the caches in try `n`. -/
def readEventTicker (timeout : Nat → Int) (caches : Nat → Caches) (pair : String) : Option EventTicker × Nat :=
  poll timeout (fun n => (caches n).tickers pair) (maxNumTries timeout + 1).toNat 0

def readEventCandlestick (timeout : Nat → Int) (caches : Nat → Caches) (pair : String) (interval : CandleInterval) :
    Option EventCandlestick × Nat :=
  poll timeout (fun n => (caches n).candlestick pair interval) (maxNumTries timeout + 1).toNat 0

end WSStreamManager

end Futures

end MexcApi
