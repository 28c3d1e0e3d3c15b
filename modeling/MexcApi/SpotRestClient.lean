import MexcApi.Loop
import MexcApi.Models

/-!
# The spot history download

`RESTClient::getHistoricalPrices` of the spot client with the request function
it calls. The exchange answers each request with an HTTP reply, which may
depend on how many requests came before.
-/

namespace MexcApi

open Nlohmann

namespace Spot

/-- The query of a klines request; an absent parameter is not sent. -/
structure KlineRequest where
  symbol : String
  interval : String
  startTime : Option Int
  endTime : Int
  limit : Option Nat

abbrev KlineServer := Nat → KlineRequest → Except Fault HttpResponse

namespace RESTClient

section
variable (U : JsonUtils)

def P.getHistoricalPrices (methodGet : KlineRequest → Except Fault HttpResponse) (symbol : String)
    (interval : CandleInterval) (startTime endTime : Int) (limit : Nat) : Except Fault (List Candle) := do
  let response ← checkResponse (← methodGet {
    symbol
    interval := interval.candleIntervalToSpotString
    startTime := if startTime > 0 then some startTime else none
    endTime
    limit := if limit ≠ 500 then some limit else none })
  let responseJson ← response.parse
  responseJson.elements.mapM (Candle.fromJson U)

/-- The local variables of the download. `written` is what the writer got,
`requests` counts the requests made. -/
structure History where
  currentEndTime : Int
  candles : List Candle
  retVal : List Candle
  written : List (List Candle)
  requests : Nat

variable (server : KlineServer) (symbol : String) (interval : CandleInterval) (startTime : Int) (limit : Nat)

def start (endTime : Int) : Except Fault History := do
  let intervalMs := interval.numberOfMsForCandleInterval
  if startTime ≤ endTime then
    let rangeMs := endTime - startTime
    let maxRangeForFirstCall := limit * intervalMs
    if rangeMs > maxRangeForFirstCall then
      let candles ← P.getHistoricalPrices U (server 0) symbol interval 0 endTime limit
      return { currentEndTime := endTime, candles, retVal := [], written := [], requests := 1 }
    else
      let candles ← P.getHistoricalPrices U (server 0) symbol interval startTime endTime limit
      return { currentEndTime := endTime, candles, retVal := [], written := [], requests := 1 }
  else
    return { currentEndTime := endTime, candles := [], retVal := [], written := [], requests := 0 }

def batch (s : History) : Except Fault (Loop.Flow History History) :=
  match s.candles with
  | [] => .ok (.stop s)
  | oldest :: _ => do
    let intervalMs := interval.numberOfMsForCandleInterval
    let oldestTimestamp := oldest.openTime
    let written := s.written ++ [s.candles]
    let retVal := s.candles ++ s.retVal
    let currentEndTime := oldestTimestamp - intervalMs
    if startTime ≤ currentEndTime then
      let batchStartTime := max startTime (currentEndTime - limit * intervalMs)
      let candles ← P.getHistoricalPrices U (server s.requests) symbol interval batchStartTime currentEndTime limit
      return .next { currentEndTime, candles, retVal, written, requests := s.requests + 1 }
    else
      return .next { currentEndTime, candles := [], retVal, written, requests := s.requests }

/-- The download with at most `fuel` rounds of the loop. -/
def download (endTime : Int) (fuel : Nat) : Option (Except Fault History) :=
  match start U server symbol interval startTime limit endTime with
  | .ok s => Loop.run (batch U server symbol interval startTime limit) fuel s
  | .error e => some (.error e)

end

def limit : Nat := 1000

def getHistoricalPrices (U : JsonUtils) (server : KlineServer) (symbol : String) (interval : CandleInterval)
    (startTime endTime : Int) (fuel : Nat) : Option (Except Fault History) :=
  download U server symbol interval startTime limit endTime fuel

end RESTClient

end Spot

end MexcApi
