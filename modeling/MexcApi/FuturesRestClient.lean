import MexcApi.Loop
import MexcApi.Models

/-!
# The futures history download

`RESTClient::getHistoricalPrices` of the futures client, the pages of the
funding rate history, and the request functions of both. Times of the requests
are seconds, those of the candles milliseconds.
-/

namespace MexcApi

open Nlohmann

namespace Futures

structure KlineRequest where
  symbol : String
  interval : String
  start : Int
  «end» : Int

abbrev KlineServer := Nat → KlineRequest → Except Fault HttpResponse

namespace RESTClient

section
variable (U : JsonUtils)

def P.getHistoricalPrices (methodGet : KlineRequest → Except Fault HttpResponse) (symbol : String)
    (interval : CandleInterval) (startTime endTime : Int) : Except Fault (List Candle) := do
  let response ← checkResponse (← methodGet { symbol, interval := interval.enumName, start := startTime, «end» := endTime })
  let candles ← handleMEXCResponse (Candles.fromJson U) Candles.toResponse response
  return candles.candles

/-- The local variables of the download. `written` is what the writer got,
`requests` counts the requests made. -/
structure History where
  currentEndTime : Int
  candles : List Candle
  retVal : List Candle
  written : List (List Candle)
  requests : Nat

variable (server : KlineServer) (symbol : String) (interval : CandleInterval) (startTime : Int)

def start (endTime : Int) : Except Fault History := do
  if startTime < endTime then
    let candles ← P.getHistoricalPrices U (server 0) symbol interval startTime endTime
    return { currentEndTime := endTime, candles, retVal := [], written := [], requests := 1 }
  else
    return { currentEndTime := endTime, candles := [], retVal := [], written := [], requests := 0 }

/-- One round of the loop. After it the newest candle is removed. -/
def batch (s : History) : Except Fault (Loop.Flow History History) :=
  match s.candles with
  | [] => .ok (.stop { s with retVal := s.retVal.dropLast })
  | oldest :: _ => do
    let oldestTimestamp := oldest.openTime
    let written := s.written ++ [s.candles]
    let retVal := s.candles ++ s.retVal
    let currentEndTime := oldestTimestamp.tdiv 1000 - 1
    if startTime < currentEndTime then
      let candles ← P.getHistoricalPrices U (server s.requests) symbol interval startTime currentEndTime
      return .next { currentEndTime, candles, retVal, written, requests := s.requests + 1 }
    else
      return .next { currentEndTime, candles := [], retVal, written, requests := s.requests }

/-- The download with at most `fuel` rounds of the loop. -/
def getHistoricalPrices (endTime : Int) (fuel : Nat) : Option (Except Fault History) :=
  match start U server symbol interval startTime endTime with
  | .ok s => Loop.run (batch U server symbol interval startTime) fuel s
  | .error e => some (.error e)

end

end RESTClient

/-! ## Funding rates -/

structure FundingRateRequest where
  symbol : String
  pageNum : Int
  pageSize : Int

def RESTClient.getContractFundingRateHistory (U : JsonUtils)
    (methodGet : FundingRateRequest → Except Fault HttpResponse) (symbol : String) (pageNum pageSize : Int) :
    Except Fault HistoricalFundingRates := do
  let response ← checkResponse (← methodGet { symbol, pageNum, pageSize })
  handleMEXCResponse (HistoricalFundingRates.fromJson U) HistoricalFundingRates.toResponse response

end Futures

end MexcApi
