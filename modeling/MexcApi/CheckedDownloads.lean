import MexcApi.Checked
import MexcApi.FuturesRestClient
import MexcApi.SpotRestClient

/-!
# The history downloads with checked time arithmetic

The functions that compute with times, with every sum, difference and product
checked. A comparison and a division by 1000 have no check to make.
-/

namespace MexcApi

open Nlohmann Checked

/-! ## The spot client -/

namespace Spot.RESTClient.Checked

section
variable (U : JsonUtils) (server : KlineServer) (symbol : String) (interval : CandleInterval) (startTime : Int)

def start (endTime : Int) : Except (Trap Fault) History := do
  let intervalMs := interval.numberOfMsForCandleInterval
  if startTime ≤ endTime then
    let rangeMs ← int64 (endTime - startTime)
    let maxRangeForFirstCall ← int64 (limit * intervalMs)
    if rangeMs > maxRangeForFirstCall then
      let candles ← raise (P.getHistoricalPrices U (server 0) symbol interval 0 endTime limit)
      return { currentEndTime := endTime, candles, retVal := [], written := [], requests := 1 }
    else
      let candles ← raise (P.getHistoricalPrices U (server 0) symbol interval startTime endTime limit)
      return { currentEndTime := endTime, candles, retVal := [], written := [], requests := 1 }
  else
    return { currentEndTime := endTime, candles := [], retVal := [], written := [], requests := 0 }

def batch (s : History) : Except (Trap Fault) (Loop.Flow History History) :=
  match s.candles with
  | [] => .ok (.stop s)
  | oldest :: _ => do
    let intervalMs := interval.numberOfMsForCandleInterval
    let oldestTimestamp := oldest.openTime
    let written := s.written ++ [s.candles]
    let retVal := s.candles ++ s.retVal
    let currentEndTime ← int64 (oldestTimestamp - intervalMs)
    if startTime ≤ currentEndTime then
      let windowMs ← int64 (limit * intervalMs)
      let windowStart ← int64 (currentEndTime - windowMs)
      let batchStartTime := max startTime windowStart
      let candles ← raise (P.getHistoricalPrices U (server s.requests) symbol interval batchStartTime currentEndTime limit)
      return .next { currentEndTime, candles, retVal, written, requests := s.requests + 1 }
    else
      return .next { currentEndTime, candles := [], retVal, written, requests := s.requests }

def getHistoricalPrices (endTime : Int) (fuel : Nat) : Option (Except (Trap Fault) History) :=
  Loop.runFrom (batch U server symbol interval startTime) fuel (start U server symbol interval startTime endTime)

end

end Spot.RESTClient.Checked

/-! ## The futures client -/

namespace Futures

def Candles.Checked.candleAt (times opens highs lows closes vols amounts : Json) (i : Nat) :
    Except (Trap Fault) Candle := do
  let time ← raise (times.accessIndex i).get
  let seconds ← raise time.getInt64
  let openTime ← int64 (seconds * 1000)
  let «open» ← raise (decimalAt opens i)
  let high ← raise (decimalAt highs i)
  let low ← raise (decimalAt lows i)
  let close ← raise (decimalAt closes i)
  let volume ← raise (decimalAt vols i)
  let amount ← raise (decimalAt amounts i)
  return { openTime, «open», high, low, close, volume, amount }

def Candles.Checked.fromJson (U : JsonUtils) (json : Json) : Except (Trap Fault) Candles := do
  let response ← raise (Response.fromJson U {} json)
  let data := response.data
  match data.find? "time" with
  | none => return { response with }
  | some times =>
    if times.empty then return { response with }
    let opens ← raise (data.atOrInsert "open")
    let highs ← raise (data.atOrInsert "high")
    let lows ← raise (data.atOrInsert "low")
    let closes ← raise (data.atOrInsert "close")
    let vols ← raise (data.atOrInsert "vol")
    let amounts ← raise (data.atOrInsert "amount")
    let candles ← (List.range times.size).mapM (candleAt times opens highs lows closes vols amounts)
    return { response with candles }

namespace RESTClient.Checked

/-- The template for the candles. -/
def handleMEXCResponse (U : JsonUtils) (response : HttpResponse) : Except (Trap Fault) Candles := do
  let json ← raise response.parse
  let retVal ← Candles.Checked.fromJson U json
  let code := retVal.code
  if !retVal.success then throw (.raised (.runtimeError s!"MEXC API error, code: {code}"))
  return retVal

def P.getHistoricalPrices (U : JsonUtils) (methodGet : KlineRequest → Except Fault HttpResponse) (symbol : String)
    (interval : CandleInterval) (startTime endTime : Int) : Except (Trap Fault) (List Candle) := do
  let response ← raise (methodGet { symbol, interval := interval.enumName, start := startTime, «end» := endTime })
  let response ← raise (checkResponse response)
  let candles ← handleMEXCResponse U response
  return candles.candles

section
variable (U : JsonUtils) (server : KlineServer) (symbol : String) (interval : CandleInterval) (startTime : Int)

def start (endTime : Int) : Except (Trap Fault) History := do
  if startTime < endTime then
    let candles ← P.getHistoricalPrices U (server 0) symbol interval startTime endTime
    return { currentEndTime := endTime, candles, retVal := [], written := [], requests := 1 }
  else
    return { currentEndTime := endTime, candles := [], retVal := [], written := [], requests := 0 }

def batch (s : History) : Except (Trap Fault) (Loop.Flow History History) :=
  match s.candles with
  | [] => .ok (.stop { s with retVal := s.retVal.dropLast })
  | oldest :: _ => do
    let oldestTimestamp := oldest.openTime
    let written := s.written ++ [s.candles]
    let retVal := s.candles ++ s.retVal
    let currentEndTime ← int64 (oldestTimestamp.tdiv 1000 - 1)
    if startTime < currentEndTime then
      let candles ← P.getHistoricalPrices U (server s.requests) symbol interval startTime currentEndTime
      return .next { currentEndTime, candles, retVal, written, requests := s.requests + 1 }
    else
      return .next { currentEndTime, candles := [], retVal, written, requests := s.requests }

def getHistoricalPrices (endTime : Int) (fuel : Nat) : Option (Except (Trap Fault) History) :=
  Loop.runFrom (batch U server symbol interval startTime) fuel (start U server symbol interval startTime endTime)

end

end RESTClient.Checked

end Futures

end MexcApi
