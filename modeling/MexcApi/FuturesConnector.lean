import MexcApi.FuturesRestClient

/-!
# The history calls of the futures connector

`MEXCFuturesExchangeConnector::getHistoricalFundingRates` and
`getHistoricalCandles`. The rate and the candle are types of the common
connector interface, whose times are milliseconds.
-/

namespace MexcApi

open Nlohmann

structure FundingRate where
  symbol : String
  fundingRate : Double
  fundingTime : Int

structure CommonCandle where
  openTime : Int
  «open» : Double
  high : Double
  low : Double
  close : Double
  volume : Double

namespace Futures

abbrev FundingServer := Nat → FundingRateRequest → Except Fault HttpResponse

/-- The local variables of the page loop; `requests` counts the requests made. -/
structure Paging where
  pageNum : Int
  retVal : List FundingRate
  requests : Nat

section
variable (U : JsonUtils) (convertTo : ℚ → Double) (server : FundingServer) (symbol : String) (startTime endTime : Int)

def pageSize : Nat := 1000

def toFundingRate (rate : HistoricalFundingRate) : FundingRate :=
  { symbol := rate.symbol, fundingRate := convertTo rate.fundingRate, fundingTime := rate.settleTime }

def fetchPage (s : Paging) : Except Fault (Loop.Flow Paging Paging) := do
  let page ← RESTClient.getContractFundingRateHistory U (server s.requests) symbol s.pageNum pageSize
  let rates := page.resultList.filter fun rate => rate.settleTime ≥ startTime ∧ rate.settleTime ≤ endTime
  let retVal := s.retVal ++ rates.map (toFundingRate convertTo)
  let requests := s.requests + 1
  if s.pageNum ≥ page.totalPage || page.resultList.isEmpty then
    return .stop { s with retVal, requests }
  match page.resultList.getLast? with
  | some oldest =>
    if oldest.settleTime < startTime then return .stop { s with retVal, requests }
    else return .next { pageNum := s.pageNum + 1, retVal, requests }
  | none => return .next { pageNum := s.pageNum + 1, retVal, requests }

/-- `std::ranges::sort`; the order of equal times, which it leaves open, is
the one of a stable sort. -/
def sortRates (rates : List FundingRate) : List FundingRate :=
  rates.mergeSort fun a b => a.fundingTime ≤ b.fundingTime

/-- The call with at most `fuel` rounds of the page loop. -/
def getHistoricalFundingRates (fuel : Nat) : Option (Except Fault Paging) :=
  (Loop.run (fetchPage U convertTo server symbol startTime endTime) fuel { pageNum := 1, retVal := [], requests := 0 }).map
    fun r => r.map fun s => { s with retVal := sortRates s.retVal }

end

/-! ## Candles -/

def toMexcInterval : CommonCandleInterval → Except Fault CandleInterval
  | ._1m => .ok ._1m
  | ._5m => .ok ._5m
  | ._15m => .ok ._15m
  | ._30m => .ok ._30m
  | ._1h => .ok ._60m
  | ._4h => .ok ._4h
  | ._8h => .ok ._8h
  | ._1d => .ok ._1d
  | ._1w => .ok ._1W
  | ._1M => .ok ._1M
  | .other _ => .error (.runtimeError "Unsupported candle interval for MEXC")

def toCandle (convertTo : ℚ → Double) (c : Candle) : CommonCandle where
  openTime := c.openTime
  «open» := convertTo c.open
  high := convertTo c.high
  low := convertTo c.low
  close := convertTo c.close
  volume := convertTo c.volume

/-- The call with at most `fuel` rounds of the client's download. -/
def getHistoricalCandles (U : JsonUtils) (convertTo : ℚ → Double) (server : KlineServer) (symbol : String)
    (interval : CommonCandleInterval) (startTime endTime : Int) (fuel : Nat) :
    Option (Except Fault (List CommonCandle)) :=
  match toMexcInterval interval with
  | .ok mexcInterval =>
    (RESTClient.getHistoricalPrices U server symbol mexcInterval (startTime.tdiv 1000) (endTime.tdiv 1000) fuel).map
      fun r => r.map fun h => h.retVal.map (toCandle convertTo)
  | .error e => some (.error e)

end Futures

end MexcApi
