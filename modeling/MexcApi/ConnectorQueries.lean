import MexcApi.FuturesConnector
import MexcApi.RestEndpoints

/-!
# The query calls of the futures connector

The calls of `MEXCFuturesExchangeConnector` that hand on what one request of
its client returns. The results are types of the common connector interface;
they have the fields the connector writes.
-/

namespace MexcApi

open Nlohmann

/-- `operator*`, where `round` rounds the exact product. Zeros have no sign. -/
def Double.mul (round : ℚ → Double) : Double → Double → Double
  | .finite p, .finite q => round (p * q)
  | .infinite a, .infinite b => .infinite (a != b)
  | .infinite a, .finite q | .finite q, .infinite a => if q = 0 then .nan else .infinite (a != decide (q < 0))
  | .nan, _ | _, .nan => .nan

structure TickerPrice where
  bidPrice : Double
  askPrice : Double
  volume24h : Double
  turnover24h : Double
  time : Int

structure Balance where
  balance : Double
  /-- The members of `customData`, all of them doubles. -/
  customData : List (String × Double)

inductive MarketCategory where
  | Futures
  | other (value : Int)
  deriving DecidableEq, Repr

structure Symbol where
  symbol : String
  displayName : String
  marketCategory : MarketCategory
  baseAsset : String
  quoteAsset : String
  marginAsset : String
  contractSize : ℚ
  minVol : Int
  maxVol : Int
  volUnit : Int
  deriving DecidableEq

structure Position where
  symbol : String
  side : Side
  size : Double
  avgPrice : Double
  value : Double
  createdTime : Int
  updatedTime : Int
  leverage : Double

namespace Futures

section
variable (convertTo : ℚ → Double)

def toTickerPrice (ticker : Ticker) : TickerPrice where
  bidPrice := convertTo ticker.bid1
  askPrice := convertTo ticker.ask1
  volume24h := convertTo ticker.volume24
  turnover24h := convertTo ticker.amount24
  time := ticker.timestamp

def toBalance (wb : WalletBalance) : Balance where
  balance := convertTo wb.equity
  customData := [
    ("availableBalance", convertTo wb.availableBalance), ("cashBalance", convertTo wb.cashBalance),
    ("frozenBalance", convertTo wb.frozenBalance), ("unrealized", convertTo wb.unrealized)]

/-- The rate that is to be settled next. -/
def toNextRate (fr : ContractFundingRate) : FundingRate where
  symbol := fr.symbol
  fundingRate := convertTo fr.fundingRate
  fundingTime := fr.nextSettleTime

def toSymbol (d : ContractDetail) : Symbol where
  symbol := d.symbol
  displayName := d.displayNameEn
  marketCategory := .Futures
  baseAsset := d.baseCoin
  quoteAsset := d.quoteCoin
  marginAsset := d.settleCoin
  contractSize := d.contractSize
  minVol := d.minVol
  maxVol := d.maxVol
  volUnit := d.volUnit

def toPosition (round : ℚ → Double) (pos : OpenPosition) : Position :=
  let size := convertTo pos.holdVol
  let avgPrice := convertTo pos.openAvgPrice
  { symbol := pos.symbol
    side := if pos.positionType = 1 then .Buy else .Sell
    size, avgPrice
    value := Double.mul round size avgPrice
    createdTime := pos.createTime
    updatedTime := pos.updateTime
    leverage := .finite pos.leverage }

variable (U : JsonUtils) (httpSession : HTTPSession)

def getTickerPrice (symbol : String) : Except Fault TickerPrice := do
  let ticker ← RESTClient.getContractTicker U httpSession symbol
  return toTickerPrice convertTo ticker

def getAccountBalance (currency : String) : Except Fault Balance := do
  let wb ← RESTClient.getWalletBalance U httpSession currency
  return toBalance convertTo wb

def getFundingRate (symbol : String) : Except Fault FundingRate := do
  let fr ← RESTClient.getContractFundingRate U httpSession symbol
  return toNextRate convertTo fr

def getFundingRates : Except Fault (List FundingRate) := do
  let rates ← RESTClient.getContractFundingRates U httpSession
  return rates.map (toNextRate convertTo)

def getSymbolInfo (symbol : String) : Except Fault (List Symbol) := do
  let details ← RESTClient.getContractDetails U httpSession symbol
  return details.map toSymbol

def getServerTime : Except Fault Int := RESTClient.getServerTime U httpSession

def getPositionInfo (round : ℚ → Double) (symbol : String) : Except Fault (List Position) := do
  let positions ← RESTClient.getOpenPositions U httpSession symbol
  return positions.map (toPosition convertTo round)

end

end Futures

end MexcApi
