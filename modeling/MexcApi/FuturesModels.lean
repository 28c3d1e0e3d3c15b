import MexcApi.FuturesOrders

/-!
# Data models of the futures endpoints

The decoders of `mexc_models.cpp` that only the single request methods of the
futures client use. An object that is decoded from `data` has the key lookups
of a non-const value, but each of them is asked for with `contains` first.
-/

namespace MexcApi

open Nlohmann

namespace Futures

structure ServerTime extends Response where
  serverTime : Int := 0

def ServerTime.fromJson (U : JsonUtils) (json : Json) : Except Fault ServerTime := do
  let response ← Response.fromJson U {} json
  let serverTime ← response.data.getInt64
  return { response with serverTime }

/-- `FundingRate` of the client; the connector has a type of that name too. -/
structure ContractFundingRate extends Response where
  symbol : String := ""
  fundingRate : ℚ := 0
  maxFundingRate : ℚ := 0
  minFundingRate : ℚ := 0
  collectCycle : Int := 0
  nextSettleTime : Int := 0
  timestamp : Int := 0

def ContractFundingRate.fromJson (U : JsonUtils) (json : Json) : Except Fault ContractFundingRate := do
  let response ← Response.fromJson U {} json
  let data := response.data
  let symbol ← U.readValue Json.getString data "symbol" ""
  let fundingRate ← readDecimal U data "fundingRate"
  let maxFundingRate ← readDecimal U data "maxFundingRate"
  let minFundingRate ← readDecimal U data "minFundingRate"
  let collectCycle ← U.readValue Json.getInt32 data "collectCycle" 0
  let nextSettleTime ← U.readValue Json.getInt64 data "nextSettleTime" 0
  let timestamp ← U.readValue Json.getInt64 data "timestamp" 0
  return { response with
    symbol, fundingRate, maxFundingRate, minFundingRate, collectCycle, nextSettleTime, timestamp }

structure ContractFundingRates extends Response where
  fundingRates : List ContractFundingRate := []

def ContractFundingRates.fromJson (U : JsonUtils) (json : Json) : Except Fault ContractFundingRates := do
  let response ← Response.fromJson U {} json
  let fundingRates ← response.data.elements.mapM fun el => ContractFundingRate.fromJson U (.obj [("data", el)])
  return { response with fundingRates }

structure WalletBalance extends Response where
  currency : String := ""
  positionMargin : ℚ := 0
  availableBalance : ℚ := 0
  cashBalance : ℚ := 0
  frozenBalance : ℚ := 0
  equity : ℚ := 0
  unrealized : ℚ := 0
  bonus : ℚ := 0

def WalletBalance.fromJson (U : JsonUtils) (json : Json) : Except Fault WalletBalance := do
  let response ← Response.fromJson U {} json
  let data := response.data
  let currency ← U.readValue Json.getString data "currency" ""
  let positionMargin ← U.readDecimalValue data "positionMargin"
  let availableBalance ← U.readDecimalValue data "availableBalance"
  let cashBalance ← U.readDecimalValue data "cashBalance"
  let frozenBalance ← U.readDecimalValue data "frozenBalance"
  let equity ← U.readDecimalValue data "equity"
  let unrealized ← U.readDecimalValue data "unrealized"
  let bonus ← U.readDecimalValue data "bonus"
  return { response with
    currency, positionMargin, availableBalance, cashBalance, frozenBalance, equity, unrealized, bonus }

structure Ticker extends Response where
  symbol : String := ""
  lastPrice : ℚ := 0
  bid1 : ℚ := 0
  ask1 : ℚ := 0
  volume24 : ℚ := 0
  amount24 : ℚ := 0
  holdVol : ℚ := 0
  timestamp : Int := 0

def Ticker.fromJson (U : JsonUtils) (json : Json) : Except Fault Ticker := do
  let response ← Response.fromJson U {} json
  let data := response.data
  let symbol ← U.readValue Json.getString data "symbol" ""
  let lastPrice ← readDecimal U data "lastPrice"
  let bid1 ← readDecimal U data "bid1"
  let ask1 ← readDecimal U data "ask1"
  let volume24 ← readDecimal U data "volume24"
  let amount24 ← readDecimal U data "amount24"
  let holdVol ← readDecimal U data "holdVol"
  let timestamp ← U.readValue Json.getInt64 data "timestamp" 0
  return { response with symbol, lastPrice, bid1, ask1, volume24, amount24, holdVol, timestamp }

structure OpenPosition where
  positionId : Int := 0
  symbol : String := ""
  positionType : Int := 0
  openType : Int := 0
  state : Int := 0
  holdVol : ℚ := 0
  frozenVol : ℚ := 0
  holdAvgPrice : ℚ := 0
  openAvgPrice : ℚ := 0
  liquidatePrice : ℚ := 0
  oim : ℚ := 0
  im : ℚ := 0
  holdFee : ℚ := 0
  realised : ℚ := 0
  leverage : Int := 0
  createTime : Int := 0
  updateTime : Int := 0

def OpenPosition.fromJson (U : JsonUtils) (json : Json) : Except Fault OpenPosition := do
  let positionId ← U.readValue Json.getInt64 json "positionId" 0
  let symbol ← U.readValue Json.getString json "symbol" ""
  let positionType ← U.readValue Json.getInt32 json "positionType" 0
  let openType ← U.readValue Json.getInt32 json "openType" 0
  let state ← U.readValue Json.getInt32 json "state" 0
  let holdVol ← readDecimal U json "holdVol"
  let frozenVol ← readDecimal U json "frozenVol"
  let holdAvgPrice ← readDecimal U json "holdAvgPrice"
  let openAvgPrice ← readDecimal U json "openAvgPrice"
  let liquidatePrice ← readDecimal U json "liquidatePrice"
  let oim ← readDecimal U json "oim"
  let im ← readDecimal U json "im"
  let holdFee ← readDecimal U json "holdFee"
  let realised ← readDecimal U json "realised"
  let leverage ← U.readValue Json.getInt32 json "leverage" 0
  let createTime ← U.readValue Json.getInt64 json "createTime" 0
  let updateTime ← U.readValue Json.getInt64 json "updateTime" 0
  return {
    positionId, symbol, positionType, openType, state, holdVol, frozenVol, holdAvgPrice, openAvgPrice, liquidatePrice
    oim, im, holdFee, realised, leverage, createTime, updateTime }

/-- What a loop over an array visits; anything else is not looped over. -/
def arrayItems : Json → List Json
  | .arr items => items
  | _ => []

structure OpenPositions extends Response where
  positions : List OpenPosition := []

def OpenPositions.fromJson (U : JsonUtils) (json : Json) : Except Fault OpenPositions := do
  let response ← Response.fromJson U {} json
  let positions ← (arrayItems response.data).mapM (OpenPosition.fromJson U)
  return { response with positions }

structure CancelOrderResponse.Result where
  orderId : Int := 0
  errorCode : Int := 0
  errorMsg : String := ""

structure CancelOrderResponse extends Response where
  results : List CancelOrderResponse.Result := []

def CancelOrderResponse.fromJson (U : JsonUtils) (json : Json) : Except Fault CancelOrderResponse := do
  let response ← Response.fromJson U {} json
  let results ← (arrayItems response.data).mapM fun item => do
    let orderId ← U.readValue Json.getInt64 item "orderId" 0
    let errorCode ← U.readValue Json.getInt32 item "errorCode" 0
    let errorMsg ← U.readValue Json.getString item "errorMsg" ""
    return ({ orderId, errorCode, errorMsg } : CancelOrderResponse.Result)
  return { response with results }

/-- `state` is the value of the enumeration `ContractState`. -/
structure ContractDetail where
  symbol : String := ""
  displayNameEn : String := ""
  baseCoin : String := ""
  quoteCoin : String := ""
  settleCoin : String := ""
  state : Int := 0
  apiAllowed : Bool := true
  automaticDelivery : Int := 0
  contractSize : ℚ := 1
  minVol : Int := 1
  maxVol : Int := 1000000
  volUnit : Int := 1
  priceUnit : Int := 1
  pricePrecision : Int := 2
  volPrecision : Int := 0
  conceptPlate : List String := []

def ContractDetail.fromJson (U : JsonUtils) (json : Json) : Except Fault ContractDetail := do
  let symbol ← U.readValue Json.getString json "symbol" ""
  let displayNameEn ← U.readValue Json.getString json "displayNameEn" ""
  let baseCoin ← U.readValue Json.getString json "baseCoin" ""
  let quoteCoin ← U.readValue Json.getString json "quoteCoin" ""
  let settleCoin ← U.readValue Json.getString json "settleCoin" ""
  let apiAllowed ← U.readValue Json.getBool json "apiAllowed" true
  let automaticDelivery ← U.readValue Json.getInt32 json "automaticDelivery" 0
  let contractSize ← U.readValue Json.getDouble json "contractSize" 1
  let minVol ← U.readValue Json.getInt32 json "minVol" 1
  let maxVol ← U.readValue Json.getInt32 json "maxVol" 1000000
  let volUnit ← U.readValue Json.getInt32 json "volUnit" 1
  let priceUnit ← U.readValue Json.getInt32 json "priceUnit" 1
  let pricePrecision ← U.readValue Json.getInt32 json "pricePrecision" 2
  let volPrecision ← U.readValue Json.getInt32 json "volPrecision" 0
  let state := match json.find? "state" with
    | some (.num n) => n.toInt
    | _ => 0
  let conceptPlate := (arrayItems ((json.find? "conceptPlate").getD .null)).filterMap fun
    | .str s => some s
    | _ => none
  return {
    symbol, displayNameEn, baseCoin, quoteCoin, settleCoin, state, apiAllowed, automaticDelivery, contractSize, minVol
    maxVol, volUnit, priceUnit, pricePrecision, volPrecision, conceptPlate }

structure ContractDetails extends Response where
  contractDetails : List ContractDetail := []

def ContractDetails.fromJson (U : JsonUtils) (json : Json) : Except Fault ContractDetails := do
  let response ← Response.fromJson U {} json
  let contractDetails ← (arrayItems response.data).mapM (ContractDetail.fromJson U)
  return { response with contractDetails }

end Futures

end MexcApi
