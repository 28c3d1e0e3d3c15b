import MexcApi.FuturesModels
import MexcApi.FuturesRestClient
import MexcApi.SpotRestClient

/-!
# The endpoint methods of the two clients

Each method hands a request to the session of its client and decodes the
reply. The parameters of a query are in key order, as a `std::map` iterates
them. The rate limiter only delays a request and is left out here.
-/

namespace MexcApi

open Nlohmann

/-- What the session of a client is asked to send. -/
inductive HttpRequest where
  | methodGet (path : String) (parameters : List (String × String)) (isPublic : Bool)
  | methodPost (path : String) (parameters : List (String × String)) (isPublic : Bool)
  | methodPut (path : String) (parameters : List (String × String)) (isPublic : Bool)
  | methodDelete (path : String) (parameters : List (String × String)) (isPublic : Bool)
  | methodPostBody (path : String) (jsonBody : Json)

abbrev HTTPSession := HttpRequest → Except Fault HttpResponse

namespace Spot

/-- The template of `mexc_spot_rest_client.cpp`; `toResponse` is the inherited
part of the decoded value. -/
def handleMEXCResponse {α : Type} (fromJson : Json → Except Fault α) (toResponse : α → Response)
    (response : HttpResponse) : Except Fault α := do
  let retVal ← fromJson (← response.parse)
  let code := (toResponse retVal).code
  let msg := (toResponse retVal).msg
  if code ≠ 0 then throw (.runtimeError s!"MEXC API error, code: {code}, msg: {msg}")
  return retVal

namespace RESTClient

section
variable (U : JsonUtils) (httpSession : HTTPSession)

def getServerTime : Except Fault Int := do
  let response ← checkResponse (← httpSession (.methodGet "/api/v3/time" [] true))
  let retVal ← ServerTime.fromJson U (← response.parse)
  return retVal.serverTime

def getTickerPrice (symbol : String) : Except Fault (List TickerPrice) := do
  let response ← checkResponse (← httpSession (.methodGet "/api/v3/ticker/price" [("symbol", symbol)] true))
  match ← response.parse with
  | .obj kvs => return [← TickerPrice.fromJson U (.obj kvs)]
  | .arr items => items.mapM (TickerPrice.fromJson U)
  | _ => return []

end

/-! The listen keys, in whatever monad the exchange answers. -/

section
variable {m : Type → Type} [Monad m] [MonadLiftT (Except Fault) m] (U : JsonUtils)
    (httpSession : HttpRequest → m HttpResponse)

def getListenKey : m String := do
  let response ← checkResponse (← httpSession (.methodPost "/api/v3/userDataStream" [] false))
  let retVal ← handleMEXCResponse (ListenKey.fromJson U) ListenKey.toResponse response
  return retVal.listenKey

def getListenKeys : m ListenKeys := do
  let response ← checkResponse (← httpSession (.methodGet "/api/v3/userDataStream" [] false))
  handleMEXCResponse (ListenKeys.fromJson U) ListenKeys.toResponse response

def renewListenKey (listenKey : String) : m String := do
  let response ← checkResponse (← httpSession (.methodPut "/api/v3/userDataStream" [("listenKey", listenKey)] false))
  let retVal ← handleMEXCResponse (ListenKey.fromJson U) ListenKey.toResponse response
  return retVal.listenKey

def closeListenKey (listenKey : String) : m String := do
  let response ← checkResponse (← httpSession (.methodDelete "/api/v3/userDataStream" [("listenKey", listenKey)] false))
  let retVal ← handleMEXCResponse (ListenKey.fromJson U) ListenKey.toResponse response
  return retVal.listenKey

end

end RESTClient

end Spot

namespace Futures

namespace RESTClient

section
variable (U : JsonUtils) (httpSession : HTTPSession)

def getServerTime : Except Fault Int := do
  let response ← checkResponse (← httpSession (.methodGet "/api/v1/contract/ping" [] true))
  let retVal ← handleMEXCResponse (ServerTime.fromJson U) ServerTime.toResponse response
  return retVal.serverTime

def getContractDetails (symbol : String) : Except Fault (List ContractDetail) := do
  let parameters := if symbol ≠ "" then [("symbol", symbol)] else []
  let response ← checkResponse (← httpSession (.methodGet "/api/v1/contract/detail" parameters true))
  let retVal ← handleMEXCResponse (ContractDetails.fromJson U) ContractDetails.toResponse response
  return retVal.contractDetails

def getContractFundingRate (contract : String) : Except Fault ContractFundingRate := do
  let response ← checkResponse (← httpSession (.methodGet ("/api/v1/contract/funding_rate/" ++ contract) [] true))
  handleMEXCResponse (ContractFundingRate.fromJson U) ContractFundingRate.toResponse response

def getContractFundingRates : Except Fault (List ContractFundingRate) := do
  let response ← checkResponse (← httpSession (.methodGet "/api/v1/contract/funding_rate" [] true))
  let retVal ← handleMEXCResponse (ContractFundingRates.fromJson U) ContractFundingRates.toResponse response
  return retVal.fundingRates

def getWalletBalance (currency : String) : Except Fault WalletBalance := do
  let response ← checkResponse (← httpSession (.methodGet ("/api/v1/private/account/asset/" ++ currency) [] false))
  handleMEXCResponse (WalletBalance.fromJson U) WalletBalance.toResponse response

def getContractTicker (symbol : String) : Except Fault Ticker := do
  let response ← checkResponse (← httpSession (.methodGet "/api/v1/contract/ticker" [("symbol", symbol)] true))
  handleMEXCResponse (Ticker.fromJson U) Ticker.toResponse response

def getOpenPositions (symbol : String) : Except Fault (List OpenPosition) := do
  let parameters := if symbol ≠ "" then [("symbol", symbol)] else []
  let response ← checkResponse (← httpSession (.methodGet "/api/v1/private/position/open_positions" parameters false))
  let retVal ← handleMEXCResponse (OpenPositions.fromJson U) OpenPositions.toResponse response
  return retVal.positions

end

/-- In whatever monad the exchange answers. -/
def cancelOrders {m : Type → Type} [Monad m] [MonadLiftT (Except Fault) m] (U : JsonUtils)
    (httpSession : HttpRequest → m HttpResponse) (orderIds : List Int) : m CancelOrderResponse := do
  let jsonBody := Json.arr (orderIds.map fun orderId => .num (.int orderId))
  let response ← checkResponse (← httpSession (.methodPostBody "/api/v1/private/order/cancel" jsonBody))
  handleMEXCResponse (CancelOrderResponse.fromJson U) CancelOrderResponse.toResponse response

end RESTClient

def FundingRateRequest.toHttp (request : FundingRateRequest) : HttpRequest :=
  .methodGet "/api/v1/contract/funding_rate/history"
    [("page_num", toString request.pageNum), ("page_size", toString request.pageSize), ("symbol", request.symbol)] true

end Futures

/-! ## A call of an endpoint method -/

namespace Spot

/-- The methods that make one request, with their arguments. -/
inductive Query where
  | getServerTime
  | getTickerPrice (symbol : String)
  | getListenKey
  | getListenKeys
  | renewListenKey (listenKey : String)
  | closeListenKey (listenKey : String)

end Spot

namespace Futures

/-- The methods that make one request, with their arguments. -/
inductive Query where
  | getServerTime
  | getContractDetails (symbol : String)
  | getContractFundingRate (contract : String)
  | getContractFundingRates
  | getContractFundingRateHistory (symbol : String) (pageNum pageSize : Int)
  | getWalletBalance (currency : String)
  | getContractTicker (symbol : String)
  | getOpenPositions (symbol : String)
  | submitOrder (request : OrderRequest)
  | cancelOrders (orderIds : List Int)

end Futures

inductive Endpoint where
  | spot (query : Spot.Query)
  | spotHistoricalPrices (symbol : String) (interval : CandleInterval) (startTime endTime : Int)
  | futures (query : Futures.Query)
  | futuresHistoricalPrices (symbol : String) (interval : CandleInterval) (startTime endTime : Int)

/-- How the call ends, without the value it returns. -/
def ending {α : Type} (x : Except Fault α) : Except Fault Unit := x.map fun _ => ()

def Spot.Query.send (U : JsonUtils) (httpSession : HTTPSession) : Spot.Query → Except Fault Unit
  | .getServerTime => ending (RESTClient.getServerTime U httpSession)
  | .getTickerPrice symbol => ending (RESTClient.getTickerPrice U httpSession symbol)
  | .getListenKey => ending (RESTClient.getListenKey U httpSession)
  | .getListenKeys => ending (RESTClient.getListenKeys U httpSession)
  | .renewListenKey listenKey => ending (RESTClient.renewListenKey U httpSession listenKey)
  | .closeListenKey listenKey => ending (RESTClient.closeListenKey U httpSession listenKey)

def Futures.Query.send (U : JsonUtils) (httpSession : HTTPSession) : Futures.Query → Except Fault Unit
  | .getServerTime => ending (RESTClient.getServerTime U httpSession)
  | .getContractDetails symbol => ending (RESTClient.getContractDetails U httpSession symbol)
  | .getContractFundingRate contract => ending (RESTClient.getContractFundingRate U httpSession contract)
  | .getContractFundingRates => ending (RESTClient.getContractFundingRates U httpSession)
  | .getContractFundingRateHistory symbol pageNum pageSize =>
    ending (RESTClient.getContractFundingRateHistory U (fun request => httpSession request.toHttp) symbol pageNum pageSize)
  | .getWalletBalance currency => ending (RESTClient.getWalletBalance U httpSession currency)
  | .getContractTicker symbol => ending (RESTClient.getContractTicker U httpSession symbol)
  | .getOpenPositions symbol => ending (RESTClient.getOpenPositions U httpSession symbol)
  | .submitOrder request =>
    ending (RESTClient.submitOrder U (fun body => httpSession (.methodPostBody "/api/v1/private/order/submit" body)) request)
  | .cancelOrders orderIds => ending (RESTClient.cancelOrders U httpSession orderIds)

namespace Endpoint

section
variable (U : JsonUtils) (replies : Nat → Except Fault HttpResponse)

/-- The call when its requests are answered with the replies one after the
other, with at most `fuel` rounds of a download. -/
def call (fuel : Nat) : Endpoint → Option (Except Fault Unit)
  | .spot query => some (query.send U fun _ => replies 0)
  | .spotHistoricalPrices symbol interval startTime endTime =>
    (Spot.RESTClient.getHistoricalPrices U (fun n _ => replies n) symbol interval startTime endTime fuel).map ending
  | .futures query => some (query.send U fun _ => replies 0)
  | .futuresHistoricalPrices symbol interval startTime endTime =>
    (Futures.RESTClient.getHistoricalPrices U (fun n _ => replies n) symbol interval startTime endTime fuel).map ending

def Ends (endpoint : Endpoint) (result : Except Fault Unit) : Prop := ∃ fuel, endpoint.call U replies fuel = some result

/-- The call makes its `n`-th request: it ends with whatever that request raises. -/
def Asks (endpoint : Endpoint) (n : Nat) : Prop :=
  ∀ e, endpoint.Ends U (Function.update replies n (.error e)) (.error e)

def Throws (endpoint : Endpoint) : Prop := ∃ e, endpoint.Ends U replies (.error e) ∧ e ≠ .undefined

end

end Endpoint

end MexcApi
