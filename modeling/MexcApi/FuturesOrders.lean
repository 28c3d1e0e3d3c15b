import MexcApi.Models

/-!
# Placing a futures order

`MEXCFuturesExchangeConnector::placeOrder` down to the body it posts. The
order and the trade are types of the common connector interface; they have the
fields the connector reads and writes.
-/

namespace MexcApi

open Nlohmann

structure Order where
  symbol : String
  side : Side
  type : CommonOrderType
  timeInForce : TimeInForce
  price : Double
  quantity : Double
  customData : Json

structure Trade where
  orderStatus : OrderStatus
  customData : Json

namespace Futures

structure OrderRequest where
  symbol : String := ""
  price : Double := .finite 0
  vol : Double := .finite 0
  leverage : Int := 0
  side : OrderSide := .unset
  type : OrderType := .unset
  openType : MarginType := .unnamed 0
  positionId : Int := 0
  externalOid : String := ""
  stopLossPrice : Double := .finite 0
  takeProfitPrice : Double := .finite 0

def OrderRequest.toJson (request : OrderRequest) : Json :=
  let j := Json.set "symbol" (.str request.symbol) []
  let j := Json.set "price" request.price.toJson j
  let j := Json.set "vol" request.vol.toJson j
  let j := Json.set "side" (.num (.int request.side.toInt)) j
  let j := Json.set "type" (.num (.int request.type.toInt)) j
  let j := Json.set "openType" (.num (.int request.openType.toInt)) j
  let j := if request.leverage > 0 then Json.set "leverage" (.num (.int request.leverage)) j else j
  let j := if request.positionId > 0 then Json.set "positionId" (.num (.int request.positionId)) j else j
  let j := if request.externalOid ≠ "" then Json.set "externalOid" (.str request.externalOid) j else j
  let j := if request.stopLossPrice.isPositive then Json.set "stopLossPrice" request.stopLossPrice.toJson j else j
  let j := if request.takeProfitPrice.isPositive then Json.set "takeProfitPrice" request.takeProfitPrice.toJson j else j
  .obj j

structure OrderResponse extends Response where
  orderId : Int := 0

def OrderResponse.fromJson (U : JsonUtils) (json : Json) : Except Fault OrderResponse := do
  let response ← Response.fromJson U {} json
  if response.data.isNumberInteger then
    return { response with orderId := ← response.data.getInt64 }
  return { response with }

/-- `methodPost` is the request to `/api/v1/private/order/submit` with its body,
in whatever monad the exchange answers it. -/
def RESTClient.submitOrder {m : Type → Type} [Monad m] [MonadLiftT (Except Fault) m] (U : JsonUtils)
    (methodPost : Json → m HttpResponse) (request : OrderRequest) : m OrderResponse := do
  let response ← checkResponse (← methodPost request.toJson)
  handleMEXCResponse (OrderResponse.fromJson U) OrderResponse.toResponse response

def readCustom {α : Type} (get : Json → Except Fault α) (customData : Json) (key : String) (default : α) :
    Except Fault α :=
  match customData.find? key with
  | some value => get value
  | none => .ok default

def orderRequest (order : Order) : Except Fault OrderRequest := do
  let side := if order.side = .Buy then OrderSide.OpenLong else OrderSide.OpenShort
  let close ← readCustom Json.getBool order.customData "close" false
  let side := if close then (if order.side = .Buy then OrderSide.CloseShort else OrderSide.CloseLong) else side
  let (type, price) := match order.type with
    | .Market => (OrderType.Market, Double.finite 0)
    | .Limit => (OrderType.Limit, order.price)
    | .other _ => (OrderType.Market, Double.finite 0)
  let type := match order.timeInForce with
    | .IOC => OrderType.IOC
    | .FOK => OrderType.FOK
    | .other _ => type
  let openType ← readCustom (fun v => return MarginType.ofInt (← v.getInt32)) order.customData "openType" .Cross
  let leverage ← readCustom Json.getInt32 order.customData "leverage" 0
  let positionId ← readCustom Json.getInt64 order.customData "positionId" 0
  return { symbol := order.symbol, vol := order.quantity, side, type, price, openType, leverage, positionId }

def placeOrder {m : Type → Type} [Monad m] [MonadLiftT (Except Fault) m] (U : JsonUtils)
    (methodPost : Json → m HttpResponse) (order : Order) : m Trade := do
  let response ← RESTClient.submitOrder U methodPost (← orderRequest order)
  if response.success then
    return { orderStatus := .New, customData := .obj [("orderId", .num (.int response.orderId))] }
  else
    return { orderStatus := .Rejected, customData := .obj [("errorCode", .num (.int response.code))] }

end Futures

end MexcApi
