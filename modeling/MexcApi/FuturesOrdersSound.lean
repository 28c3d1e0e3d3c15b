import MexcApi.FuturesOrders

/-!
# When an order keeps its meaning

The time in force overwrites the type of a request, and an order type the
connector does not know is sent as a market order.
-/

namespace MexcApi

open Nlohmann

def OrderType.isPriced : OrderType → Bool
  | .Limit | .IOC | .FOK => true
  | _ => false

namespace Futures

structure MeaningKept (order : Order) (request : OrderRequest) : Prop where
  market : order.type = .Market → request.type = .Market
  priced : request.type.isPriced = true → order.type = .Limit ∧ request.price = order.price
  other : order.type ≠ .Market → order.type ≠ .Limit → request.type ≠ .Market

/-! ## The request -/

/-- The type and the price that the order type alone asks for. -/
def baseType (order : Order) : OrderType := if order.type = .Limit then .Limit else .Market

def sentType (order : Order) : OrderType :=
  match order.timeInForce with
  | .IOC => .IOC
  | .FOK => .FOK
  | .other _ => baseType order

def sentPrice (order : Order) : Double := if order.type = .Limit then order.price else .finite 0

theorem orderRequest_sent {order : Order} {request : OrderRequest} (h : orderRequest order = .ok request) :
    request.symbol = order.symbol ∧ request.vol = order.quantity ∧ request.type = sentType order ∧
      request.price = sentPrice order := by
  unfold orderRequest at h
  obtain ⟨close, -, h⟩ := bind_ok h
  obtain ⟨openType, -, h⟩ := bind_ok h
  obtain ⟨leverage, -, h⟩ := bind_ok h
  obtain ⟨positionId, -, h⟩ := bind_ok h
  cases h
  refine ⟨rfl, rfl, ?_, ?_⟩
  · cases ht : order.type <;> cases hf : order.timeInForce <;> simp [sentType, baseType, ht, hf]
  · cases ht : order.type <;> simp [sentPrice, ht]

theorem toJson_type (request : OrderRequest) : request.toJson.find? "type" = some (.num (.int request.type.toInt)) := by
  simp only [OrderRequest.toJson, Json.find?]
  rw [Json.lookup_ite_set (by decide), Json.lookup_ite_set (by decide), Json.lookup_ite_set (by decide),
    Json.lookup_ite_set (by decide), Json.lookup_ite_set (by decide), Json.lookup_set_ne (by decide),
    Json.lookup_set_self]

theorem toJson_price (request : OrderRequest) : request.toJson.find? "price" = some request.price.toJson := by
  simp only [OrderRequest.toJson, Json.find?]
  rw [Json.lookup_ite_set (by decide), Json.lookup_ite_set (by decide), Json.lookup_ite_set (by decide),
    Json.lookup_ite_set (by decide), Json.lookup_ite_set (by decide), Json.lookup_set_ne (by decide),
    Json.lookup_set_ne (by decide), Json.lookup_set_ne (by decide), Json.lookup_set_ne (by decide),
    Json.lookup_set_self]

theorem placeOrder_posted (U : JsonUtils) {order : Order} {request : OrderRequest} (h : orderRequest order = .ok request)
    {methodPost methodPost' : Json → Except Fault HttpResponse}
    (hpost : methodPost request.toJson = methodPost' request.toJson) :
    placeOrder U methodPost order = placeOrder U methodPost' order := by
  unfold placeOrder RESTClient.submitOrder
  simp only [bind, Except.bind, monadLift_self, h, hpost]

theorem placeOrder_unsent (U : JsonUtils) {order : Order} {fault : Fault} (h : orderRequest order = .error fault)
    (methodPost : Json → Except Fault HttpResponse) : placeOrder U methodPost order = .error fault := by
  unfold placeOrder
  rw [h]
  rfl

/-! ## The orders whose meaning is kept -/

theorem meaningKept_iff {order : Order} {request : OrderRequest} (h : orderRequest order = .ok request) :
    MeaningKept order request ↔
      order.type = .Limit ∨ order.type = .Market ∧ order.timeInForce ≠ .IOC ∧ order.timeInForce ≠ .FOK := by
  obtain ⟨-, -, htype, hprice⟩ := orderRequest_sent h
  constructor
  · rintro ⟨hmarket, hpriced, hother⟩
    rw [htype] at hmarket hpriced hother
    cases ht : order.type with
    | Limit => exact Or.inl rfl
    | Market =>
      right
      have hm := hmarket ht
      refine ⟨rfl, ?_, ?_⟩
      · intro hf
        simp [sentType, hf] at hm
      · intro hf
        simp [sentType, hf] at hm
    | other v =>
      exfalso
      cases hf : order.timeInForce with
      | IOC => have := (hpriced (by simp [sentType, hf, OrderType.isPriced])).1; rw [ht] at this; cases this
      | FOK => have := (hpriced (by simp [sentType, hf, OrderType.isPriced])).1; rw [ht] at this; cases this
      | other w => exact hother (by rw [ht]; nofun) (by rw [ht]; nofun) (by simp [sentType, hf, baseType, ht])
  · rintro (hl | ⟨hm, hi, hk⟩)
    · refine ⟨fun ht => ?_, fun _ => ⟨hl, ?_⟩, fun _ hn => absurd hl hn⟩
      · rw [hl] at ht; cases ht
      · rw [hprice, sentPrice, if_pos hl]
    · have hsent : request.type = .Market := by
        rw [htype, sentType]
        cases hf : order.timeInForce with
        | IOC => exact absurd hf hi
        | FOK => exact absurd hf hk
        | other v => simp [baseType, hm]
      refine ⟨fun _ => hsent, fun hp => ?_, fun hn => absurd hm hn⟩
      rw [hsent] at hp
      cases hp

def limitOrder : Order :=
  { symbol := "BTC_USDT", side := .Buy, type := .Limit, timeInForce := .IOC, price := .finite 50000
    quantity := .finite 1, customData := .null }

theorem meaningKept_limitOrder :
    MeaningKept limitOrder { symbol := "BTC_USDT", price := .finite 50000, vol := .finite 1, side := .OpenLong,
                             type := .IOC, openType := .Cross } ↔
      limitOrder.type = .Limit ∨
        limitOrder.type = .Market ∧ limitOrder.timeInForce ≠ .IOC ∧ limitOrder.timeInForce ≠ .FOK :=
  meaningKept_iff rfl

/-- A market order that is to be filled at once goes out as a limit order with the price 0. -/
theorem market_sent_as_ioc :
    ∃ request, orderRequest { limitOrder with type := .Market } = .ok request ∧ request.type = .IOC ∧
      request.price = .finite 0 ∧ ¬ MeaningKept { limitOrder with type := .Market } request := by
  refine ⟨_, rfl, rfl, rfl, ?_⟩
  intro h
  cases h.market rfl

end Futures

end MexcApi
