import MexcApi.FuturesOrdersSound
import MexcApi.OrderBodiesSound

/-!
# What a placed order asks for

An order in the caller's terms, and the request that says the same. The settings
in `customData` are followed as far as they are integers that fit their types.
-/

namespace MexcApi

open Nlohmann

/-- Closing a position is asked for with a flag. -/
def Order.closes (order : Order) : Bool :=
  match order.customData.find? "close" with
  | some (.bool close) => close
  | _ => false

/-- What a setting of `customData` comes to. -/
def Setting {α : Type} (customData : Json) (key : String) (bound : Int) (read : Int → α) (default : Int)
    (value : α) : Prop :=
  (customData.find? key = none → value = read default) ∧
    ∀ n, customData.find? key = some (.num (.int n)) → -bound ≤ n → n < bound → value = read n

/-- The settings can be read and the numbers be written. -/
structure Order.Sendable (order : Order) : Prop where
  close : ∀ v, order.customData.find? "close" = some v → ∃ b, v = .bool b
  openType : ∀ v, order.customData.find? "openType" = some v → (∃ n, v = .num n) ∨ ∃ b, v = .bool b
  leverage : ∀ v, order.customData.find? "leverage" = some v → (∃ n, v = .num n) ∨ ∃ b, v = .bool b
  positionId : ∀ v, order.customData.find? "positionId" = some v → ∃ n, v = .num n
  quantity : order.quantity.isFinite = true
  price : order.type = .Limit → order.price.isFinite = true

namespace Futures

/-- A number that is not positive sets nothing. -/
def positive (n : Int) : Int := if n > 0 then n else 0

def sideOf : Side → Bool → OrderSide
  | .Buy, false => .OpenLong
  | .Buy, true => .CloseShort
  | .Sell, false => .OpenShort
  | .Sell, true => .CloseLong

def limitTypeOf : TimeInForce → OrderType
  | .IOC => .IOC
  | .FOK => .FOK
  | .other _ => .Limit

/-- What the exchange is to take an order for. Nothing is said of the type of a
market order that is to be filled at once or of an order of an unknown type. -/
structure Means (order : Order) (request : OrderRequest) : Prop where
  symbol : request.symbol = order.symbol
  vol : request.vol = order.quantity
  side : request.side = sideOf order.side order.closes
  limit : order.type = .Limit → request.type = limitTypeOf order.timeInForce ∧ request.price = order.price
  market : order.type = .Market → order.timeInForce ≠ .IOC → order.timeInForce ≠ .FOK →
    request.type = .Market ∧ request.price = .finite 0
  openType : Setting order.customData "openType" 2147483648 MarginType.ofInt 2 request.openType
  leverage : Setting order.customData "leverage" 2147483648 positive 0 request.leverage
  positionId : Setting order.customData "positionId" 9223372036854775808 positive 0 request.positionId
  untriggered : request.stopLossPrice = .finite 0 ∧ request.takeProfitPrice = .finite 0
  unnamed : request.externalOid = ""

/-! ## The settings -/

section
variable {α : Type} {get : Json → Except Fault α} {customData : Json} {key : String} {default : α}

theorem readCustom_none (h : customData.find? key = none) : readCustom get customData key default = .ok default := by
  unfold readCustom
  rw [h]

theorem readCustom_some {v : Json} (h : customData.find? key = some v) : readCustom get customData key default = get v := by
  unfold readCustom
  rw [h]

theorem readCustom_ok_iff : (∃ value, readCustom get customData key default = .ok value) ↔
    ∀ v, customData.find? key = some v → ∃ value, get v = .ok value := by
  cases h : customData.find? key with
  | none =>
    rw [readCustom_none h]
    exact iff_of_true ⟨default, rfl⟩ fun v hv => by cases hv
  | some v =>
    rw [readCustom_some h]
    constructor
    · rintro hread v' hv
      cases hv
      exact hread
    · exact fun hread => hread v rfl

end

theorem getBool_ok_iff (v : Json) : (∃ b, v.getBool = .ok b) ↔ ∃ b, v = .bool b := by
  cases v <;> simp [Json.getBool]

theorem getInt64_ok_iff (v : Json) : (∃ n, v.getInt64 = .ok n) ↔ ∃ n, v = .num n := by
  cases v <;> simp [Json.getInt64]

theorem getInt32_ok_iff (v : Json) : (∃ n, v.getInt32 = .ok n) ↔ (∃ n, v = .num n) ∨ ∃ b, v = .bool b := by
  cases v <;> simp [Json.getInt32]

theorem readCustom_setting {get : Json → Except Fault Int} (hget : ∀ n, get (.num (.int n)) = .ok n) {customData : Json}
    {key : String} (bound : Int) {default value : Int} (h : readCustom get customData key default = .ok value) :
    Setting customData key bound positive default (positive value) := by
  refine ⟨fun hnone => ?_, fun n hsome _ _ => ?_⟩
  · rw [readCustom_none hnone] at h
    cases h
    rfl
  · rw [readCustom_some hsome, hget] at h
    cases h
    rfl

/-! ## The request -/

theorem orderRequest_means {order : Order} {request : OrderRequest} (h : orderRequest order = .ok request) :
    Means order request.meaning := by
  obtain ⟨hsymbol, hvol, htype, hprice⟩ := orderRequest_sent h
  unfold orderRequest at h
  obtain ⟨close, hclose, h⟩ := bind_ok h
  obtain ⟨openType, hopenType, h⟩ := bind_ok h
  obtain ⟨leverage, hleverage, h⟩ := bind_ok h
  obtain ⟨positionId, hpositionId, h⟩ := bind_ok h
  cases h
  have hcloses : order.closes = close := by
    unfold Order.closes
    cases hfind : order.customData.find? "close" with
    | none =>
      rw [readCustom_none hfind] at hclose
      cases hclose
      rfl
    | some v =>
      rw [readCustom_some hfind] at hclose
      cases v <;> cases hclose
      rfl
  have hmargin : Setting order.customData "openType" 2147483648 MarginType.ofInt 2 (.ofInt openType.toInt) := by
    refine ⟨fun hnone => ?_, fun n hsome _ _ => ?_⟩
    · rw [readCustom_none hnone] at hopenType
      cases hopenType
      rfl
    · rw [readCustom_some hsome] at hopenType
      cases hopenType
      exact congrArg MarginType.ofInt (MarginType.toInt_ofInt n)
  refine {
    symbol := hsymbol, vol := hvol, side := ?_, limit := fun hlimit => ?_, market := fun hmarket hioc hfok => ?_
    openType := hmargin
    leverage := readCustom_setting (fun _ => rfl) _ hleverage
    positionId := readCustom_setting (fun _ => rfl) _ hpositionId
    untriggered := ⟨rfl, rfl⟩, unnamed := rfl }
  · rw [hcloses]
    cases order.side <;> cases close <;> simp [OrderRequest.meaning, sideOf]
  · refine ⟨htype.trans ?_, hprice.trans (if_pos hlimit)⟩
    cases hforce : order.timeInForce <;> simp [sentType, baseType, limitTypeOf, hforce, hlimit]
  · have hnot : order.type ≠ .Limit := fun h => by
      rw [hmarket] at h
      cases h
    refine ⟨htype.trans ?_, hprice.trans (if_neg hnot)⟩
    cases hforce : order.timeInForce with
    | IOC => exact absurd hforce hioc
    | FOK => exact absurd hforce hfok
    | other value => simp [sentType, baseType, hforce, hmarket]

theorem orderRequest_ok_iff (order : Order) : (∃ request, orderRequest order = .ok request) ↔
    (∃ close, readCustom Json.getBool order.customData "close" false = .ok close) ∧
    (∃ openType, readCustom (fun v => return MarginType.ofInt (← v.getInt32)) order.customData "openType" .Cross =
      .ok openType) ∧
    (∃ leverage, readCustom Json.getInt32 order.customData "leverage" 0 = .ok leverage) ∧
    ∃ positionId, readCustom Json.getInt64 order.customData "positionId" 0 = .ok positionId := by
  unfold orderRequest
  constructor
  · rintro ⟨request, h⟩
    obtain ⟨close, hclose, h⟩ := bind_ok h
    obtain ⟨openType, hopenType, h⟩ := bind_ok h
    obtain ⟨leverage, hleverage, h⟩ := bind_ok h
    obtain ⟨positionId, hpositionId, -⟩ := bind_ok h
    exact ⟨⟨close, hclose⟩, ⟨openType, hopenType⟩, ⟨leverage, hleverage⟩, positionId, hpositionId⟩
  · rintro ⟨⟨close, hclose⟩, ⟨openType, hopenType⟩, ⟨leverage, hleverage⟩, positionId, hpositionId⟩
    rw [hclose, hopenType, hleverage, hpositionId]
    exact ⟨_, rfl⟩

theorem getMargin_ok_iff (v : Json) : (∃ openType, (do return MarginType.ofInt (← v.getInt32)) = Except.ok openType) ↔
    (∃ n, v = .num n) ∨ ∃ b, v = .bool b := by
  rw [← getInt32_ok_iff]
  cases v.getInt32 <;> simp [bind, Except.bind, pure, Except.pure]

/-- An order can be sent when a request is made of it whose prices are numbers. -/
theorem sendable_iff (order : Order) : order.Sendable ↔ ∃ request, orderRequest order = .ok request ∧ request.Numeric := by
  have hprice : ∀ {request}, orderRequest order = .ok request →
      (request.Numeric ↔ order.quantity.isFinite = true ∧ (order.type = .Limit → order.price.isFinite = true)) := by
    intro request h
    obtain ⟨-, hvol, -, hsent⟩ := orderRequest_sent h
    have huntriggered : request.stopLossPrice = .finite 0 ∧ request.takeProfitPrice = .finite 0 := by
      unfold orderRequest at h
      obtain ⟨close, -, h⟩ := bind_ok h
      obtain ⟨openType, -, h⟩ := bind_ok h
      obtain ⟨leverage, -, h⟩ := bind_ok h
      obtain ⟨positionId, -, h⟩ := bind_ok h
      cases h
      exact ⟨rfl, rfl⟩
    unfold OrderRequest.Numeric
    rw [hvol, hsent, huntriggered.1, huntriggered.2]
    by_cases hlimit : order.type = .Limit <;> simp [sentPrice, hlimit, Double.isFinite, and_comm]
  have hsettings := orderRequest_ok_iff order
  simp only [readCustom_ok_iff, getBool_ok_iff, getMargin_ok_iff, getInt32_ok_iff, getInt64_ok_iff] at hsettings
  constructor
  · intro h
    obtain ⟨request, hrequest⟩ := hsettings.mpr ⟨h.close, h.openType, h.leverage, h.positionId⟩
    exact ⟨request, hrequest, (hprice hrequest).mpr ⟨h.quantity, h.price⟩⟩
  · rintro ⟨request, hrequest, hnumeric⟩
    obtain ⟨hclose, hopenType, hleverage, hpositionId⟩ := hsettings.mp ⟨request, hrequest⟩
    obtain ⟨hquantity, hlimit⟩ := (hprice hrequest).mp hnumeric
    exact ⟨hclose, hopenType, hleverage, hpositionId, hquantity, hlimit⟩

end Futures

end MexcApi
