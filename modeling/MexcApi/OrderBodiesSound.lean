import MexcApi.FuturesOrders

/-!
# The body of an order, read back

`OrderRequest::toJson` leaves out what is not set. Whoever reads the body by
its names gets the request back, up to the values which mean that nothing is
set. A price that is no number is the exception: it is dumped as null.
-/

namespace MexcApi

open Nlohmann

/-! ## A reader of bodies -/

namespace Json

def string? : Json → Option String
  | .str s => some s
  | _ => none

def integer? : Json → Option Int
  | .num (.int n) => some n
  | _ => none

def double? : Json → Option Double
  | .num (.float q) => some (.finite q)
  | _ => none

def optional {α : Type} (json : Json) (key : String) (read : Json → Option α) (default : α) : Option α :=
  match json.find? key with
  | some value => read value
  | none => some default

end Json

def Double.isFinite : Double → Bool
  | .finite _ => true
  | _ => false

def OrderSide.ofInt? : Int → Option OrderSide
  | 0 => some unset
  | 1 => some OpenLong
  | 2 => some CloseShort
  | 3 => some OpenShort
  | 4 => some CloseLong
  | _ => none

def OrderType.ofInt? : Int → Option OrderType
  | 0 => some unset
  | 1 => some Limit
  | 2 => some PostOnly
  | 3 => some IOC
  | 4 => some FOK
  | 5 => some Market
  | 6 => some MarketToLimit
  | _ => none

theorem OrderSide.ofInt?_toInt (side : OrderSide) : OrderSide.ofInt? side.toInt = some side := by cases side <;> rfl

theorem OrderType.ofInt?_toInt (type : OrderType) : OrderType.ofInt? type.toInt = some type := by cases type <;> rfl

theorem MarginType.toInt_ofInt (n : Int) : (MarginType.ofInt n).toInt = n := by
  unfold MarginType.ofInt
  split
  · rename_i h
    rw [h]
    rfl
  · split
    · rename_i h
      rw [h]
      rfl
    · rfl

namespace Futures

namespace OrderRequest

/-- The order that a body asks for. -/
def read (body : Json) : Option OrderRequest := do
  let symbol ← Json.string? (← body.find? "symbol")
  let price ← Json.double? (← body.find? "price")
  let vol ← Json.double? (← body.find? "vol")
  let side ← OrderSide.ofInt? (← Json.integer? (← body.find? "side"))
  let type ← OrderType.ofInt? (← Json.integer? (← body.find? "type"))
  let openType ← Json.integer? (← body.find? "openType")
  let leverage ← Json.optional body "leverage" Json.integer? 0
  let positionId ← Json.optional body "positionId" Json.integer? 0
  let externalOid ← Json.optional body "externalOid" Json.string? ""
  let stopLossPrice ← Json.optional body "stopLossPrice" Json.double? (.finite 0)
  let takeProfitPrice ← Json.optional body "takeProfitPrice" Json.double? (.finite 0)
  return {
    symbol, price, vol, leverage, side, type, openType := .ofInt openType, positionId, externalOid, stopLossPrice
    takeProfitPrice }

/-- What a request means: a leverage, a position or a trigger price that is not
positive is none. -/
def meaning (request : OrderRequest) : OrderRequest := { request with
  leverage := if request.leverage > 0 then request.leverage else 0
  openType := .ofInt request.openType.toInt
  positionId := if request.positionId > 0 then request.positionId else 0
  stopLossPrice := if request.stopLossPrice.isPositive then request.stopLossPrice else .finite 0
  takeProfitPrice := if request.takeProfitPrice.isPositive then request.takeProfitPrice else .finite 0 }

/-- Every price that is sent is a number. -/
def Numeric (request : OrderRequest) : Prop :=
  request.price.isFinite ∧ request.vol.isFinite ∧ request.stopLossPrice ≠ .infinite false ∧
    request.takeProfitPrice ≠ .infinite false

instance : DecidablePred Numeric := fun _ => inferInstanceAs (Decidable (_ ∧ _))

end OrderRequest

/-! ## The members of a body -/

theorem lookup_set (key other : String) (v : Json) (kvs : List (String × Json)) :
    (Json.set key v kvs).lookup other = if other = key then some v else kvs.lookup other := by
  by_cases h : other = key
  · rw [if_pos h, h, Json.lookup_set_self]
  · rw [if_neg h, Json.lookup_set_ne h]

theorem lookup_setIf {c : Prop} [Decidable c] (key other : String) (v : Json) (kvs : List (String × Json)) :
    (if c then Json.set key v kvs else kvs).lookup other =
      if c ∧ other = key then some v else kvs.lookup other := by
  by_cases hc : c
  · simp only [hc, if_true, true_and]
    exact lookup_set key other v kvs
  · simp [hc]

namespace OrderRequest

variable (request : OrderRequest)

theorem toJson_required : request.toJson.find? "symbol" = some (.str request.symbol) ∧
    request.toJson.find? "price" = some request.price.toJson ∧ request.toJson.find? "vol" = some request.vol.toJson ∧
    request.toJson.find? "side" = some (.num (.int request.side.toInt)) ∧
    request.toJson.find? "type" = some (.num (.int request.type.toInt)) ∧
    request.toJson.find? "openType" = some (.num (.int request.openType.toInt)) := by
  simp +decide only [OrderRequest.toJson, Json.find?, lookup_set, lookup_setIf, and_true, and_false, if_true, if_false,
    List.lookup_nil]

theorem toJson_optional :
    request.toJson.find? "leverage" = (if request.leverage > 0 then some (.num (.int request.leverage)) else none) ∧
    request.toJson.find? "positionId" = (if request.positionId > 0 then some (.num (.int request.positionId)) else none) ∧
    request.toJson.find? "externalOid" = (if request.externalOid ≠ "" then some (.str request.externalOid) else none) ∧
    request.toJson.find? "stopLossPrice" =
      (if request.stopLossPrice.isPositive then some request.stopLossPrice.toJson else none) ∧
    request.toJson.find? "takeProfitPrice" =
      (if request.takeProfitPrice.isPositive then some request.takeProfitPrice.toJson else none) := by
  simp +decide only [OrderRequest.toJson, Json.find?, lookup_set, lookup_setIf, and_true, and_false, if_false,
    List.lookup_nil]

/-! ## The round trip -/

theorem optional_ite {α : Type} {c : Prop} [Decidable c] {body value : Json} {key : String}
    (h : body.find? key = if c then some value else none) (read : Json → Option α) (default : α) :
    Json.optional body key read default = if c then read value else some default := by
  unfold Json.optional
  rw [h]
  by_cases hc : c
  · simp only [if_pos hc]
  · simp only [if_neg hc]

/-- How a trigger price is read that `toJson` leaves out unless it is positive. -/
def sentTrigger (price : Double) : Option Double :=
  if price = .infinite false then none else some (if price.isPositive then price else .finite 0)

theorem sentTrigger_eq (price : Double) :
    (if price.isPositive then Json.double? price.toJson else some (.finite 0)) = sentTrigger price := by
  unfold sentTrigger
  cases price with
  | finite q =>
    by_cases hq : 0 < q <;> simp [Double.isPositive, Double.toJson, Json.double?, hq]
  | infinite negative => cases negative <;> rfl
  | nan => rfl

theorem read_toJson : read request.toJson = do
    let price ← Json.double? request.price.toJson
    let vol ← Json.double? request.vol.toJson
    let stopLossPrice ← sentTrigger request.stopLossPrice
    let takeProfitPrice ← sentTrigger request.takeProfitPrice
    return { request.meaning with price, vol, stopLossPrice, takeProfitPrice } := by
  obtain ⟨hsymbol, hprice, hvol, hside, htype, hopen⟩ := request.toJson_required
  obtain ⟨hleverage, hposition, hoid, hstop, hprofit⟩ := request.toJson_optional
  have hid : (if request.externalOid ≠ "" then Json.string? (.str request.externalOid) else some "") =
      some request.externalOid := by
    by_cases h : request.externalOid = "" <;> simp [h, Json.string?]
  unfold read
  rw [hsymbol, hprice, hvol, hside, htype, hopen, optional_ite hleverage, optional_ite hposition, optional_ite hoid,
    optional_ite hstop, optional_ite hprofit, sentTrigger_eq, sentTrigger_eq, hid]
  have hint : ∀ n : Int, (if n > 0 then Json.integer? (.num (.int n)) else some 0) = some (if n > 0 then n else 0) := by
    intro n
    by_cases h : n > 0 <;> simp [h, Json.integer?]
  rw [hint, hint]
  simp only [Json.string?, Json.integer?, Option.bind_eq_bind, Option.bind_some, OrderSide.ofInt?_toInt,
    OrderType.ofInt?_toInt]
  rfl

theorem double?_toJson (d : Double) {d' : Double} : Json.double? d.toJson = some d' ↔ d.isFinite ∧ d' = d := by
  cases d with
  | finite q =>
    have hread : Json.double? (Double.finite q).toJson = some (.finite q) := rfl
    rw [hread, Option.some_inj]
    exact ⟨fun h => ⟨rfl, h.symm⟩, fun h => h.2.symm⟩
  | infinite negative => exact iff_of_false (fun h => by cases h) fun h => by cases h.1
  | nan => exact iff_of_false (fun h => by cases h) fun h => by cases h.1

theorem sentTrigger_iff (price : Double) {sent : Double} : sentTrigger price = some sent ↔
    price ≠ .infinite false ∧ sent = if price.isPositive then price else .finite 0 := by
  unfold sentTrigger
  by_cases h : price = .infinite false
  · rw [if_pos h]
    exact iff_of_false (fun h => by cases h) fun hne => hne.1 h
  · rw [if_neg h, Option.some_inj]
    exact ⟨fun heq => ⟨h, heq.symm⟩, fun heq => heq.2.symm⟩

theorem read_iff {request' : OrderRequest} : read request.toJson = some request' ↔
    request.Numeric ∧ request' = request.meaning := by
  rw [read_toJson]
  simp only [Option.bind_eq_bind, Option.bind_eq_some_iff, double?_toJson, sentTrigger_iff, Option.pure_def, Option.some_inj]
  constructor
  · rintro ⟨price, ⟨hprice, rfl⟩, vol, ⟨hvol, rfl⟩, stop, ⟨hstop, rfl⟩, profit, ⟨hprofit, rfl⟩, rfl⟩
    exact ⟨⟨hprice, hvol, hstop, hprofit⟩, rfl⟩
  · rintro ⟨⟨hprice, hvol, hstop, hprofit⟩, rfl⟩
    exact ⟨_, ⟨hprice, rfl⟩, _, ⟨hvol, rfl⟩, _, ⟨hstop, rfl⟩, _, ⟨hprofit, rfl⟩, rfl⟩

theorem toJson_meaning : request.meaning.toJson = request.toJson := by
  have hopen : request.meaning.openType.toInt = request.openType.toInt := MarginType.toInt_ofInt _
  have hint : ∀ n : Int, (if n > 0 then n else 0) > 0 ↔ n > 0 := by
    intro n
    by_cases h : n > 0 <;> simp [h]
  have htrigger : ∀ price : Double, (if price.isPositive then price else Double.finite 0).isPositive = price.isPositive := by
    intro price
    by_cases h : price.isPositive = true
    · rw [if_pos h]
    · rw [if_neg h, Bool.eq_false_iff.mpr h]
      rfl
  unfold OrderRequest.toJson
  dsimp only
  rw [hopen]
  simp only [meaning, hint, htrigger]
  by_cases hleverage : request.leverage > 0 <;> by_cases hposition : request.positionId > 0 <;>
    by_cases hstop : request.stopLossPrice.isPositive = true <;>
    by_cases hprofit : request.takeProfitPrice.isPositive = true <;> simp [hleverage, hposition, hstop, hprofit]

/-- The body is read as the meaning, and bodies are the same exactly when the
meanings are. -/
theorem body_readBack : (∀ request', read request.toJson = some request' ↔ request.Numeric ∧ request' = request.meaning) ∧
    ∀ other : OrderRequest, request.Numeric ∧ other.toJson = request.toJson ↔
      request.Numeric ∧ other.Numeric ∧ other.meaning = request.meaning := by
  refine ⟨fun request' => request.read_iff, fun other => and_congr_right fun hnumeric => ?_⟩
  constructor
  · intro hbody
    have hread : read other.toJson = some request.meaning := by
      rw [hbody]
      exact request.read_iff.mpr ⟨hnumeric, rfl⟩
    obtain ⟨hother, hmeaning⟩ := other.read_iff.mp hread
    exact ⟨hother, hmeaning.symm⟩
  · rintro ⟨-, hmeaning⟩
    rw [← other.toJson_meaning, hmeaning, request.toJson_meaning]

end OrderRequest

end Futures

end MexcApi
