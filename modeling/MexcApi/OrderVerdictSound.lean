import MexcApi.FuturesOrdersSound

/-!
# What the connector makes of the exchange's verdict

An order the exchange rejects is an exception of the REST client, so the
connector does not come to its own branch for it.
-/

namespace MexcApi

open Nlohmann

namespace Futures

/-- The reply to the order submission, as far as the client reads it. -/
structure OrderReply (json : Json) (success : Bool) (code : Int) (data : Json) : Prop where
  success : json.find? "success" = some (.bool success)
  code : json.find? "code" = some (.num (.int code))
  data : json.find? "data" = some data

structure VerdictReported (success : Bool) (code : Int) (data : Json) (outcome : Except Fault Trade) : Prop where
  accepted : success = true → ∀ n, data = .num (.int n) →
    outcome = .ok { orderStatus := .New, customData := .obj [("orderId", .num (.int n))] }
  rejected : success = false →
    outcome = .ok { orderStatus := .Rejected, customData := .obj [("errorCode", .num (.int code))] }

def orderIdOf : Json → Int
  | .num (.int n) => n
  | _ => 0

/-! ## The decoder -/

theorem orderResponse_reply {U : JsonUtils} (hU : U.Lawful) {json data : Json} {success : Bool} {code : Int}
    (h : OrderReply json success code data) :
    OrderResponse.fromJson U json = .ok { code, success, data, orderId := orderIdOf data } := by
  have hcode : U.readValue Json.getInt32 json "code" 0 = .ok code := hU.present _ _ h.code nofun
  have hsuccess : U.readValue Json.getBool json "success" false = .ok success := hU.present _ _ h.success nofun
  have hresponse : Response.fromJson U {} json = .ok { code, success, data } := by
    simp only [Response.fromJson, hcode, hsuccess, h.data]
    rfl
  unfold OrderResponse.fromJson
  rw [hresponse]
  cases data with
  | num n => cases n <;> rfl
  | _ => rfl

theorem placeOrder_reply {U : JsonUtils} (hU : U.Lawful) {order : Order} {request : OrderRequest}
    (hrequest : orderRequest order = .ok request) {methodPost : Json → Except Fault HttpResponse} {body : String}
    {json data : Json} {success : Bool} {code : Int}
    (hpost : methodPost request.toJson = .ok { result := 200, body, json := some json })
    (h : OrderReply json success code data) : placeOrder U methodPost order =
      if success then .ok { orderStatus := .New, customData := .obj [("orderId", .num (.int (orderIdOf data)))] }
      else .error (.runtimeError s!"MEXC API error, code: {code}") := by
  unfold placeOrder RESTClient.submitOrder handleMEXCResponse HttpResponse.parse
  simp only [bind, Except.bind, monadLift_self, hrequest, hpost, checkResponse_ok, orderResponse_reply hU h]
  cases success <;> rfl

/-! ## The verdict -/

/-- The connector never returns a rejected trade, whatever the exchange answers. -/
theorem placeOrder_new {U : JsonUtils} {methodPost : Json → Except Fault HttpResponse} {order : Order} {trade : Trade}
    (h : placeOrder U methodPost order = .ok trade) : trade.orderStatus = .New := by
  unfold placeOrder at h
  obtain ⟨request, -, h⟩ := bind_ok h
  obtain ⟨response, hresponse, h⟩ := bind_ok h
  unfold RESTClient.submitOrder at hresponse
  obtain ⟨reply, -, hresponse⟩ := bind_ok hresponse
  obtain ⟨checked, -, hresponse⟩ := bind_ok hresponse
  have hsuccess : response.success = true := (handleMEXCResponse_returns hresponse).1
  rw [if_pos hsuccess] at h
  cases h
  rfl

theorem verdict_reported_iff {U : JsonUtils} (hU : U.Lawful) {order : Order} {request : OrderRequest}
    (hrequest : orderRequest order = .ok request) {methodPost : Json → Except Fault HttpResponse} {body : String}
    {json data : Json} {success : Bool} {code : Int}
    (hpost : methodPost request.toJson = .ok { result := 200, body, json := some json })
    (h : OrderReply json success code data) :
    (VerdictReported success code data (placeOrder U methodPost order) ↔ success = true) ∧
      ∀ trade, placeOrder U methodPost order = .ok trade → trade.orderStatus ≠ .Rejected := by
  constructor
  · rw [placeOrder_reply hU hrequest hpost h]
    cases success with
    | true =>
      refine iff_of_true ⟨fun _ n hn => ?_, fun hf => by cases hf⟩ rfl
      rw [hn]
      rfl
    | false =>
      refine iff_of_false (fun hv => ?_) (by decide)
      cases hv.rejected rfl
  · intro trade htrade
    rw [placeOrder_new htrade]
    decide

def verdict (success : Bool) (code : Int) (data : Json) : Json :=
  .obj [("code", .num (.int code)), ("data", data), ("success", .bool success)]

theorem verdict_accepted_example :
    (VerdictReported true 0 (.num (.int 7)) (placeOrder (m := Except Fault) JsonUtils.plain
        (fun _ => .ok { result := 200, body := "", json := some (verdict true 0 (.num (.int 7))) }) limitOrder) ↔
      true = true) ∧
    ∀ trade, placeOrder (m := Except Fault) JsonUtils.plain
        (fun _ => .ok { result := 200, body := "", json := some (verdict true 0 (.num (.int 7))) }) limitOrder = .ok trade →
      trade.orderStatus ≠ .Rejected :=
  verdict_reported_iff JsonUtils.plain_lawful rfl rfl ⟨rfl, rfl, rfl⟩

theorem rejection_thrown :
    placeOrder (m := Except Fault) JsonUtils.plain
        (fun _ => .ok { result := 200, body := "", json := some (verdict false 2005 .null) }) limitOrder =
      .error (.runtimeError "MEXC API error, code: 2005") ∧
    ¬ VerdictReported false 2005 .null (placeOrder (m := Except Fault) JsonUtils.plain
        (fun _ => .ok { result := 200, body := "", json := some (verdict false 2005 .null) }) limitOrder) := by
  have hthrown : placeOrder (m := Except Fault) JsonUtils.plain
      (fun _ => .ok { result := 200, body := "", json := some (verdict false 2005 .null) }) limitOrder =
        .error (.runtimeError "MEXC API error, code: 2005") := rfl
  refine ⟨hthrown, fun hv => ?_⟩
  have hrejected := hv.rejected rfl
  rw [hthrown] at hrejected
  cases hrejected

end Futures

end MexcApi
