import MexcApi.DecodersSound
import MexcApi.Replies

/-!
# Failures and the futures methods

Every method looks at `success` before it returns anything, so all that
escapes is a read that is undefined.
-/

namespace MexcApi

open Nlohmann

namespace Futures

def ReportsFailure (json : Json) : Prop :=
  json.find? "success" = none ∨ json.find? "success" = some (.bool false)

/-! ## The decoders -/

/-- Every value the computation returns was built from the response. -/
def Carries {α : Type} (toResponse : α → Response) (response : Response) (x : Except Fault α) : Prop :=
  ∀ value, x = .ok value → toResponse value = response

section
variable {α β : Type} {toResponse : α → Response} {response : Response}

theorem Carries.bind {x : Except Fault β} {f : β → Except Fault α} (h : ∀ b, Carries toResponse response (f b)) :
    Carries toResponse response (x >>= f) := by
  intro value hvalue
  obtain ⟨b, -, hb⟩ := bind_ok hvalue
  exact h b value hb

theorem Carries.pure {value : α} (h : toResponse value = response) :
    Carries toResponse response (Pure.pure value) := by
  intro value' hvalue
  cases hvalue
  exact h

theorem Carries.keeps {U : JsonUtils} {rest : Response → Except Fault α}
    (hcarries : ∀ response, Carries toResponse response (rest response)) {json : Json} {value : α}
    (h : Response.fromJson U {} json >>= rest = .ok value) : Response.fromJson U {} json = .ok (toResponse value) := by
  obtain ⟨response, hr, hvalue⟩ := bind_ok h
  rw [hcarries response _ hvalue, hr]

/-- A decoder that reads the response first, keeps it, and always ends. -/
structure Decoder (U : JsonUtils) (fromJson : Json → Except Fault α) (toResponse : α → Response) : Prop where
  defined : ∀ json, Defined (fromJson json)
  response : ∀ {json value}, fromJson json = .ok value → Response.fromJson U {} json = .ok (toResponse value)

theorem Decoder.of_rest {U : JsonUtils} (hU : U.Exact) {rest : Response → Except Fault α}
    (hdefined : ∀ response, Defined (rest response)) (hcarries : ∀ response, Carries toResponse response (rest response)) :
    Decoder U (fun json => Response.fromJson U {} json >>= rest) toResponse where
  defined json := (defined_bind _ _).mpr ⟨defined_response hU {} json, fun response _ => hdefined response⟩
  response := Carries.keeps hcarries

end

section
variable {U : JsonUtils} (hU : U.Exact)
include hU

theorem defined_readDecimal (json : Json) (key : String) : Defined (readDecimal U json key) := by
  unfold readDecimal
  split
  · exact defined_ok _
  · exact hU.readDecimalValue json key

theorem serverTime_decoder : Decoder U (ServerTime.fromJson U) ServerTime.toResponse := by
  refine .of_rest hU (fun response => ?_) fun response => .bind fun _ => .pure rfl
  simp

theorem fundingRate_decoder : Decoder U (ContractFundingRate.fromJson U) ContractFundingRate.toResponse := by
  refine .of_rest hU (fun response => ?_) fun response => ?_
  · simp [hU.defined_readValue, defined_readDecimal hU]
  · iterate 7 refine .bind fun _ => ?_
    exact .pure rfl

theorem fundingRates_decoder : Decoder U (ContractFundingRates.fromJson U) ContractFundingRates.toResponse := by
  refine .of_rest hU (fun response => ?_) fun response => .bind fun _ => .pure rfl
  simp only [defined_bind, defined_pure, implies_true, and_true]
  exact defined_mapM fun el _ => (fundingRate_decoder hU).defined _

theorem walletBalance_decoder : Decoder U (WalletBalance.fromJson U) WalletBalance.toResponse := by
  refine .of_rest hU (fun response => ?_) fun response => ?_
  · simp [hU.defined_readValue, hU.readDecimalValue]
  · iterate 8 refine .bind fun _ => ?_
    exact .pure rfl

theorem ticker_decoder : Decoder U (Ticker.fromJson U) Ticker.toResponse := by
  refine .of_rest hU (fun response => ?_) fun response => ?_
  · simp [hU.defined_readValue, defined_readDecimal hU]
  · iterate 8 refine .bind fun _ => ?_
    exact .pure rfl

theorem openPositions_decoder : Decoder U (OpenPositions.fromJson U) OpenPositions.toResponse := by
  refine .of_rest hU (fun response => ?_) fun response => .bind fun _ => .pure rfl
  simp only [defined_bind, defined_pure, implies_true, and_true]
  refine defined_mapM fun item _ => ?_
  simp [OpenPosition.fromJson, hU.defined_readValue, defined_readDecimal hU]

theorem cancelOrderResponse_decoder : Decoder U (CancelOrderResponse.fromJson U) CancelOrderResponse.toResponse := by
  refine .of_rest hU (fun response => ?_) fun response => .bind fun _ => .pure rfl
  simp only [defined_bind, defined_pure, implies_true, and_true]
  refine defined_mapM fun item _ => ?_
  simp [hU.defined_readValue]

theorem contractDetails_decoder : Decoder U (ContractDetails.fromJson U) ContractDetails.toResponse := by
  refine .of_rest hU (fun response => ?_) fun response => .bind fun _ => .pure rfl
  simp only [defined_bind, defined_pure, implies_true, and_true]
  refine defined_mapM fun item _ => ?_
  simp [ContractDetail.fromJson, hU.defined_readValue]

theorem historicalFundingRates_decoder :
    Decoder U (HistoricalFundingRates.fromJson U) HistoricalFundingRates.toResponse := by
  refine .of_rest hU (fun response => ?_) fun response => ?_
  · have hrate : ∀ item, Defined (HistoricalFundingRate.fromJson U item) := by
      intro item
      simp [HistoricalFundingRate.fromJson, hU.defined_readValue, defined_readDecimal hU]
    simp only [defined_bind, hU.defined_readValue, Json.defined_getInt32, implies_true, true_and]
    intro _ _ _ _ _ _ _ _
    split
    · refine (defined_bind _ _).mpr ⟨defined_mapM fun item _ => hrate item, fun _ _ => defined_pure _⟩
    · exact defined_pure _
  · iterate 4 refine .bind fun _ => ?_
    dsimp only
    split
    · exact .bind fun _ => .pure rfl
    · exact .bind fun _ => .pure rfl

omit hU in
theorem candles_response {json : Json} {value : Candles} :
    Candles.fromJson U json = .ok value → Response.fromJson U {} json = .ok value.toResponse := by
  refine Carries.keeps fun response => ?_
  dsimp only
  split
  · exact .pure rfl
  · split
    · exact .pure rfl
    · iterate 7 refine .bind fun _ => ?_
      exact .pure rfl

theorem orderResponse_decoder : Decoder U (OrderResponse.fromJson U) OrderResponse.toResponse := by
  refine .of_rest hU (fun response => ?_) fun response => ?_
  · exact .ite (by simp) (by simp)
  · by_cases hdata : response.data.isNumberInteger = true
    · simp only [hdata, ite_true]
      exact .bind fun _ => .pure rfl
    · simp only [hdata]
      exact .pure rfl

end

/-! ## The methods with one request -/

theorem response_unsuccessful {U : JsonUtils} (hU : U.Exact) {json : Json} (h : ReportsFailure json) {self : Response}
    (hself : Response.fromJson U {} json = .ok self) : self.success = false := by
  have hread := (response_ok hself).1.2
  rcases h with habsent | hfalse
  · rw [hU.absent Json.getBool false habsent] at hread
    exact (Except.ok.inj hread).symm
  · rw [hU.present Json.getBool false hfalse (fun h => by cases h)] at hread
    exact (Except.ok.inj hread).symm

section
variable {U : JsonUtils} (hU : U.Exact) {α : Type} {fromJson : Json → Except Fault α} {toResponse : α → Response}
  {response : HttpResponse} {json : Json} (hjson : response.json = some json)
include hU hjson

theorem not_returned
    (hresponse : ∀ {value}, fromJson json = .ok value → Response.fromJson U {} json = .ok (toResponse value))
    (h : ReportsFailure json) {value : α} : handleMEXCResponse fromJson toResponse response ≠ .ok value := by
  unfold handleMEXCResponse
  rw [parse_eq hjson, ok_bind]
  cases hvalue : fromJson json with
  | error e => simp [bind, Except.bind]
  | ok value =>
    have hsuccess := response_unsuccessful hU h (hresponse hvalue)
    simp [bind, Except.bind, hsuccess, throw, throwThe, MonadExceptOf.throw]

theorem handleMEXCResponse_throws_iff
    (hresponse : ∀ {value}, fromJson json = .ok value → Response.fromJson U {} json = .ok (toResponse value))
    (h : ReportsFailure json) : Throws (handleMEXCResponse fromJson toResponse response) ↔ Defined (fromJson json) := by
  have hdefined : Defined (handleMEXCResponse fromJson toResponse response) ↔ Defined (fromJson json) := by
    unfold handleMEXCResponse
    rw [parse_eq hjson, ok_bind, defined_bind]
    refine and_iff_left fun value _ => ?_
    cases hsuccess : (toResponse value).success <;> simp [throw, throwThe, MonadExceptOf.throw]
  rw [throws_iff, hdefined]
  exact and_iff_left fun value => not_returned hU hjson hresponse h

theorem Decoder.throws (hdecoder : Decoder U fromJson toResponse) (h : ReportsFailure json) :
    Throws (handleMEXCResponse fromJson toResponse response) :=
  (handleMEXCResponse_throws_iff hU hjson hdecoder.response h).mpr (hdecoder.defined json)

theorem Query.send_throws (h : response.result ≠ 200 ∨ ReportsFailure json) (query : Query) :
    Throws (query.send U fun _ => .ok response) := by
  have hreports : response.result = 200 → ReportsFailure json := h.resolve_left ∘ not_not.mpr
  have handled : ∀ {α : Type} {fromJson : Json → Except Fault α} {toResponse : α → Response}, Decoder U fromJson toResponse →
      response.result = 200 → Throws (handleMEXCResponse fromJson toResponse response) :=
    fun hdecoder hresult => hdecoder.throws hU hjson (hreports hresult)
  cases query with
  | getServerTime =>
    exact throws_ending.mpr (throws_checked fun hresult => throws_bind_pure.mpr (handled (serverTime_decoder hU) hresult))
  | getContractDetails symbol =>
    exact throws_ending.mpr (throws_checked fun hresult =>
      throws_bind_pure.mpr (handled (contractDetails_decoder hU) hresult))
  | getContractFundingRate contract =>
    exact throws_ending.mpr (throws_checked (handled (fundingRate_decoder hU)))
  | getContractFundingRates =>
    exact throws_ending.mpr (throws_checked fun hresult => throws_bind_pure.mpr (handled (fundingRates_decoder hU) hresult))
  | getContractFundingRateHistory symbol pageNum pageSize =>
    exact throws_ending.mpr (throws_checked (handled (historicalFundingRates_decoder hU)))
  | getWalletBalance currency =>
    exact throws_ending.mpr (throws_checked (handled (walletBalance_decoder hU)))
  | getContractTicker symbol =>
    exact throws_ending.mpr (throws_checked (handled (ticker_decoder hU)))
  | getOpenPositions symbol =>
    exact throws_ending.mpr (throws_checked fun hresult => throws_bind_pure.mpr (handled (openPositions_decoder hU) hresult))
  | submitOrder request =>
    exact throws_ending.mpr (throws_checked (handled (orderResponse_decoder hU)))
  | cancelOrders orderIds =>
    exact throws_ending.mpr (throws_checked (handled (cancelOrderResponse_decoder hU)))

end

/-! ## The download -/

/-- What a request of the download makes of its reply. -/
def klinesOf (U : JsonUtils) (response : HttpResponse) : Except Fault (List Candle) := do
  let candles ← handleMEXCResponse (Candles.fromJson U) Candles.toResponse (← checkResponse response)
  return candles.candles

theorem fetch_reply (U : JsonUtils) (reply : Except Fault HttpResponse) (symbol : String) (interval : CandleInterval)
    (startTime endTime : Int) :
    RESTClient.P.getHistoricalPrices U (fun _ => reply) symbol interval startTime endTime = reply >>= klinesOf U := by
  cases reply with
  | error e => rfl
  | ok response =>
    unfold RESTClient.P.getHistoricalPrices klinesOf
    cases checkResponse response <;> rfl

theorem ends_iff (U : JsonUtils) (replies : Nat → Except Fault HttpResponse) (symbol : String) (interval : CandleInterval)
    (startTime endTime : Int) (e : Fault) :
    (Endpoint.futuresHistoricalPrices symbol interval startTime endTime).Ends U replies (.error e) ↔
      ∃ fuel, Loop.runFrom (RESTClient.batch U (fun k _ => replies k) symbol interval startTime) fuel
        (RESTClient.start U (fun k _ => replies k) symbol interval startTime endTime) = some (.error e) := by
  refine exists_congr fun fuel => map_ending_iff.trans ?_
  unfold RESTClient.getHistoricalPrices
  cases RESTClient.start U (fun k _ => replies k) symbol interval startTime endTime <;> rfl

section
variable (U : JsonUtils) (symbol : String) (interval : CandleInterval) (startTime : Int)

theorem start_oneRequest (endTime : Int) : OneRequest (klinesOf U) fun replies =>
    RESTClient.start U (fun k _ => replies k) symbol interval startTime endTime := by
  unfold RESTClient.start
  simp only [fetch_reply]
  by_cases hrange : startTime < endTime
  · simp only [if_pos hrange]
    exact Or.inr ⟨0, _, fun _ => rfl⟩
  · exact Or.inl ⟨_, fun _ => if_neg hrange⟩

theorem batch_oneRequest (s : RESTClient.History) : OneRequest (klinesOf U) fun replies =>
    RESTClient.batch U (fun k _ => replies k) symbol interval startTime s := by
  unfold RESTClient.batch
  cases s.candles with
  | nil => exact Or.inl ⟨_, fun _ => rfl⟩
  | cons oldest rest =>
    simp only [fetch_reply]
    by_cases hmore : startTime < oldest.openTime.tdiv 1000 - 1
    · simp only [if_pos hmore]
      exact Or.inr ⟨s.requests, _, fun _ => rfl⟩
    · exact Or.inl ⟨_, fun _ => if_neg hmore⟩

end

section
variable {U : JsonUtils} (hU : U.Exact) {response : HttpResponse} {json : Json} (hjson : response.json = some json)
  (h : response.result ≠ 200 ∨ ReportsFailure json)
include hU hjson h

theorem klinesOf_throws_iff : Throws (klinesOf U response) ↔ ¬ (response.result = 200 ∧ RaggedReply U json) := by
  have hassoc : klinesOf U response = checkResponse response >>= fun response =>
      handleMEXCResponse (Candles.fromJson U) Candles.toResponse response >>= fun candles => pure candles.candles := by
    unfold klinesOf
    cases checkResponse response <;> rfl
  rw [hassoc]
  refine throws_checked_iff fun hresult => throws_bind_pure.trans ?_
  rw [← candles_defined_iff hU]
  exact handleMEXCResponse_throws_iff hU hjson candles_response (h.resolve_left (not_not.mpr hresult))

theorem klinesOf_fails : ∃ f, klinesOf U response = .error f := by
  cases hcandles : klinesOf U response with
  | error f => exact ⟨f, rfl⟩
  | ok candles =>
    obtain ⟨response', hchecked, hcandles⟩ := bind_ok hcandles
    obtain ⟨value, hvalue, -⟩ := bind_ok hcandles
    obtain ⟨hresult, rfl⟩ := checked_ok hchecked
    exact (not_returned hU hjson candles_response (h.resolve_left (not_not.mpr hresult)) hvalue).elim

end

end Futures

end MexcApi
