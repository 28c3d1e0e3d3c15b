import MexcApi.EndpointsSound

/-!
# When a call is undefined

The accesses that are not checked are in the decoders, so a call runs into one
exactly when it gets to a reply with a body of the wrong shape. For each
endpoint method it is said which bodies these are; most have none.
-/

namespace MexcApi

open Nlohmann

/-! ## Computations that only raise what a reply does -/

/-- As `OneRequest`, where nothing but the request and its reply raises anything. -/
def OnlyRequest {α β : Type} (decode : HttpResponse → Except Fault β)
    (step : (Nat → Except Fault HttpResponse) → Except Fault α) : Prop :=
  (∃ a, ∀ replies, step replies = .ok a) ∨
    ∃ (k : Nat) (rest : β → α), ∀ replies, step replies = (replies k >>= decode).map rest

section
variable {α β : Type} {decode : HttpResponse → Except Fault β} {replies : Nat → Except Fault HttpResponse}

theorem OnlyRequest.of_bind {step : (Nat → Except Fault HttpResponse) → Except Fault α} (k : Nat) (rest : β → α)
    (h : ∀ replies, step replies = replies k >>= decode >>= fun b => pure (rest b)) : OnlyRequest decode step := by
  refine Or.inr ⟨k, rest, fun replies => ?_⟩
  rw [h]
  cases replies k >>= decode <;> rfl

theorem OnlyRequest.raising {step : (Nat → Except Fault HttpResponse) → Except Fault α} (h : OnlyRequest decode step)
    (replies : Nat → Except Fault HttpResponse) (n : Nat) :
    (∀ e, step (Function.update replies n (.error e)) = step replies) ∨
      ∀ e, step (Function.update replies n (.error e)) = .error e := by
  rcases h with ⟨a, ha⟩ | ⟨k, rest, hstep⟩
  · exact Or.inl fun e => by rw [ha, ha]
  · by_cases hk : k = n
    · subst hk
      refine Or.inr fun e => ?_
      rw [hstep, Function.update_self]
      rfl
    · refine Or.inl fun e => ?_
      rw [hstep, hstep, Function.update_of_ne hk]

theorem OnlyRequest.error {step : (Nat → Except Fault HttpResponse) → Except Fault α} (h : OnlyRequest decode step)
    {f : Fault} (hf : step replies = .error f) :
    ∃ k, replies k >>= decode = .error f ∧ ∀ e, step (Function.update replies k (.error e)) = .error e := by
  rcases h with ⟨a, ha⟩ | ⟨k, rest, hstep⟩
  · rw [ha] at hf
    cases hf
  · refine ⟨k, ?_, fun e => ?_⟩
    · rw [hstep] at hf
      cases hk : replies k >>= decode with
      | error g =>
        rw [hk] at hf
        cases hf
        rfl
      | ok b =>
        rw [hk] at hf
        cases hf
    · rw [hstep, Function.update_self]
      rfl

/-- The loop ends with what a reply raises, and had to ask for that reply. -/
theorem run_asked {σ ρ : Type} {batch : (Nat → Except Fault HttpResponse) → σ → Except Fault (Loop.Flow σ ρ)}
    (hbatch : ∀ s, OnlyRequest decode fun replies => batch replies s) {f : Fault} : ∀ {n : Nat} {s : σ},
    Loop.run (batch replies) n s = some (.error f) → ∃ k, replies k >>= decode = .error f ∧
      ∀ e, Loop.Returns (batch (Function.update replies k (.error e))) s (.error e)
  | 0, _, h => by cases h
  | n + 1, s, h => by
    unfold Loop.run at h
    cases hs : batch replies s with
    | error g =>
      rw [hs] at h
      cases h
      obtain ⟨k, hk, hraises⟩ := (hbatch s).error hs
      exact ⟨k, hk, fun e => ⟨1, by simp [Loop.run, hraises e]⟩⟩
    | ok flow =>
      rw [hs] at h
      cases flow with
      | stop r => cases h
      | next s' =>
        obtain ⟨k, hk, hreturns⟩ := run_asked hbatch h
        refine ⟨k, hk, fun e => ?_⟩
        rcases (hbatch s).raising replies k with hsame | hraises
        · exact .next _ ((hsame e).trans hs) (hreturns e)
        · exact ⟨1, by simp [Loop.run, hraises e]⟩

theorem runFrom_asked {σ ρ : Type} {start : (Nat → Except Fault HttpResponse) → Except Fault σ}
    {batch : (Nat → Except Fault HttpResponse) → σ → Except Fault (Loop.Flow σ ρ)} (hstart : OnlyRequest decode start)
    (hbatch : ∀ s, OnlyRequest decode fun replies => batch replies s) {f : Fault} {n : Nat}
    (h : Loop.runFrom (batch replies) n (start replies) = some (.error f)) : ∃ k, replies k >>= decode = .error f ∧
      ∀ e, ∃ m, Loop.runFrom (batch (Function.update replies k (.error e))) m
        (start (Function.update replies k (.error e))) = some (.error e) := by
  cases hs : start replies with
  | error g =>
    rw [hs] at h
    cases h
    obtain ⟨k, hk, hraises⟩ := hstart.error hs
    refine ⟨k, hk, fun e => ⟨0, ?_⟩⟩
    rw [hraises]
    rfl
  | ok s =>
    rw [hs] at h
    obtain ⟨k, hk, hreturns⟩ := run_asked hbatch h
    refine ⟨k, hk, fun e => ?_⟩
    rcases hstart.raising replies k with hsame | hraises
    · obtain ⟨m, hm⟩ := hreturns e
      refine ⟨m, ?_⟩
      rw [hsame, hs]
      exact hm
    · refine ⟨0, ?_⟩
      rw [hraises]
      rfl

theorem OnlyRequest.oneRequest {step : (Nat → Except Fault HttpResponse) → Except Fault α} (h : OnlyRequest decode step) :
    OneRequest decode step := by
  rcases h with ⟨a, ha⟩ | ⟨k, rest, hstep⟩
  · exact Or.inl ⟨_, ha⟩
  · refine Or.inr ⟨k, fun b => .ok (rest b), fun replies => ?_⟩
    rw [hstep]
    cases replies k >>= decode <;> rfl

end

/-! ## The downloads -/

namespace Endpoint

/-- A download ends with a fault exactly when it asks for a reply that raises it. -/
theorem download_raises_iff {σ ρ β : Type} {U : JsonUtils} {endpoint : Endpoint} {decode : HttpResponse → Except Fault β}
    {start : (Nat → Except Fault HttpResponse) → Except Fault σ}
    {batch : (Nat → Except Fault HttpResponse) → σ → Except Fault (Loop.Flow σ ρ)}
    (hends : ∀ replies e, endpoint.Ends U replies (.error e) ↔
      ∃ fuel, Loop.runFrom (batch replies) fuel (start replies) = some (.error e))
    (hstart : OnlyRequest decode start) (hbatch : ∀ s, OnlyRequest decode fun replies => batch replies s)
    {replies : Nat → Except Fault HttpResponse} {f : Fault} (hreplies : ∀ n, replies n ≠ .error f) :
    endpoint.Ends U replies (.error f) ↔
      ∃ n response, endpoint.Asks U replies n ∧ replies n = .ok response ∧ decode response = .error f := by
  constructor
  · intro h
    obtain ⟨fuel, hrun⟩ := (hends ..).mp h
    obtain ⟨k, hk, hasked⟩ := runFrom_asked hstart hbatch hrun
    have hasks : endpoint.Asks U replies k := fun e => (hends ..).mpr (hasked e)
    cases hreply : replies k with
    | error e =>
      rw [hreply] at hk
      cases hk
      exact absurd hreply (hreplies k)
    | ok response =>
      rw [hreply] at hk
      exact ⟨k, response, hasks, hreply, hk⟩
  · rintro ⟨n, response, hasks, hreply, hfails⟩
    have hfirst := (hstart.oneRequest.raising hreply hfails).imp_right And.right
    exact (hends ..).mpr (Loop.runFrom_of_raising hfirst (fun s => (hbatch s).oneRequest.raising hreply hfails)
      fun e => (hends ..).mp (hasks e))

end Endpoint

namespace Spot

section
variable (U : JsonUtils) (symbol : String) (interval : CandleInterval) (startTime : Int) (limit : Nat)

theorem start_onlyRequest (endTime : Int) : OnlyRequest (klinesOf U) fun replies =>
    RESTClient.start U (fun k _ => replies k) symbol interval startTime limit endTime := by
  unfold RESTClient.start
  simp only [fetch_reply, ite_self]
  by_cases hrange : startTime ≤ endTime
  · simp only [if_pos hrange]
    exact .of_bind 0 _ fun _ => rfl
  · exact Or.inl ⟨_, fun _ => if_neg hrange⟩

theorem batch_onlyRequest (s : RESTClient.History) : OnlyRequest (klinesOf U) fun replies =>
    RESTClient.batch U (fun k _ => replies k) symbol interval startTime limit s := by
  unfold RESTClient.batch
  cases s.candles with
  | nil => exact Or.inl ⟨_, fun _ => rfl⟩
  | cons oldest rest =>
    simp only [fetch_reply]
    by_cases hmore : startTime ≤ oldest.openTime - interval.numberOfMsForCandleInterval
    · simp only [if_pos hmore]
      exact .of_bind s.requests _ fun _ => rfl
    · exact Or.inl ⟨_, fun _ => if_neg hmore⟩

end

end Spot

namespace Futures

section
variable (U : JsonUtils) (symbol : String) (interval : CandleInterval) (startTime : Int)

theorem start_onlyRequest (endTime : Int) : OnlyRequest (klinesOf U) fun replies =>
    RESTClient.start U (fun k _ => replies k) symbol interval startTime endTime := by
  unfold RESTClient.start
  simp only [fetch_reply]
  by_cases hrange : startTime < endTime
  · simp only [if_pos hrange]
    exact .of_bind 0 _ fun _ => rfl
  · exact Or.inl ⟨_, fun _ => if_neg hrange⟩

theorem batch_onlyRequest (s : RESTClient.History) : OnlyRequest (klinesOf U) fun replies =>
    RESTClient.batch U (fun k _ => replies k) symbol interval startTime s := by
  unfold RESTClient.batch
  cases s.candles with
  | nil => exact Or.inl ⟨_, fun _ => rfl⟩
  | cons oldest rest =>
    simp only [fetch_reply]
    by_cases hmore : startTime < oldest.openTime.tdiv 1000 - 1
    · simp only [if_pos hmore]
      exact .of_bind s.requests _ fun _ => rfl
    · exact Or.inl ⟨_, fun _ => if_neg hmore⟩

end

end Futures

/-! ## One reply -/

section
variable {α : Type} {response : HttpResponse}

theorem undefined_checked_iff {f : HttpResponse → Except Fault α} :
    ¬ Defined (checkResponse response >>= f) ↔ response.result = 200 ∧ ¬ Defined (f response) := by
  by_cases hresult : response.result = 200
  · rw [checkResponse_ok hresult, ok_bind]
    simp [hresult]
  · unfold checkResponse
    rw [if_pos hresult]
    exact iff_of_false (fun h => h fun h => by cases h) fun h => hresult h.1

theorem undefined_parse_iff {f : Json → Except Fault α} :
    ¬ Defined (response.parse >>= f) ↔ ∃ json, response.json = some json ∧ ¬ Defined (f json) := by
  unfold HttpResponse.parse
  cases response.json with
  | none => simp [bind, Except.bind]
  | some json => simp [bind, Except.bind]

theorem defined_bind_pure {β : Type} {x : Except Fault α} {g : α → β} : Defined (x >>= fun a => pure (g a)) ↔ Defined x := by
  simp

theorem defined_ending {x : Except Fault α} : Defined (ending x) ↔ Defined x := defined_map _ x

end

namespace Spot

theorem undefined_handled_iff {α : Type} {fromJson : Json → Except Fault α} {toResponse : α → Response}
    {response : HttpResponse} : ¬ Defined (handleMEXCResponse fromJson toResponse response) ↔
      ∃ json, response.json = some json ∧ ¬ Defined (fromJson json) := by
  unfold handleMEXCResponse
  rw [undefined_parse_iff]
  refine exists_congr fun json => and_congr_right fun _ => not_congr ?_
  rw [defined_bind]
  refine and_iff_left fun value _ => ?_
  by_cases hzero : (toResponse value).code = 0
  · simp [hzero]
  · simp [hzero, throw, throwThe, MonadExceptOf.throw]

/-- What `TickerPrice::fromJson` decodes. -/
def PriceEntry (U : JsonUtils) (json : Json) : Prop :=
  ReadsResponse U json ∧ Reads U Json.getString "symbol" "" json ∧ PriceAt U json

/-- An unchecked access misses: the entry without a price, in an array after
entries that decode, or the missing list of listen keys. -/
def Query.Malformed (U : JsonUtils) (json : Json) : Query → Prop
  | .getTickerPrice _ => NoPrice U json ∨ ∃ before el after, json = .arr (before ++ el :: after) ∧
    (∀ entry ∈ before, PriceEntry U entry) ∧ NoPrice U el
  | .getListenKeys => NoListenKeys U json
  | _ => False

section
variable {U : JsonUtils} (hU : U.Exact)
include hU

theorem prices_undefined_iff {items : List Json} : ¬ Defined (items.mapM (TickerPrice.fromJson U)) ↔
    ∃ before el after, items = before ++ el :: after ∧ (∀ entry ∈ before, PriceEntry U entry) ∧ NoPrice U el := by
  have hprice : ∀ el, TickerPrice.fromJson U el = .error .undefined ↔ NoPrice U el :=
    fun el => not_iff_not.mp (tickerPrice_defined_iff hU el)
  unfold Defined
  rw [not_not, mapM_undefined]
  simp only [tickerPrice_ok_iff, hprice]
  rfl

theorem Query.undefined_send_iff (response : HttpResponse) (query : Query) :
    ¬ Defined (query.send U fun _ => .ok response) ↔
      response.result = 200 ∧ ∃ json, response.json = some json ∧ query.Malformed U json := by
  cases query with
  | getServerTime =>
    have hdefined : ∀ json, Defined (ServerTime.fromJson U json) := by
      intro json
      simp [ServerTime.fromJson, defined_response hU, hU.defined_readValue]
    refine (not_congr defined_ending).trans (undefined_checked_iff.trans
      (and_congr_right fun _ => undefined_parse_iff.trans ?_))
    refine exists_congr fun json => and_congr_right fun _ => ?_
    rw [defined_bind_pure]
    exact iff_of_false (not_not.mpr (hdefined json)) not_false
  | getTickerPrice symbol =>
    refine (not_congr defined_ending).trans (undefined_checked_iff.trans
      (and_congr_right fun _ => undefined_parse_iff.trans ?_))
    refine exists_congr fun json => and_congr_right fun _ => ?_
    cases json with
    | obj kvs =>
      have hone : ∀ before el after, Json.obj kvs ≠ .arr (before ++ el :: after) := fun _ _ _ h => by cases h
      have hbody : Defined (TickerPrice.fromJson U (.obj kvs) >>= fun price => pure [price]) ↔ ¬ NoPrice U (.obj kvs) :=
        defined_bind_pure.trans (tickerPrice_defined_iff hU _)
      refine (not_congr hbody).trans (not_not.trans ?_)
      simp [Malformed, hone]
    | arr items =>
      have hprice : ¬ NoPrice U (.arr items) := fun h => by cases h.1.1
      refine (prices_undefined_iff hU).trans ?_
      simp [Malformed, hprice]
    | _ =>
      refine iff_of_false (not_not.mpr (defined_ok _)) ?_
      rintro (h | ⟨before, el, after, h, -⟩)
      · cases h.1.1
      · cases h
  | getListenKeys =>
    refine (not_congr defined_ending).trans (undefined_checked_iff.trans
      (and_congr_right fun _ => undefined_handled_iff.trans ?_))
    refine exists_congr fun json => and_congr_right fun _ => ?_
    rw [listenKeys_defined_iff hU, not_not]
    rfl
  | getListenKey | renewListenKey _ | closeListenKey _ =>
    have hdefined : ∀ json, Defined (ListenKey.fromJson U json) := by
      intro json
      simp [ListenKey.fromJson, defined_response hU, hU.defined_readValue]
    refine (not_congr defined_ending).trans (undefined_checked_iff.trans (and_congr_right fun _ => ?_))
    simp only [monadLift_self]
    rw [defined_bind_pure, undefined_handled_iff]
    exact exists_congr fun json => and_congr_right fun _ => iff_of_false (not_not.mpr (hdefined json)) not_false

end

end Spot

namespace Futures

theorem undefined_handled_iff {α : Type} {fromJson : Json → Except Fault α} {toResponse : α → Response}
    {response : HttpResponse} : ¬ Defined (handleMEXCResponse fromJson toResponse response) ↔
      ∃ json, response.json = some json ∧ ¬ Defined (fromJson json) := by
  unfold handleMEXCResponse
  rw [undefined_parse_iff]
  refine exists_congr fun json => and_congr_right fun _ => not_congr ?_
  rw [defined_bind]
  refine and_iff_left fun value _ => ?_
  cases (toResponse value).success <;> simp [throw, throwThe, MonadExceptOf.throw]

section
variable {U : JsonUtils} (hU : U.Exact) (response : HttpResponse)
include hU

theorem Query.defined (query : Query) : Defined (query.send U fun _ => .ok response) := by
  have handled : ∀ {α : Type} {fromJson : Json → Except Fault α} {toResponse : α → Response},
      Decoder U fromJson toResponse →
      Defined (checkResponse response >>= fun response => handleMEXCResponse fromJson toResponse response) := by
    intro α fromJson toResponse hdecoder
    refine not_not.mp fun h => ?_
    obtain ⟨-, hundefined⟩ := undefined_checked_iff.mp h
    obtain ⟨json, -, hjson⟩ := undefined_handled_iff.mp hundefined
    exact hjson (hdecoder.defined json)
  have returned : ∀ {α β : Type} {fromJson : Json → Except Fault α} {toResponse : α → Response} {g : α → β},
      Decoder U fromJson toResponse → Defined (checkResponse response >>= fun response =>
        handleMEXCResponse fromJson toResponse response >>= fun retVal => pure (g retVal)) := by
    intro α β fromJson toResponse g hdecoder
    rw [← bind_assoc]
    exact defined_bind_pure.mpr (handled hdecoder)
  cases query with
  | getServerTime => exact defined_ending.mpr (returned (serverTime_decoder hU))
  | getContractDetails symbol => exact defined_ending.mpr (returned (contractDetails_decoder hU))
  | getContractFundingRate contract => exact defined_ending.mpr (handled (fundingRate_decoder hU))
  | getContractFundingRates => exact defined_ending.mpr (returned (fundingRates_decoder hU))
  | getContractFundingRateHistory symbol pageNum pageSize =>
    exact defined_ending.mpr (handled (historicalFundingRates_decoder hU))
  | getWalletBalance currency => exact defined_ending.mpr (handled (walletBalance_decoder hU))
  | getContractTicker symbol => exact defined_ending.mpr (handled (ticker_decoder hU))
  | getOpenPositions symbol => exact defined_ending.mpr (returned (openPositions_decoder hU))
  | submitOrder request => exact defined_ending.mpr (handled (orderResponse_decoder hU))
  | cancelOrders orderIds => exact defined_ending.mpr (handled (cancelOrderResponse_decoder hU))

theorem klinesOf_undefined_iff : klinesOf U response = .error .undefined ↔
    response.result = 200 ∧ ∃ json, response.json = some json ∧ RaggedReply U json := by
  have hassoc : klinesOf U response = checkResponse response >>= fun response =>
      handleMEXCResponse (Candles.fromJson U) Candles.toResponse response >>= fun candles => pure candles.candles := by
    unfold klinesOf
    cases checkResponse response <;> rfl
  have hundefined : ¬ Defined (klinesOf U response) ↔ klinesOf U response = .error .undefined := not_not
  rw [← hundefined, hassoc, undefined_checked_iff, defined_bind_pure, undefined_handled_iff]
  simp only [candles_defined_iff hU, not_not]

end

end Futures

theorem Spot.klinesOf_undefined_iff {U : JsonUtils} (hU : U.Exact) (response : HttpResponse) :
    Spot.klinesOf U response = .error .undefined ↔
      response.result = 200 ∧ ∃ json, response.json = some json ∧ Spot.OverlooksKlines U json := by
  have hcandle : ∀ el, Spot.Candle.fromJson U el = .error .undefined ↔ Spot.ShortCandle U el :=
    fun el => not_iff_not.mp (Spot.candle_defined_iff hU el)
  have hundefined : ¬ Defined (Spot.klinesOf U response) ↔ Spot.klinesOf U response = .error .undefined := not_not
  rw [← hundefined]
  refine undefined_checked_iff.trans (and_congr_right fun _ => undefined_parse_iff.trans ?_)
  refine exists_congr fun json => and_congr_right fun _ => ?_
  unfold Defined Spot.OverlooksKlines
  rw [not_not, mapM_undefined]
  simp only [Spot.candle_ok_iff hU, hcandle]

/-! ## A call -/

namespace Endpoint

/-- A body on which the method reads past an end or a missing key. -/
def Malformed (U : JsonUtils) (json : Json) : Endpoint → Prop
  | .spot query => query.Malformed U json
  | .spotHistoricalPrices .. => Spot.OverlooksKlines U json
  | .futures _ => False
  | .futuresHistoricalPrices .. => Futures.RaggedReply U json

theorem undefined_iff {U : JsonUtils} (hU : U.Exact) {replies : Nat → Except Fault HttpResponse}
    (hreplies : ∀ n, Defined (replies n)) (endpoint : Endpoint) :
    endpoint.Ends U replies (.error .undefined) ↔ ∃ n response, endpoint.Asks U replies n ∧ replies n = .ok response ∧
      response.result = 200 ∧ ∃ json, response.json = some json ∧ endpoint.Malformed U json := by
  cases endpoint with
  | spot query =>
    rw [spot_ends_iff]
    constructor
    · intro h
      cases hreply : replies 0 with
      | error e =>
        have hsend : (query.send U fun _ => replies 0) = .error e := by
          rw [hreply]
          cases query <;> rfl
        rw [hsend] at h
        cases h
        exact absurd hreply (hreplies 0)
      | ok response =>
        rw [hreply] at h
        exact ⟨0, response, asks_first trivial, hreply, (Spot.Query.undefined_send_iff hU response query).mp (not_not.mpr h)⟩
    · rintro ⟨n, response, hasks, hreply, hbody⟩
      have hn : n = 0 := first_request (query.send U ·) fun e => spot_ends_iff.mp (hasks e)
      subst hn
      rw [hreply]
      exact not_not.mp ((Spot.Query.undefined_send_iff hU response query).mpr hbody)
  | futures query =>
    rw [futures_ends_iff]
    refine iff_of_false ?_ ?_
    · cases hreply : replies 0 with
      | error e =>
        have hsend : (query.send U fun _ => (Except.error e : Except Fault HttpResponse)) = .error e := by
          cases query <;> rfl
        rw [hsend]
        rintro ⟨⟩
        exact hreplies 0 hreply
      | ok response => exact Futures.Query.defined hU response query
    · rintro ⟨n, response, -, -, -, json, -, hfalse⟩
      exact hfalse
  | spotHistoricalPrices symbol interval startTime endTime =>
    refine (download_raises_iff (fun replies e => Spot.ends_iff U replies symbol interval startTime endTime e)
      (Spot.start_onlyRequest U symbol interval startTime _ endTime)
      (Spot.batch_onlyRequest U symbol interval startTime _) hreplies).trans ?_
    simp only [Spot.klinesOf_undefined_iff hU]
    rfl
  | futuresHistoricalPrices symbol interval startTime endTime =>
    refine (download_raises_iff (fun replies e => Futures.ends_iff U replies symbol interval startTime endTime e)
      (Futures.start_onlyRequest U symbol interval startTime endTime)
      (Futures.batch_onlyRequest U symbol interval startTime) hreplies).trans ?_
    simp only [Futures.klinesOf_undefined_iff hU]
    rfl

theorem undefined_listenKeys : ∃ n response, (Endpoint.spot .getListenKeys).Asks .plain (fun _ => .ok errorReply) n ∧
    Except.ok errorReply = (Except.ok response : Except Fault HttpResponse) ∧ response.result = 200 ∧
      ∃ json, response.json = some json ∧ (Endpoint.spot .getListenKeys).Malformed .plain json :=
  (undefined_iff JsonUtils.plain_exact (fun _ => defined_ok _) (.spot .getListenKeys)).mp (spot_ends_iff.mpr rfl)

end Endpoint

end MexcApi
