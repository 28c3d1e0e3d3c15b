import MexcApi.DecodersSound
import MexcApi.Replies

/-!
# Failures and the spot methods

Some of the methods never look at the code they have decoded, and the others
only see its leading integer.
-/

namespace MexcApi

open Nlohmann

def signed : List Char → Int × List Char
  | '-' :: cs => (-1, cs)
  | '+' :: cs => (1, cs)
  | cs => (1, cs)

/-- The number a text denotes, with a sign, a fraction and an exponent. -/
def numeral (text : String) : Option ℚ :=
  let (sign, cs) := signed (text.toList.dropWhile isSpace)
  let isMantissa (c : Char) := c ≠ 'e' ∧ c ≠ 'E'
  let scale : Option ℚ := match cs.dropWhile isMantissa with
    | [] => some 1
    | _ :: exponent =>
      let (sign, digits) := signed exponent
      let power := 10 ^ (digitsValue digits).toNat
      if digits.isEmpty ∨ ¬ digits.all Char.isDigit then none else some (if sign < 0 then 1 / power else power)
  match scale, decimalOfString (String.ofList (cs.takeWhile isMantissa)) with
  | some scale, .ok mantissa => some (sign * mantissa * scale)
  | _, _ => none

def denoted : Json → Option ℚ
  | .num n => some n.toRat
  | .str text => numeral text
  | _ => none

example : numeral "700003" = some 700003 ∧ numeral "-0.5" = some (-1 / 2) ∧ numeral "" = none := by decide +kernel

namespace Spot

def ReportsFailure (json : Json) : Prop :=
  ∃ code q, json.find? "code" = some code ∧ denoted code = some q ∧ q ≠ 0

/-! ## What the decoders return -/

/-- A code that starts with a zero, and a message that can be read. -/
def ZeroCode (U : JsonUtils) (json : Json) : Prop :=
  (∃ text, json.find? "code" = some (.str text) ∧ stoi text = .ok 0) ∧ Reads U Json.getString "msg" "" json

/-- An array of texts is stored under the key. -/
def TextsAt (key : String) (json : Json) : Prop :=
  ∃ keys, json.find? key = some (.arr keys) ∧ ∀ el ∈ keys, ∃ text, el = .str text

def PriceAt (U : JsonUtils) (json : Json) : Prop :=
  ∃ text q, json.find? "price" = some (.str text) ∧ U.assign text = .ok q

theorem access_ok_iff {json value : Json} {key : String} :
    (json.access key).get = .ok value ↔ json.find? key = some value := by
  cases json with
  | obj kvs => cases h : kvs.lookup key <;> simp [Json.access, Json.find?, h, Json.Access.get]
  | _ => simp [Json.access, Json.find?, Json.Access.get]

theorem getString_eq_iff {json : Json} {text : String} : json.getString = .ok text ↔ json = .str text := by
  cases json <;> simp [Json.getString]

theorem textsAt_iff {key : String} {json : Json} :
    (∃ texts keys, (json.access key).get = .ok keys ∧ keys.getStrings = .ok texts) ↔ TextsAt key json := by
  simp only [access_ok_iff]
  constructor
  · rintro ⟨texts, keys, hkeys, htexts⟩
    cases keys with
    | arr items =>
      refine ⟨items, hkeys, fun el hel => ?_⟩
      obtain ⟨text, htext⟩ := returns_mapM_iff.mp ⟨texts, htexts⟩ el hel
      exact ⟨text, getString_eq_iff.mp htext⟩
    | _ => cases htexts
  · rintro ⟨items, hitems, hall⟩
    have hread : ∀ el ∈ items, ∃ text, el.getString = .ok text := by
      intro el hel
      obtain ⟨text, htext⟩ := hall el hel
      exact ⟨text, getString_eq_iff.mpr htext⟩
    obtain ⟨texts, htexts⟩ := returns_mapM_iff.mpr hread
    exact ⟨texts, .arr items, hitems, htexts⟩

theorem serverTime_ok_iff (U : JsonUtils) (json : Json) : (∃ value, ServerTime.fromJson U json = .ok value) ↔
    ReadsResponse U json ∧ Reads U Json.getInt64 "serverTime" 0 json := by
  unfold ServerTime.fromJson
  rw [← response_ok_iff, returns_bind_iff]
  simp only [returns_bind_iff]
  constructor
  · rintro ⟨response, hresponse, time, htime, -⟩
    exact ⟨⟨response, hresponse⟩, time, htime⟩
  · rintro ⟨⟨response, hresponse⟩, time, htime⟩
    exact ⟨response, hresponse, time, htime, _, rfl⟩

theorem tickerPrice_ok_iff (U : JsonUtils) (json : Json) : (∃ value, TickerPrice.fromJson U json = .ok value) ↔
    ReadsResponse U json ∧ Reads U Json.getString "symbol" "" json ∧ PriceAt U json := by
  unfold TickerPrice.fromJson PriceAt
  rw [← response_ok_iff, returns_bind_iff]
  simp only [returns_bind_iff, access_ok_iff, getString_eq_iff]
  constructor
  · rintro ⟨response, hresponse, symbol, hsymbol, v, hv, text, rfl, q, hq, -⟩
    exact ⟨⟨response, hresponse⟩, ⟨symbol, hsymbol⟩, text, q, hv, hq⟩
  · rintro ⟨⟨response, hresponse⟩, ⟨symbol, hsymbol⟩, text, q, hv, hq⟩
    exact ⟨response, hresponse, symbol, hsymbol, .str text, hv, text, rfl, q, hq, _, rfl⟩

section
variable {U : JsonUtils} (hU : U.Exact) {json : Json} (h : ReportsFailure json)
include hU h

theorem code_read {codeStr : String} (hread : U.readValue Json.getString json "code" "" = .ok codeStr) :
    json.find? "code" = some (.str codeStr) ∧ codeStr ≠ "" := by
  obtain ⟨code, q, hcode, hq, -⟩ := h
  cases code with
  | num n =>
    rw [hU.present Json.getString "" hcode (fun h => by cases h)] at hread
    cases hread
  | str text =>
    rw [hU.present Json.getString "" hcode (fun h => by cases h)] at hread
    cases hread
    refine ⟨hcode, ?_⟩
    rintro rfl
    have hnone : denoted (.str "") = none := by decide +kernel
    rw [hnone] at hq
    cases hq
  | _ => cases hq

theorem zeroCode_iff : (∃ response, Response.fromJson U {} json = .ok response ∧ response.code = 0) ↔ ZeroCode U json := by
  constructor
  · rintro ⟨response, hresponse, hzero⟩
    obtain ⟨codeStr, hread, hresponse⟩ := bind_ok hresponse
    obtain ⟨msg, hmsg, hresponse⟩ := bind_ok hresponse
    obtain ⟨hcode, hne⟩ := code_read hU h hread
    rw [if_pos hne] at hresponse
    obtain ⟨code, hstoi, hreturn⟩ := bind_ok hresponse
    cases hreturn
    subst hzero
    exact ⟨⟨codeStr, hcode, hstoi⟩, msg, hmsg⟩
  · rintro ⟨⟨text, hcode, hstoi⟩, msg, hmsg⟩
    have hread : U.readValue Json.getString json "code" "" = .ok text :=
      hU.present Json.getString "" hcode (fun h => by cases h)
    have hne := (code_read hU h hread).2
    refine ⟨{ code := 0, msg }, ?_, rfl⟩
    simp only [Response.fromJson, hread, hmsg, bind, Except.bind, if_pos hne, hstoi]
    rfl

theorem listenKey_zero_iff : (∃ value, ListenKey.fromJson U json = .ok value ∧ value.code = 0) ↔
    ZeroCode U json ∧ Reads U Json.getString "listenKey" "" json := by
  rw [← zeroCode_iff hU h]
  constructor
  · rintro ⟨value, hvalue, hzero⟩
    obtain ⟨response, hresponse, hvalue⟩ := bind_ok hvalue
    obtain ⟨listenKey, hkey, hreturn⟩ := bind_ok hvalue
    cases hreturn
    exact ⟨⟨response, hresponse, hzero⟩, listenKey, hkey⟩
  · rintro ⟨⟨response, hresponse, hzero⟩, listenKey, hkey⟩
    refine ⟨{ response with listenKey }, ?_, hzero⟩
    simp only [ListenKey.fromJson, hresponse, hkey, bind, Except.bind]
    rfl

theorem listenKeys_zero_iff : (∃ value, ListenKeys.fromJson U json = .ok value ∧ value.code = 0) ↔
    ZeroCode U json ∧ Reads U Json.getInt32 "available" 0 json ∧ Reads U Json.getInt32 "total" 0 json ∧
      TextsAt "listenKey" json := by
  rw [← zeroCode_iff hU h, ← textsAt_iff]
  constructor
  · rintro ⟨value, hvalue, hzero⟩
    obtain ⟨response, hresponse, hvalue⟩ := bind_ok hvalue
    obtain ⟨available, havailable, hvalue⟩ := bind_ok hvalue
    obtain ⟨total, htotal, hvalue⟩ := bind_ok hvalue
    obtain ⟨keys, hkeys, hvalue⟩ := bind_ok hvalue
    obtain ⟨texts, htexts, hreturn⟩ := bind_ok hvalue
    cases hreturn
    exact ⟨⟨response, hresponse, hzero⟩, ⟨available, havailable⟩, ⟨total, htotal⟩, texts, keys, hkeys, htexts⟩
  · rintro ⟨⟨response, hresponse, hzero⟩, ⟨available, havailable⟩, ⟨total, htotal⟩, texts, keys, hkeys, htexts⟩
    refine ⟨{ response with available, total, listenKeys := texts }, ?_, hzero⟩
    simp only [ListenKeys.fromJson, hresponse, havailable, htotal, hkeys, htexts, bind, Except.bind]
    rfl

end

/-! ## The methods with one request -/

/-- When a method overlooks the failure of an object that came with status 200. -/
def Query.Overlooks (U : JsonUtils) (json : Json) : Query → Prop
  | .getServerTime => ReadsResponse U json ∧ Reads U Json.getInt64 "serverTime" 0 json
  | .getTickerPrice _ =>
    ReadsResponse U json ∧ Reads U Json.getString "symbol" "" json ∧ (json.find? "price" = none ∨ PriceAt U json)
  | .getListenKey | .renewListenKey _ | .closeListenKey _ => ZeroCode U json ∧ Reads U Json.getString "listenKey" "" json
  | .getListenKeys => Reads U Json.getInt32 "available" 0 json ∧ Reads U Json.getInt32 "total" 0 json ∧
    (ReadsResponse U json ∧ json.find? "listenKey" = none ∨ ZeroCode U json ∧ TextsAt "listenKey" json)

/-- A member is a candle that is too short, after members that are candles. -/
def OverlooksKlines (U : JsonUtils) (json : Json) : Prop :=
  ∃ before el after, json.elements = before ++ el :: after ∧ (∀ candle ∈ before, CompleteCandle U candle) ∧
    ShortCandle U el

theorem handleMEXCResponse_throws_iff {α : Type} {fromJson : Json → Except Fault α} {toResponse : α → Response}
    {response : HttpResponse} {json : Json} (hjson : response.json = some json) :
    Throws (handleMEXCResponse fromJson toResponse response) ↔
      Defined (fromJson json) ∧ ¬ ∃ value, fromJson json = .ok value ∧ (toResponse value).code = 0 := by
  unfold handleMEXCResponse HttpResponse.parse
  rw [hjson]
  cases hvalue : fromJson json with
  | error e => simp [Throws, bind, Except.bind, hvalue]
  | ok value =>
    by_cases hzero : (toResponse value).code = 0
    · simp [Throws, bind, Except.bind, hvalue, hzero, pure, Except.pure]
    · simp [Throws, bind, Except.bind, hvalue, hzero, throw, throwThe, MonadExceptOf.throw]

section
variable {U : JsonUtils} (hU : U.Exact) {response : HttpResponse} {json : Json} (hjson : response.json = some json)
  (h : ReportsFailure json)
include hU hjson h

theorem listenKey_throws_iff : Throws (handleMEXCResponse (ListenKey.fromJson U) ListenKey.toResponse response) ↔
    ¬ (ZeroCode U json ∧ Reads U Json.getString "listenKey" "" json) := by
  have hdefined : Defined (ListenKey.fromJson U json) := by
    have hkey := hU.defined_readValue Json.defined_getString json "listenKey" ""
    simp [ListenKey.fromJson, defined_response hU, hkey]
  rw [handleMEXCResponse_throws_iff hjson, listenKey_zero_iff hU h]
  exact and_iff_right hdefined

theorem listenKeys_throws_iff (hobject : json.isObject = true) :
    Throws (handleMEXCResponse (ListenKeys.fromJson U) ListenKeys.toResponse response) ↔
      ¬ Query.getListenKeys.Overlooks U json := by
  rw [handleMEXCResponse_throws_iff hjson, listenKeys_zero_iff hU h, listenKeys_defined_iff hU, NoListenKeys,
    Query.Overlooks]
  tauto

end

theorem serverTime_throws_iff {U : JsonUtils} (hU : U.Exact) (json : Json) :
    Throws (ServerTime.fromJson U json) ↔ ¬ Query.getServerTime.Overlooks U json := by
  have htime := hU.defined_readValue Json.defined_getInt64 json "serverTime" 0
  have hdefined : Defined (ServerTime.fromJson U json) := by simp [ServerTime.fromJson, defined_response hU, htime]
  rw [Query.Overlooks, ← serverTime_ok_iff, throws_iff, not_exists]
  exact and_iff_right hdefined

theorem tickerPrice_throws_iff {U : JsonUtils} (hU : U.Exact) {json : Json} (hobject : json.isObject = true)
    (symbol : String) :
    Throws (TickerPrice.fromJson U json) ↔ ¬ (Query.getTickerPrice symbol).Overlooks U json := by
  rw [throws_iff, tickerPrice_defined_iff hU, ← not_exists, tickerPrice_ok_iff, NoPrice, Query.Overlooks]
  tauto

theorem Query.send_throws_iff {U : JsonUtils} (hU : U.Exact) {response : HttpResponse} {json : Json}
    (hjson : response.json = some json) (hobject : json.isObject = true)
    (h : response.result ≠ 200 ∨ ReportsFailure json) (query : Query) :
    Throws (query.send U fun _ => .ok response) ↔ ¬ (response.result = 200 ∧ query.Overlooks U json) := by
  have hreports : response.result = 200 → ReportsFailure json := h.resolve_left ∘ not_not.mpr
  have hparse := parse_eq hjson
  cases query with
  | getServerTime =>
    refine throws_ending.trans (throws_checked_iff fun _ => ?_)
    rw [hparse]
    exact throws_bind_pure.trans (serverTime_throws_iff hU json)
  | getTickerPrice symbol =>
    refine throws_ending.trans (throws_checked_iff fun _ => ?_)
    rw [hparse]
    cases json with
    | obj kvs => exact throws_bind_pure.trans (tickerPrice_throws_iff hU hobject symbol)
    | _ => cases hobject
  | getListenKeys =>
    exact throws_ending.trans (throws_checked_iff fun hresult => listenKeys_throws_iff hU hjson (hreports hresult) hobject)
  | getListenKey | renewListenKey _ | closeListenKey _ =>
    refine throws_ending.trans (throws_checked_iff fun hresult => ?_)
    exact throws_bind_pure.trans (listenKey_throws_iff hU hjson (hreports hresult))

/-! ## The download -/

def klinesOf (U : JsonUtils) (response : HttpResponse) : Except Fault (List Candle) := do
  let responseJson ← (← checkResponse response).parse
  responseJson.elements.mapM (Candle.fromJson U)

theorem fetch_reply (U : JsonUtils) (reply : Except Fault HttpResponse) (symbol : String) (interval : CandleInterval)
    (startTime endTime : Int) (limit : Nat) :
    RESTClient.P.getHistoricalPrices U (fun _ => reply) symbol interval startTime endTime limit = reply >>= klinesOf U := by
  cases reply <;> rfl

theorem ends_iff (U : JsonUtils) (replies : Nat → Except Fault HttpResponse) (symbol : String) (interval : CandleInterval)
    (startTime endTime : Int) (e : Fault) :
    (Endpoint.spotHistoricalPrices symbol interval startTime endTime).Ends U replies (.error e) ↔
      ∃ fuel, Loop.runFrom (RESTClient.batch U (fun k _ => replies k) symbol interval startTime RESTClient.limit) fuel
        (RESTClient.start U (fun k _ => replies k) symbol interval startTime RESTClient.limit endTime) =
          some (.error e) := by
  refine exists_congr fun fuel => map_ending_iff.trans ?_
  unfold RESTClient.getHistoricalPrices RESTClient.download
  cases RESTClient.start U (fun k _ => replies k) symbol interval startTime RESTClient.limit endTime <;> rfl

section
variable (U : JsonUtils) (symbol : String) (interval : CandleInterval) (startTime : Int) (limit : Nat)

theorem start_oneRequest (endTime : Int) : OneRequest (klinesOf U) fun replies =>
    RESTClient.start U (fun k _ => replies k) symbol interval startTime limit endTime := by
  unfold RESTClient.start
  simp only [fetch_reply, ite_self]
  by_cases hrange : startTime ≤ endTime
  · simp only [if_pos hrange]
    exact Or.inr ⟨0, _, fun _ => rfl⟩
  · exact Or.inl ⟨_, fun _ => if_neg hrange⟩

theorem batch_oneRequest (s : RESTClient.History) : OneRequest (klinesOf U) fun replies =>
    RESTClient.batch U (fun k _ => replies k) symbol interval startTime limit s := by
  unfold RESTClient.batch
  cases s.candles with
  | nil => exact Or.inl ⟨_, fun _ => rfl⟩
  | cons oldest rest =>
    simp only [fetch_reply]
    by_cases hmore : startTime ≤ oldest.openTime - interval.numberOfMsForCandleInterval
    · simp only [if_pos hmore]
      exact Or.inr ⟨s.requests, _, fun _ => rfl⟩
    · exact Or.inl ⟨_, fun _ => if_neg hmore⟩

end

section
variable {U : JsonUtils} (hU : U.Exact) {response : HttpResponse} {json : Json} (hjson : response.json = some json)
  (hobject : json.isObject = true) (h : response.result ≠ 200 ∨ ReportsFailure json)
include hU hjson hobject h

theorem not_decoded {candles : List Candle} (hresult : response.result = 200)
    (hcandles : json.elements.mapM (Candle.fromJson U) = .ok candles) : False := by
  obtain ⟨code, q, hcode, hq, -⟩ := h.resolve_left (not_not.mpr hresult)
  cases json with
  | obj kvs =>
    have hmem : code ∈ (Json.obj kvs).elements := by
      obtain ⟨before, after, rfl, -⟩ := List.lookup_eq_some_iff.mp hcode
      simp [Json.elements]
    obtain ⟨xs, rfl, -⟩ := (candle_ok_iff hU code).mp (returns_mapM_iff.mp ⟨candles, hcandles⟩ code hmem)
    cases hq
  | _ => cases hobject

theorem klinesOf_throws_iff : Throws (klinesOf U response) ↔ ¬ (response.result = 200 ∧ OverlooksKlines U json) := by
  have hundefined : ∀ el, Candle.fromJson U el = .error .undefined ↔ ShortCandle U el :=
    fun el => not_iff_not.mp (candle_defined_iff hU el)
  refine throws_checked_iff fun hresult => ?_
  rw [parse_eq hjson, ok_bind, throws_iff_not, mapM_undefined, OverlooksKlines]
  simp only [candle_ok_iff hU, hundefined]
  refine not_congr (or_iff_left ?_)
  rintro ⟨candles, hcandles⟩
  exact not_decoded hU hjson hobject h hresult hcandles

theorem klinesOf_fails : ∃ f, klinesOf U response = .error f := by
  cases hcandles : klinesOf U response with
  | error f => exact ⟨f, rfl⟩
  | ok candles =>
    obtain ⟨response', hchecked, hmembers⟩ := bind_ok hcandles
    obtain ⟨hresult, rfl⟩ := checked_ok hchecked
    rw [parse_eq hjson] at hmembers
    exact (not_decoded hU hjson hobject h hresult hmembers).elim

end

end Spot

end MexcApi
