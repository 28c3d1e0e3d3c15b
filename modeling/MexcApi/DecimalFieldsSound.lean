import Mathlib.Tactic.NormNum
import MexcApi.DecimalText
import MexcApi.FuturesModels

/-!
# When a number decodes like its text

A decimal field that comes as a number goes through `std::to_string`, which
keeps six fractional digits; one that comes as a text is read exactly.
-/

namespace MexcApi

open Nlohmann

namespace Futures

structure DecimalField where
  {α : Type}
  fromJson : JsonUtils → Json → Except Fault α
  /-- The object of a reply that has the field. -/
  holder : Json → Option Json
  key : String
  value : α → ℚ

def DecimalField.Carries (f : DecimalField) (reply v : Json) : Prop :=
  ∃ json, f.holder reply = some json ∧ json.find? f.key = some v

def inData (reply : Json) : Option Json := reply.find? "data"

def decimalFields : List DecimalField := [
  ⟨ContractFundingRate.fromJson, inData, "fundingRate", ContractFundingRate.fundingRate⟩,
  ⟨ContractFundingRate.fromJson, inData, "maxFundingRate", ContractFundingRate.maxFundingRate⟩,
  ⟨ContractFundingRate.fromJson, inData, "minFundingRate", ContractFundingRate.minFundingRate⟩,
  ⟨HistoricalFundingRate.fromJson, some, "fundingRate", HistoricalFundingRate.fundingRate⟩,
  ⟨Ticker.fromJson, inData, "lastPrice", Ticker.lastPrice⟩,
  ⟨Ticker.fromJson, inData, "bid1", Ticker.bid1⟩,
  ⟨Ticker.fromJson, inData, "ask1", Ticker.ask1⟩,
  ⟨Ticker.fromJson, inData, "volume24", Ticker.volume24⟩,
  ⟨Ticker.fromJson, inData, "amount24", Ticker.amount24⟩,
  ⟨Ticker.fromJson, inData, "holdVol", Ticker.holdVol⟩,
  ⟨OpenPosition.fromJson, some, "holdVol", OpenPosition.holdVol⟩,
  ⟨OpenPosition.fromJson, some, "frozenVol", OpenPosition.frozenVol⟩,
  ⟨OpenPosition.fromJson, some, "holdAvgPrice", OpenPosition.holdAvgPrice⟩,
  ⟨OpenPosition.fromJson, some, "openAvgPrice", OpenPosition.openAvgPrice⟩,
  ⟨OpenPosition.fromJson, some, "liquidatePrice", OpenPosition.liquidatePrice⟩,
  ⟨OpenPosition.fromJson, some, "oim", OpenPosition.oim⟩,
  ⟨OpenPosition.fromJson, some, "im", OpenPosition.im⟩,
  ⟨OpenPosition.fromJson, some, "holdFee", OpenPosition.holdFee⟩,
  ⟨OpenPosition.fromJson, some, "realised", OpenPosition.realised⟩]

/-! ## The decoders -/

section
variable {U : JsonUtils} {json data : Json}

theorem response_data {self response : Response} (h : Response.fromJson U self json = .ok response)
    (hdata : json.find? "data" = some data) : response.data = data := by
  unfold Response.fromJson at h
  obtain ⟨code, -, h⟩ := bind_ok h
  obtain ⟨success, -, h⟩ := bind_ok h
  cases h
  rw [hdata, Option.getD_some]

theorem fundingRate_reads {r : ContractFundingRate} (h : ContractFundingRate.fromJson U json = .ok r)
    (hdata : json.find? "data" = some data) :
    readDecimal U data "fundingRate" = .ok r.fundingRate ∧ readDecimal U data "maxFundingRate" = .ok r.maxFundingRate ∧
      readDecimal U data "minFundingRate" = .ok r.minFundingRate := by
  unfold ContractFundingRate.fromJson at h
  obtain ⟨response, hresponse, h⟩ := bind_ok h
  rw [← response_data hresponse hdata]
  obtain ⟨symbol, -, h⟩ := bind_ok h
  obtain ⟨fundingRate, hfunding, h⟩ := bind_ok h
  obtain ⟨maxFundingRate, hmax, h⟩ := bind_ok h
  obtain ⟨minFundingRate, hmin, h⟩ := bind_ok h
  obtain ⟨collectCycle, -, h⟩ := bind_ok h
  obtain ⟨nextSettleTime, -, h⟩ := bind_ok h
  obtain ⟨timestamp, -, h⟩ := bind_ok h
  cases h
  exact ⟨hfunding, hmax, hmin⟩

theorem historicalRate_reads {r : HistoricalFundingRate} (h : HistoricalFundingRate.fromJson U json = .ok r) :
    readDecimal U json "fundingRate" = .ok r.fundingRate := by
  unfold HistoricalFundingRate.fromJson at h
  obtain ⟨symbol, -, h⟩ := bind_ok h
  obtain ⟨fundingRate, hfunding, h⟩ := bind_ok h
  obtain ⟨settleTime, -, h⟩ := bind_ok h
  cases h
  exact hfunding

theorem ticker_reads {r : Ticker} (h : Ticker.fromJson U json = .ok r) (hdata : json.find? "data" = some data) :
    readDecimal U data "lastPrice" = .ok r.lastPrice ∧ readDecimal U data "bid1" = .ok r.bid1 ∧
      readDecimal U data "ask1" = .ok r.ask1 ∧ readDecimal U data "volume24" = .ok r.volume24 ∧
      readDecimal U data "amount24" = .ok r.amount24 ∧ readDecimal U data "holdVol" = .ok r.holdVol := by
  unfold Ticker.fromJson at h
  obtain ⟨response, hresponse, h⟩ := bind_ok h
  rw [← response_data hresponse hdata]
  obtain ⟨symbol, -, h⟩ := bind_ok h
  obtain ⟨lastPrice, hlast, h⟩ := bind_ok h
  obtain ⟨bid1, hbid, h⟩ := bind_ok h
  obtain ⟨ask1, hask, h⟩ := bind_ok h
  obtain ⟨volume24, hvolume, h⟩ := bind_ok h
  obtain ⟨amount24, hamount, h⟩ := bind_ok h
  obtain ⟨holdVol, hhold, h⟩ := bind_ok h
  obtain ⟨timestamp, -, h⟩ := bind_ok h
  cases h
  exact ⟨hlast, hbid, hask, hvolume, hamount, hhold⟩

theorem openPosition_reads {r : OpenPosition} (h : OpenPosition.fromJson U json = .ok r) :
    readDecimal U json "holdVol" = .ok r.holdVol ∧ readDecimal U json "frozenVol" = .ok r.frozenVol ∧
      readDecimal U json "holdAvgPrice" = .ok r.holdAvgPrice ∧ readDecimal U json "openAvgPrice" = .ok r.openAvgPrice ∧
      readDecimal U json "liquidatePrice" = .ok r.liquidatePrice ∧ readDecimal U json "oim" = .ok r.oim ∧
      readDecimal U json "im" = .ok r.im ∧ readDecimal U json "holdFee" = .ok r.holdFee ∧
      readDecimal U json "realised" = .ok r.realised := by
  unfold OpenPosition.fromJson at h
  obtain ⟨positionId, -, h⟩ := bind_ok h
  obtain ⟨symbol, -, h⟩ := bind_ok h
  obtain ⟨positionType, -, h⟩ := bind_ok h
  obtain ⟨openType, -, h⟩ := bind_ok h
  obtain ⟨state, -, h⟩ := bind_ok h
  obtain ⟨holdVol, hhold, h⟩ := bind_ok h
  obtain ⟨frozenVol, hfrozen, h⟩ := bind_ok h
  obtain ⟨holdAvgPrice, hholdAvg, h⟩ := bind_ok h
  obtain ⟨openAvgPrice, hopenAvg, h⟩ := bind_ok h
  obtain ⟨liquidatePrice, hliquidate, h⟩ := bind_ok h
  obtain ⟨oim, hoim, h⟩ := bind_ok h
  obtain ⟨im, him, h⟩ := bind_ok h
  obtain ⟨holdFee, hfee, h⟩ := bind_ok h
  obtain ⟨realised, hrealised, h⟩ := bind_ok h
  obtain ⟨leverage, -, h⟩ := bind_ok h
  obtain ⟨createTime, -, h⟩ := bind_ok h
  obtain ⟨updateTime, -, h⟩ := bind_ok h
  cases h
  exact ⟨hhold, hfrozen, hholdAvg, hopenAvg, hliquidate, hoim, him, hfee, hrealised⟩

end

theorem decimalFields_read {f : DecimalField} (hf : f ∈ decimalFields) {U : JsonUtils} {reply json : Json} {r : f.α}
    (h : f.fromJson U reply = .ok r) (hholder : f.holder reply = some json) :
    readDecimal U json f.key = .ok (f.value r) := by
  simp only [decimalFields, List.mem_cons, List.not_mem_nil, or_false] at hf
  rcases hf with rfl | rfl | rfl | rfl | rfl | rfl | rfl | rfl | rfl | rfl | rfl | rfl | rfl | rfl | rfl | rfl | rfl |
    rfl | rfl
  · exact (fundingRate_reads h hholder).1
  · exact (fundingRate_reads h hholder).2.1
  · exact (fundingRate_reads h hholder).2.2
  · cases hholder
    exact historicalRate_reads h
  · exact (ticker_reads h hholder).1
  · exact (ticker_reads h hholder).2.1
  · exact (ticker_reads h hholder).2.2.1
  · exact (ticker_reads h hholder).2.2.2.1
  · exact (ticker_reads h hholder).2.2.2.2.1
  · exact (ticker_reads h hholder).2.2.2.2.2
  all_goals
    cases hholder
    have hreads := openPosition_reads h
    simp only [hreads]

/-! ## Six digits -/

theorem roundHalfEven_int (m : Int) : roundHalfEven m = m := by
  unfold roundHalfEven
  rw [Rat.floor_intCast, sub_self]
  rw [if_pos (by norm_num)]

theorem toStringValue_eq_iff (q : ℚ) : toStringValue q = q ↔ ∃ m : Int, q * 1000000 = m := by
  unfold toStringValue
  rw [div_eq_iff (by norm_num)]
  constructor
  · intro h
    exact ⟨_, h.symm⟩
  · rintro ⟨m, hm⟩
    rw [hm, roundHalfEven_int]

theorem decimal_alike_iff {U : JsonUtils} (hU : U.ReadsDecimals) {f : DecimalField} (hf : f ∈ decimalFields)
    (d : DecimalText) {n : Number} (hn : n.toRat = d.value) {reply reply' : Json} (hnumber : f.Carries reply (.num n))
    (htext : f.Carries reply' (.str d.text)) {r r' : f.α} (hr : f.fromJson U reply = .ok r)
    (hr' : f.fromJson U reply' = .ok r') :
    f.value r' = d.value ∧ (f.value r = f.value r' ↔ ∃ m : Int, d.value * 1000000 = m) := by
  obtain ⟨json, hholder, hfind⟩ := hnumber
  obtain ⟨json', hholder', hfind'⟩ := htext
  have hnum := decimalFields_read hf hr hholder
  have htxt := decimalFields_read hf hr' hholder'
  unfold readDecimal at hnum htxt
  rw [hfind] at hnum
  rw [hfind', hU d json' f.key hfind'] at htxt
  have hvalue : f.value r' = d.value := (Except.ok.inj htxt).symm
  have hrounded : f.value r = toStringValue d.value := by
    rw [← hn]
    exact (Except.ok.inj hnum).symm
  refine ⟨hvalue, ?_⟩
  rw [hvalue, hrounded, toStringValue_eq_iff]

/-- 0.0000124 -/
def smallRate : DecimalText := ⟨false, [0], [0, 0, 0, 0, 1, 2, 4], by decide⟩

def rateField : DecimalField := ⟨HistoricalFundingRate.fromJson, some, "fundingRate", HistoricalFundingRate.fundingRate⟩

def rateReply (v : Json) : Json := .obj [("fundingRate", v)]

theorem smallRate_value : smallRate.value = 31 / 2500000 := by
  have hwhole : DecimalText.number smallRate.whole = 0 := by decide
  have hfraction : DecimalText.number smallRate.fraction = 124 := by decide
  have hlength : smallRate.fraction.length = 7 := rfl
  have hsign : smallRate.negative = false := rfl
  unfold DecimalText.value DecimalText.magnitude
  rw [hwhole, hfraction, hlength, hsign]
  norm_num

theorem rate_number (q : ℚ) : HistoricalFundingRate.fromJson .signed (rateReply (.num (.float q))) =
    .ok { fundingRate := toStringValue q } := rfl

theorem rate_text (d : DecimalText) : HistoricalFundingRate.fromJson .signed (rateReply (.str d.text)) =
    .ok { fundingRate := d.value } := by
  have hread : readDecimal .signed (rateReply (.str d.text)) "fundingRate" = .ok d.value :=
    JsonUtils.signed_readsDecimals d (rateReply (.str d.text)) "fundingRate" rfl
  unfold HistoricalFundingRate.fromJson
  rw [hread]
  rfl

theorem decimal_alike_example : ∃ r r',
    HistoricalFundingRate.fromJson .signed (rateReply (.num (.float (31 / 2500000)))) = .ok r ∧
    HistoricalFundingRate.fromJson .signed (rateReply (.str smallRate.text)) = .ok r' ∧
    r'.fundingRate = smallRate.value ∧
    (r.fundingRate = r'.fundingRate ↔ ∃ m : Int, smallRate.value * 1000000 = m) := by
  have hmem : rateField ∈ decimalFields :=
    List.mem_cons_of_mem _ (List.mem_cons_of_mem _ (List.mem_cons_of_mem _ List.mem_cons_self))
  have hn : (Number.float (31 / 2500000)).toRat = smallRate.value := smallRate_value.symm
  have hnumber : rateField.Carries (rateReply (.num (.float (31 / 2500000)))) (.num (.float (31 / 2500000))) :=
    ⟨_, rfl, rfl⟩
  have htext : rateField.Carries (rateReply (.str smallRate.text)) (.str smallRate.text) := ⟨_, rfl, rfl⟩
  have halike := decimal_alike_iff JsonUtils.signed_readsDecimals hmem smallRate hn hnumber htext
    (rate_number (31 / 2500000)) (rate_text smallRate)
  exact ⟨_, _, rate_number (31 / 2500000), rate_text smallRate, halike⟩

/-- As a number, the rate 0.0000124 becomes 0.000012. -/
theorem smallRate_altered : smallRate.text = "0.0000124" ∧ smallRate.value = 124 / 10000000 ∧
    ∃ r r', HistoricalFundingRate.fromJson .signed (rateReply (.num (.float (124 / 10000000)))) = .ok r ∧
      HistoricalFundingRate.fromJson .signed (rateReply (.str smallRate.text)) = .ok r' ∧
      r.fundingRate = 12 / 1000000 ∧ r'.fundingRate = 124 / 10000000 := by
  have hvalue : smallRate.value = 124 / 10000000 := by
    rw [smallRate_value]
    norm_num
  have hfloor : ((124 / 10000000 : ℚ) * 1000000).floor = 12 := by
    change ⌊(124 / 10000000 : ℚ) * 1000000⌋ = 12
    rw [Int.floor_eq_iff]
    norm_num
  have hrounded : toStringValue (124 / 10000000) = 12 / 1000000 := by
    unfold toStringValue roundHalfEven
    rw [hfloor]
    norm_num
  exact ⟨by decide, hvalue, _, _, rate_number _, rate_text smallRate, hrounded, hvalue⟩

end Futures

end MexcApi
