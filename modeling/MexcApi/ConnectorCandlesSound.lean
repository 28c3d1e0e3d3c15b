import MexcApi.DownloadRunsSound
import MexcApi.FuturesConnector

/-!
# When the connector's candles stay in the range

The connector asks the client for whole seconds. The end of the range is
rounded down, and so is its start: a candle of the second in which the range
begins comes with it although it opens before the range.
-/

namespace MexcApi

open Nlohmann Windows

namespace Futures

/-- Every answer has only candles of the seconds it was asked for. -/
def WithinSeconds (U : JsonUtils) (server : KlineServer) (symbol : String) (interval : CandleInterval) : Prop :=
  ∀ n startTime endTime candles, RESTClient.P.getHistoricalPrices U (server n) symbol interval startTime endTime =
    .ok candles → ∀ c ∈ candles, startTime * 1000 ≤ c.openTime ∧ c.openTime ≤ endTime * 1000

/-- An answer has the candle of the second `startTime`, not as the newest of all. -/
def StartServed (U : JsonUtils) (server : KlineServer) (symbol : String) (interval : CandleInterval)
    (startTime endTime : Int) : Prop :=
  ∃ n stop candles, Backward.Asked (RESTClient.request U server symbol interval startTime)
      (RESTClient.nextEnd startTime) 0 (RESTClient.wanted startTime endTime) n stop ∧
    RESTClient.request U server symbol interval startTime n stop = .ok candles ∧
    ∃ c ∈ if n = 0 then candles.dropLast else candles, c.openTime = startTime * 1000

/-! ## Whole seconds -/

theorem candleAt_seconds {times opens highs lows closes vols amounts : Json} {i : Nat} {c : Candle}
    (h : Candles.candleAt times opens highs lows closes vols amounts i = .ok c) : ∃ t, c.openTime = t * 1000 := by
  unfold Candles.candleAt at h
  obtain ⟨v, -, h⟩ := bind_ok h
  obtain ⟨t, -, h⟩ := bind_ok h
  obtain ⟨_, -, h⟩ := bind_ok h
  obtain ⟨_, -, h⟩ := bind_ok h
  obtain ⟨_, -, h⟩ := bind_ok h
  obtain ⟨_, -, h⟩ := bind_ok h
  obtain ⟨_, -, h⟩ := bind_ok h
  obtain ⟨_, -, h⟩ := bind_ok h
  cases h
  exact ⟨t, rfl⟩

theorem candles_seconds {U : JsonUtils} {json : Json} {candles : Candles} (h : Candles.fromJson U json = .ok candles) :
    ∀ c ∈ candles.candles, ∃ t, c.openTime = t * 1000 := by
  unfold Candles.fromJson at h
  obtain ⟨response, -, h⟩ := bind_ok h
  dsimp only at h
  split at h
  · cases h
    exact List.forall_mem_nil _
  · split at h
    · cases h
      exact List.forall_mem_nil _
    · obtain ⟨_, -, h⟩ := bind_ok h
      obtain ⟨_, -, h⟩ := bind_ok h
      obtain ⟨_, -, h⟩ := bind_ok h
      obtain ⟨_, -, h⟩ := bind_ok h
      obtain ⟨_, -, h⟩ := bind_ok h
      obtain ⟨_, -, h⟩ := bind_ok h
      obtain ⟨decoded, hdecoded, h⟩ := bind_ok h
      cases h
      intro c hc
      obtain ⟨i, -, hi⟩ := mem_of_mapM hdecoded hc
      exact candleAt_seconds hi

theorem answer_seconds {U : JsonUtils} {methodGet : KlineRequest → Except Fault HttpResponse} {symbol : String}
    {interval : CandleInterval} {startTime endTime : Int} {candles : List Candle}
    (h : RESTClient.P.getHistoricalPrices U methodGet symbol interval startTime endTime = .ok candles) :
    ∀ c ∈ candles, ∃ t, c.openTime = t * 1000 := by
  unfold RESTClient.P.getHistoricalPrices at h
  obtain ⟨reply, -, h⟩ := bind_ok h
  obtain ⟨response, -, h⟩ := bind_ok h
  obtain ⟨decoded, hdecoded, h⟩ := bind_ok h
  cases h
  obtain ⟨-, json, hjson⟩ := handleMEXCResponse_returns hdecoded
  exact candles_seconds hjson

/-! ## The client -/

section
variable {U : JsonUtils} {server : KlineServer} {symbol : String} {interval : CandleInterval}
  (hserver : WithinSeconds U server symbol interval) {startTime endTime : Int}

include hserver in
theorem WithinSeconds.firstInTime : Answers U server symbol interval FirstInTime :=
  fun n startTime endTime candles hcandles c hc =>
    (hserver n startTime endTime candles hcandles c (List.mem_of_mem_head? hc)).2

include hserver in
theorem returned_within {fuel : Nat} {h : RESTClient.History}
    (hrun : RESTClient.getHistoricalPrices U server symbol interval startTime endTime fuel = some (.ok h)) :
    ∀ c ∈ h.retVal, (∃ t, c.openTime = t * 1000) ∧ startTime * 1000 ≤ c.openTime ∧ c.openTime ≤ endTime * 1000 := by
  intro c hc
  have hwalk := RESTClient.download_walk U server symbol interval startTime hrun
  rw [RESTClient.download_retVal U server symbol interval startTime hrun] at hc
  obtain ⟨b, hb, hcb⟩ := List.mem_flatten.mp (List.dropLast_subset _ hc)
  have hb' := List.mem_reverse.mp hb
  obtain ⟨-, n, stop, -, hn⟩ := hwalk.mem_iff.mp hb'
  refine ⟨answer_seconds hn c hcb, (hserver n startTime stop b hn c hcb).1, ?_⟩
  have hbelow : ∀ oldest stop, RESTClient.nextEnd startTime oldest = some stop → stop * 1000 < oldest.openTime :=
    fun _ _ hnext => RESTClient.nextEnd_lt hnext
  have hanswer : ∀ n stop candles, RESTClient.request U server symbol interval startTime n stop = .ok candles →
      ∀ c ∈ candles, c.openTime ≤ stop * 1000 :=
    fun n stop candles hcandles c hc => (hserver n startTime stop candles hcandles c hc).2
  by_cases hlt : startTime < endTime
  · have hwanted : RESTClient.wanted startTime endTime = some endTime := if_pos hlt
    exact hwalk.le_first Candle.openTime hbelow hanswer endTime hwanted b hb' c hcb
  · have hwanted : RESTClient.wanted startTime endTime = none := if_neg hlt
    rw [hwanted] at hwalk
    rw [hwalk.eq_nil] at hb'
    cases hb'

theorem start_returned_iff {fuel : Nat} {h : RESTClient.History}
    (hrun : RESTClient.getHistoricalPrices U server symbol interval startTime endTime fuel = some (.ok h)) :
    (∃ c ∈ h.retVal, c.openTime = startTime * 1000) ↔ StartServed U server symbol interval startTime endTime := by
  have hwalk := RESTClient.download_walk U server symbol interval startTime hrun
  rw [RESTClient.download_retVal U server symbol interval startTime hrun]
  unfold StartServed
  constructor
  · rintro ⟨c, hc, hstart⟩
    obtain ⟨n, stop, candles, hasked, hn, hcn⟩ := hwalk.mem_dropLast_iff.mp hc
    exact ⟨n, stop, candles, hasked, hn, c, hcn, hstart⟩
  · rintro ⟨n, stop, candles, hasked, hn, c, hcn, hstart⟩
    exact ⟨c, hwalk.mem_dropLast_iff.mpr ⟨n, stop, candles, hasked, hn, hcn⟩, hstart⟩

include hserver in
theorem client_ends : ∃ fuel r, RESTClient.getHistoricalPrices U server symbol interval startTime endTime fuel = some r := by
  by_cases hlt : startTime < endTime
  · obtain ⟨fuel, r, hrun, -⟩ := RESTClient.getHistoricalPrices_bounded hserver.firstInTime hlt
    exact ⟨fuel, r, hrun⟩
  · refine ⟨1, .ok { currentEndTime := endTime, candles := [], retVal := [], written := [], requests := 0 }, ?_⟩
    unfold RESTClient.getHistoricalPrices RESTClient.start
    simp only [if_neg hlt]
    rfl

end

/-! ## The connector -/

theorem before_start_iff {startTime t : Int} (ht : startTime / 1000 ≤ t) :
    t * 1000 < startTime ↔ ¬ 1000 ∣ startTime ∧ t = startTime / 1000 := by
  constructor
  · intro hlt
    refine ⟨fun hdvd => ?_, ?_⟩ <;> omega
  · rintro ⟨hdvd, rfl⟩
    omega

theorem getHistoricalCandles_inRange_iff {U : JsonUtils} (convertTo : ℚ → Double) {server : KlineServer}
    {symbol : String} {interval : CommonCandleInterval} {mexcInterval : CandleInterval}
    (hinterval : toMexcInterval interval = .ok mexcInterval) (hserver : WithinSeconds U server symbol mexcInterval)
    {startTime endTime : Int} (hnonneg : 0 ≤ startTime) (hle : startTime ≤ endTime) :
    ∃ fuel r, getHistoricalCandles U convertTo server symbol interval startTime endTime fuel = some r ∧
      ∀ candles, r = .ok candles → ((∀ c ∈ candles, startTime ≤ c.openTime ∧ c.openTime ≤ endTime) ↔
        1000 ∣ startTime ∨ ¬ StartServed U server symbol mexcInterval (startTime / 1000) (endTime / 1000)) := by
  obtain ⟨fuel, r, hrun⟩ : ∃ fuel r, RESTClient.getHistoricalPrices U server symbol mexcInterval (startTime / 1000)
      (endTime / 1000) fuel = some r := client_ends hserver
  refine ⟨fuel, r.map fun h => h.retVal.map (toCandle convertTo), ?_, ?_⟩
  · unfold getHistoricalCandles
    rw [hinterval, Int.tdiv_eq_ediv_of_nonneg hnonneg, Int.tdiv_eq_ediv_of_nonneg (by omega)]
    simp only [hrun, Option.map_some]
  · intro candles hr
    cases r with
    | error e => cases hr
    | ok h =>
      cases hr
      have hwithin := returned_within hserver hrun
      rw [← start_returned_iff hrun]
      constructor
      · intro hrange
        refine or_iff_not_imp_left.mpr fun hdvd => ?_
        rintro ⟨c, hc, hstart⟩
        have := (hrange _ (List.mem_map_of_mem hc)).1
        have hlt := (before_start_iff (le_refl (startTime / 1000))).mpr ⟨hdvd, rfl⟩
        have hopen : (toCandle convertTo c).openTime = startTime / 1000 * 1000 := hstart
        omega
      · intro hcond _ hmem
        obtain ⟨c, hc, rfl⟩ := List.mem_map.mp hmem
        obtain ⟨⟨t, ht⟩, hlo, hhi⟩ := hwithin c hc
        show startTime ≤ c.openTime ∧ c.openTime ≤ endTime
        refine ⟨Int.not_lt.mp fun hlt => ?_, by omega⟩
        rw [ht] at hlt
        obtain ⟨hdvd, hsecond⟩ := (before_start_iff (by omega)).mp hlt
        rcases hcond with hd | hnone
        · exact hdvd hd
        · exact hnone ⟨c, hc, by rw [ht, hsecond]⟩

theorem exchange_withinSeconds {U : JsonUtils} (hU : U.Lawful) {series : List Kline} (answers : KlineAnswers series)
    (symbol : String) (interval : CandleInterval) : WithinSeconds U (answers.server symbol interval) symbol interval := by
  intro n startTime endTime candles hcandles c hc
  rw [RESTClient.fetch_answers hU] at hcandles
  cases hcandles
  obtain ⟨k, hk, rfl⟩ := List.mem_map.mp hc
  obtain ⟨hlo, hhi⟩ : startTime ≤ k.time ∧ k.time ≤ endTime := answers.inRange _ _ k hk
  show startTime * 1000 ≤ k.time * 1000 ∧ k.time * 1000 ≤ endTime * 1000
  omega

theorem getHistoricalCandles_inRange_example :
    ∃ fuel r, getHistoricalCandles JsonUtils.plain .finite
      ((exchangeAnswers 3 threeCandles).server "BTC_USDT" ._1m) "BTC_USDT" ._1m
        60500 300000 fuel = some r ∧
      ∀ candles, r = .ok candles → ((∀ c ∈ candles, 60500 ≤ c.openTime ∧ c.openTime ≤ 300000) ↔
        (1000 : Int) ∣ 60500 ∨
          ¬ StartServed JsonUtils.plain ((exchangeAnswers 3 threeCandles).server "BTC_USDT" ._1m) "BTC_USDT" ._1m 60 300) :=
  getHistoricalCandles_inRange_iff .finite rfl (exchange_withinSeconds JsonUtils.plain_lawful _ _ _) (by decide)
    (by decide)

theorem getHistoricalCandles_before_start :
    WithinSeconds JsonUtils.plain ((exchangeAnswers 3 threeCandles).server "BTC_USDT" ._1m) "BTC_USDT" ._1m ∧
    ∃ fuel candles, getHistoricalCandles JsonUtils.plain .finite
      ((exchangeAnswers 3 threeCandles).server "BTC_USDT" ._1m) "BTC_USDT" ._1m
        60500 300000 fuel = some (.ok candles) ∧
      ∃ c ∈ candles, c.openTime < 60500 := by
  refine ⟨exchange_withinSeconds JsonUtils.plain_lawful _ _ _, ?_⟩
  obtain ⟨fuel, h, hrun, -⟩ := RESTClient.download_trimmed JsonUtils.plain_lawful (exchangeAnswers 3 threeCandles)
    "BTC_USDT" ._1m (threeCandles_live (show (300000 : Int) ≤ 300000 by decide)) 60 300
  have hserved : StartServed JsonUtils.plain
      ((exchangeAnswers 3 threeCandles).server "BTC_USDT" ._1m) "BTC_USDT" ._1m 60 300 :=
    ⟨0, 300, _, .here, RESTClient.fetch_answers JsonUtils.plain_lawful _ _ _ _ _ _, (flat 60 10).candle,
      List.mem_cons_self, rfl⟩
  obtain ⟨c, hc, hopen⟩ := (start_returned_iff hrun).mpr hserved
  refine ⟨fuel, h.retVal.map (toCandle .finite), ?_, _, List.mem_map_of_mem hc, ?_⟩
  · show (RESTClient.getHistoricalPrices JsonUtils.plain
      ((exchangeAnswers 3 threeCandles).server "BTC_USDT" ._1m) "BTC_USDT" ._1m 60 300
      fuel).map _ = _
    rw [hrun]
    rfl
  · show c.openTime < 60500
    omega

end Futures

end MexcApi
