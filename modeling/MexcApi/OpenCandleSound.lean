import MexcApi.Live
import MexcApi.FuturesHistorySound
import MexcApi.SpotHistorySound

/-!
# When the newest candle is treated right

The spot client returns every candle it gets, the futures client all but the
newest one. Neither compares a time with the clock. The exchange answers with
any part of its series that lies in the range of the request.
-/

namespace MexcApi

open Nlohmann Windows

/-! ## The spot client -/

namespace Spot

structure KlineAnswers {U : JsonUtils} (series : List (Kline U)) where
  klines : Nat → KlineRequest → List (Kline U)
  sublist : ∀ n req, (klines n req).Sublist series
  inRange : ∀ n req, ∀ k ∈ klines n req,
    (∀ startTime ∈ req.startTime, startTime ≤ k.openTime) ∧ k.openTime ≤ req.endTime

def KlineAnswers.server {U : JsonUtils} {series : List (Kline U)} (answers : KlineAnswers series) (symbol : String)
    (interval : CandleInterval) : KlineServer :=
  fun n req =>
    if req.For symbol interval then
      .ok { result := 200, body := "", json := some (.arr ((answers.klines n req).map (·.json))) }
    else .ok { result := 400, body := "", json := none }

namespace RESTClient

/-- What is returned is what was written, put together in order. -/
structure Gathered {U : JsonUtils} (series : List (Kline U)) (interval : CandleInterval) (now : Int) (first : List Candle)
    (s : History) : Prop where
  collected : Collected Candle.openTime interval.numberOfMsForCandleInterval now (series.map (·.value)) first s.candles
    s.written
  retVal : s.retVal = s.written.reverse.flatten

section
variable {U : JsonUtils} {series : List (Kline U)} (answers : KlineAnswers series) (symbol : String)
  (interval : CandleInterval) (startTime endTime : Int) (limit : Nat)

/-- The answer to the first request; a large range is requested without a start. -/
def firstKlines : List (Kline U) :=
  if startTime ≤ endTime then
    let rangeMs := endTime - startTime
    let maxRangeForFirstCall := limit * interval.numberOfMsForCandleInterval
    let firstStartTime := if rangeMs > maxRangeForFirstCall then 0 else startTime
    answers.klines 0 (klineRequest symbol interval firstStartTime endTime limit)
  else []

theorem fetch_answers (n : Nat) :
    P.getHistoricalPrices U (answers.server symbol interval n) symbol interval startTime endTime limit =
      .ok ((answers.klines n (klineRequest symbol interval startTime endTime limit)).map (·.value)) := by
  have hreply : answers.server symbol interval n (klineRequest symbol interval startTime endTime limit) = _ :=
    if_pos (klineRequest_for symbol interval startTime endTime limit)
  unfold klineRequest at hreply
  unfold P.getHistoricalPrices
  rw [hreply]
  exact Encoded.mapM_json _

theorem start_answers : ∃ requests, start U (answers.server symbol interval) symbol interval startTime limit endTime = .ok {
    currentEndTime := endTime
    candles := (firstKlines answers symbol interval startTime endTime limit).map (·.value)
    retVal := [], written := [], requests } := by
  unfold start firstKlines
  by_cases hle : startTime ≤ endTime
  · by_cases hlarge : endTime - startTime > limit * interval.numberOfMsForCandleInterval
    · simp only [if_pos hle, if_pos hlarge, fetch_answers]
      exact ⟨1, rfl⟩
    · simp only [if_pos hle, if_neg hlarge, fetch_answers]
      exact ⟨1, rfl⟩
  · simp only [if_neg hle]
    exact ⟨0, rfl⟩

theorem fetch_older (n : Nat) : ∃ cs,
    P.getHistoricalPrices U (answers.server symbol interval n) symbol interval startTime endTime limit = .ok cs ∧
      cs.Sublist (series.map (·.value)) ∧ ∀ c ∈ cs, c.openTime ≤ endTime := by
  refine ⟨_, fetch_answers answers symbol interval startTime endTime limit n, (answers.sublist _ _).map _, ?_⟩
  intro c hc
  obtain ⟨k, hk, rfl⟩ := List.mem_map.mp hc
  exact (answers.inRange _ _ k hk).2

theorem gathered_batch {now : Int} {first : List Candle}
    (hs : Live Candle.openTime interval.numberOfMsForCandleInterval now (series.map (·.value))) (s : History)
    (h : Gathered series interval now first s) :
    (∃ s', batch U (answers.server symbol interval) symbol interval startTime limit s = .ok (.next s') ∧
      Gathered series interval now first s' ∧
      remaining Candle.openTime (series.map (·.value)) s'.candles <
        remaining Candle.openTime (series.map (·.value)) s.candles) ∨
    ∃ r, batch U (answers.server symbol interval) symbol interval startTime limit s = .ok (.stop r) ∧
      Gathered series interval now first r ∧ r.candles = [] := by
  have hI := interval.numberOfMs_pos
  have hcol := h.collected
  cases hc : s.candles with
  | nil => exact Or.inr ⟨s, batch_nil U _ symbol interval startTime limit hc, h, hc⟩
  | cons oldest rest =>
    left
    rw [hc] at hcol
    have hmem := hcol.subset List.mem_cons_self
    have hret : s.candles ++ s.retVal = (s.written ++ [s.candles]).reverse.flatten := by
      rw [reverse_flatten_snoc, h.retVal]
    by_cases hle : startTime ≤ oldest.openTime - interval.numberOfMsForCandleInterval
    · obtain ⟨cs, hget, hsub, hstop⟩ := fetch_older answers symbol interval
        (max startTime (oldest.openTime - interval.numberOfMsForCandleInterval - limit *
          interval.numberOfMsForCandleInterval))
        (oldest.openTime - interval.numberOfMsForCandleInterval) limit s.requests
      have hlt : ∀ c ∈ cs, c.openTime < oldest.openTime := by
        intro c hcs
        have := hstop c hcs
        omega
      refine ⟨_, batch_request U _ symbol interval startTime limit hc hle hget, ⟨?_, hret⟩, remaining_next _ hmem hlt⟩
      rw [hc]
      exact hcol.next _ hs hsub hlt
    · refine ⟨_, batch_done U _ symbol interval startTime limit hc hle, ⟨?_, hret⟩,
        remaining_next _ hmem (List.forall_mem_nil _)⟩
      rw [hc]
      exact hcol.next _ hs (List.nil_sublist _) (List.forall_mem_nil _)

theorem download_trimmed {now : Int} (hs : Live Kline.openTime interval.numberOfMsForCandleInterval now series)
    (lo hi : Int) :
    ∃ fuel h, download U (answers.server symbol interval) symbol interval startTime limit endTime fuel = some (.ok h) ∧
      (Trimmed Candle.openTime interval.numberOfMsForCandleInterval now lo hi h.written.reverse.flatten h.retVal ↔
        ∀ k ∈ (firstKlines answers symbol interval startTime endTime limit).getLast?,
          k.openTime + interval.numberOfMsForCandleInterval ≤ now) := by
  have hlive : Live Candle.openTime interval.numberOfMsForCandleInterval now (series.map (·.value)) :=
    Live.map Candle.openTime hs
  obtain ⟨requests, hstart⟩ := start_answers answers symbol interval startTime endTime limit
  have hsub : (firstKlines answers symbol interval startTime endTime limit).Sublist series := by
    unfold firstKlines
    split
    · exact answers.sublist _ _
    · exact List.nil_sublist _
  obtain ⟨r, ⟨fuel, hrun⟩, hgath, hnil⟩ := Loop.returns_of_variant
    (batch U (answers.server symbol interval) symbol interval startTime limit)
    (fun s => remaining Candle.openTime (series.map (·.value)) s.candles)
    (gathered_batch answers symbol interval startTime limit hlive)
    (s := { currentEndTime := endTime
            candles := (firstKlines answers symbol interval startTime endTime limit).map (·.value)
            retVal := [], written := [], requests })
    ⟨.start _ hlive (hsub.map _), rfl⟩
  refine ⟨fuel, r, ?_, ?_⟩
  · unfold download
    rw [hstart]
    exact hrun
  · have hcol := hgath.collected
    have hlast := hcol.last
    rw [hnil, List.nil_append] at hlast
    have hall := hcol.live
    rw [hnil, List.nil_append] at hall
    rw [hgath.retVal, trimmed_self _ hall, hlast, List.getLast?_map]
    simp

end

end RESTClient

def exchangeAnswers {U : JsonUtils} (series : List (Kline U)) : KlineAnswers series where
  klines _ req := klines series req
  sublist _ req := by
    unfold klines
    split
    · exact (List.take_sublist _ _).trans List.filter_sublist
    · exact (List.drop_sublist _ _).trans List.filter_sublist
  inRange _ req k hk := by
    unfold klines at hk
    split at hk
    · rename_i startTime hstart
      obtain ⟨-, hlo, hhi⟩ := (mem_inRange _).mp (List.mem_of_mem_take hk)
      refine ⟨fun a ha => ?_, hhi⟩
      rw [hstart] at ha
      cases ha
      exact hlo
    · rename_i hstart
      have hhi := (List.mem_filter.mp (List.mem_of_mem_drop hk)).2
      refine ⟨fun a ha => ?_, by simpa using hhi⟩
      rw [hstart] at ha
      cases ha

end Spot

/-! ## The futures client -/

namespace Futures

abbrev Kline.openTime (k : Kline) : Int := k.candle.openTime

structure KlineAnswers (series : List Kline) where
  klines : Nat → KlineRequest → List Kline
  sublist : ∀ n req, (klines n req).Sublist series
  inRange : ∀ n req, ∀ k ∈ klines n req, req.start ≤ k.time ∧ k.time ≤ req.end

def KlineAnswers.server {series : List Kline} (answers : KlineAnswers series) (symbol : String)
    (interval : CandleInterval) : KlineServer :=
  fun n req =>
    if req.For symbol interval then
      .ok { result := 200, body := "", json := some (klineReply (answers.klines n req)) }
    else .ok { result := 400, body := "", json := none }

namespace RESTClient

structure Gathered (series : List Kline) (interval : CandleInterval) (now startTime endTime : Int)
    (first : List Candle) (s : History) : Prop where
  collected : Collected Candle.openTime interval.numberOfMsForCandleInterval now (series.map Kline.candle) first s.candles
    s.written
  retVal : s.retVal = s.written.reverse.flatten
  inRange : ∀ c ∈ s.candles ++ s.written.reverse.flatten, startTime * 1000 ≤ c.openTime ∧ c.openTime ≤ endTime * 1000

/-- What is returned is what was written, put together in order, without its
last candle. -/
structure Finished (series : List Kline) (interval : CandleInterval) (now startTime endTime : Int)
    (first : List Candle) (r : History) : Prop where
  collected : Collected Candle.openTime interval.numberOfMsForCandleInterval now (series.map Kline.candle) first []
    r.written
  retVal : r.retVal = r.written.reverse.flatten.dropLast
  inRange : ∀ c ∈ r.written.reverse.flatten, startTime * 1000 ≤ c.openTime ∧ c.openTime ≤ endTime * 1000

section
variable {U : JsonUtils} (hU : U.Lawful) {series : List Kline} (answers : KlineAnswers series) (symbol : String)
  (interval : CandleInterval) (startTime endTime : Int)

/-- The answer to the first request. -/
def firstKlines : List Kline :=
  if startTime < endTime then answers.klines 0 (klineRequest symbol interval startTime endTime) else []

include hU in
theorem fetch_answers (n : Nat) :
    P.getHistoricalPrices U (answers.server symbol interval n) symbol interval startTime endTime =
      .ok ((answers.klines n (klineRequest symbol interval startTime endTime)).map Kline.candle) := by
  have h : handleMEXCResponse (Candles.fromJson U) Candles.toResponse
      { result := 200, body := "",
        json := some (klineReply (answers.klines n (klineRequest symbol interval startTime endTime))) } = _ :=
    handleMEXCResponse_ok rfl (fromJson_reply hU _) rfl
  have hreply : answers.server symbol interval n (klineRequest symbol interval startTime endTime) = _ :=
    if_pos (klineRequest_for symbol interval startTime endTime)
  unfold klineRequest at hreply
  unfold P.getHistoricalPrices
  rw [hreply]
  simp only [bind, Except.bind, checkResponse_ok]
  unfold klineRequest at h
  rw [h]
  rfl

theorem first_inRange {k : Kline} (hk : k ∈ firstKlines answers symbol interval startTime endTime) :
    startTime ≤ k.time ∧ k.time ≤ endTime := by
  unfold firstKlines at hk
  split at hk
  · exact answers.inRange _ _ k hk
  · cases hk

include hU in
theorem start_answers : ∃ requests, start U (answers.server symbol interval) symbol interval startTime endTime = .ok {
    currentEndTime := endTime
    candles := (firstKlines answers symbol interval startTime endTime).map Kline.candle
    retVal := [], written := [], requests } := by
  unfold start firstKlines
  by_cases hlt : startTime < endTime
  · simp only [if_pos hlt, fetch_answers hU]
    exact ⟨1, rfl⟩
  · simp only [if_neg hlt]
    exact ⟨0, rfl⟩

include hU in
theorem fetch_older (n : Nat) : ∃ cs,
    P.getHistoricalPrices U (answers.server symbol interval n) symbol interval startTime endTime = .ok cs ∧
      cs.Sublist (series.map Kline.candle) ∧
      ∀ c ∈ cs, startTime * 1000 ≤ c.openTime ∧ c.openTime ≤ endTime * 1000 := by
  refine ⟨_, fetch_answers hU answers symbol interval startTime endTime n, (answers.sublist _ _).map _, ?_⟩
  intro c hc
  obtain ⟨k, hk, rfl⟩ := List.mem_map.mp hc
  obtain ⟨hlo, hhi⟩ := answers.inRange _ _ k hk
  show startTime * 1000 ≤ k.time * 1000 ∧ k.time * 1000 ≤ endTime * 1000
  simp only [klineRequest] at hlo hhi
  omega

variable {startTime endTime}

include hU in
theorem gathered_batch {now : Int} {first : List Candle}
    (hs : Live Candle.openTime interval.numberOfMsForCandleInterval now (series.map Kline.candle)) (s : History)
    (h : Gathered series interval now startTime endTime first s) :
    (∃ s', batch U (answers.server symbol interval) symbol interval startTime s = .ok (.next s') ∧
      Gathered series interval now startTime endTime first s' ∧
      remaining Candle.openTime (series.map Kline.candle) s'.candles <
        remaining Candle.openTime (series.map Kline.candle) s.candles) ∨
    ∃ r, batch U (answers.server symbol interval) symbol interval startTime s = .ok (.stop r) ∧
      Finished series interval now startTime endTime first r := by
  have hcol := h.collected
  have hin := h.inRange
  cases hc : s.candles with
  | nil =>
    rw [hc] at hcol hin
    refine Or.inr ⟨_, batch_empty symbol interval hc, hcol, ?_, hin⟩
    rw [h.retVal]
  | cons oldest rest =>
    left
    rw [hc] at hcol
    have hmem := hcol.subset List.mem_cons_self
    obtain ⟨k, -, rfl⟩ := List.mem_map.mp hmem
    have hwritten := reverse_flatten_snoc s.written s.candles
    have hret : s.candles ++ s.retVal = (s.written ++ [s.candles]).reverse.flatten := by rw [hwritten, h.retVal]
    by_cases hle : startTime < k.candle.openTime.tdiv 1000 - 1
    · obtain ⟨cs, hget, hsub, hstop⟩ := fetch_older hU answers symbol interval startTime
        (k.candle.openTime.tdiv 1000 - 1) s.requests
      have htime : k.candle.openTime = k.time * 1000 := rfl
      have hk := hin k.candle (List.mem_append_left _ (by rw [hc]; exact List.mem_cons_self))
      have hlt : ∀ c ∈ cs, c.openTime < k.candle.openTime := by
        intro c hcs
        have := (hstop c hcs).2
        rw [oldest_end] at this
        omega
      refine ⟨_, batch_request symbol interval hc hle hget, ⟨?_, hret, ?_⟩, remaining_next _ hmem hlt⟩
      · rw [hc]
        exact hcol.next _ hs hsub hlt
      · intro c hcs
        rw [hwritten] at hcs
        rcases List.mem_append.mp hcs with hcs | hcs
        · have := hlt c hcs
          have := (hstop c hcs).1
          omega
        · exact hin c hcs
    · refine ⟨_, batch_done symbol interval hc hle, ⟨?_, hret, ?_⟩, remaining_next _ hmem (List.forall_mem_nil _)⟩
      · rw [hc]
        exact hcol.next _ hs (List.nil_sublist _) (List.forall_mem_nil _)
      · rw [hwritten]
        exact hin

include hU in
theorem download_trimmed {now : Int} (hs : Live Kline.openTime interval.numberOfMsForCandleInterval now series)
    (startTime endTime : Int) :
    ∃ fuel h, getHistoricalPrices U (answers.server symbol interval) symbol interval startTime endTime fuel = some (.ok h) ∧
      (Trimmed Candle.openTime interval.numberOfMsForCandleInterval now (startTime * 1000) (endTime * 1000)
          h.written.reverse.flatten h.retVal ↔
        ∀ k ∈ (firstKlines answers symbol interval startTime endTime).getLast?,
          now < k.openTime + interval.numberOfMsForCandleInterval) := by
  have hlive : Live Candle.openTime interval.numberOfMsForCandleInterval now (series.map Kline.candle) :=
    Live.map Candle.openTime hs
  obtain ⟨requests, hstart⟩ := start_answers hU answers symbol interval startTime endTime
  have hfirst : ∀ c ∈ (firstKlines answers symbol interval startTime endTime).map Kline.candle ++ [],
      startTime * 1000 ≤ c.openTime ∧ c.openTime ≤ endTime * 1000 := by
    intro c hc
    rw [List.append_nil] at hc
    obtain ⟨k, hk, rfl⟩ := List.mem_map.mp hc
    obtain ⟨hlo, hhi⟩ := first_inRange answers symbol interval startTime endTime hk
    show startTime * 1000 ≤ k.time * 1000 ∧ k.time * 1000 ≤ endTime * 1000
    omega
  have hsub : (firstKlines answers symbol interval startTime endTime).Sublist series := by
    unfold firstKlines
    split
    · exact answers.sublist _ _
    · exact List.nil_sublist _
  obtain ⟨r, ⟨fuel, hrun⟩, hfin⟩ := Loop.returns_of_variant
    (batch U (answers.server symbol interval) symbol interval startTime)
    (fun s => remaining Candle.openTime (series.map Kline.candle) s.candles)
    (gathered_batch hU answers symbol interval hlive)
    (s := { currentEndTime := endTime
            candles := (firstKlines answers symbol interval startTime endTime).map Kline.candle
            retVal := [], written := [], requests })
    ⟨.start _ hlive (hsub.map _), rfl, hfirst⟩
  refine ⟨fuel, r, ?_, ?_⟩
  · unfold getHistoricalPrices
    rw [hstart]
    exact hrun
  · have hall := hfin.collected.live
    have hlast := hfin.collected.last
    rw [List.nil_append] at hall hlast
    rw [hfin.retVal, trimmed_dropLast _ hall hfin.inRange, hlast, List.getLast?_map]
    simp

end

end RESTClient

def exchangeAnswers (cap : Nat) (series : List Kline) : KlineAnswers series where
  klines _ req := newest cap (inRange Kline.time req.start req.end series)
  sublist _ _ := (List.drop_sublist _ _).trans List.filter_sublist
  inRange _ _ _ hk := ((mem_inRange _).mp (List.mem_of_mem_drop hk)).2

end Futures

/-! ## Both clients -/

theorem getHistoricalPrices_trimmed_iff {U : JsonUtils} (hU : U.Lawful) (symbol : String) (interval : CandleInterval)
    {now : Int} {spotSeries : List (Spot.Kline U)} {futuresSeries : List Futures.Kline}
    (hspot : Live Spot.Kline.openTime interval.numberOfMsForCandleInterval now spotSeries)
    (hfutures : Live Futures.Kline.openTime interval.numberOfMsForCandleInterval now futuresSeries)
    (spot : Spot.KlineAnswers spotSeries) (futures : Futures.KlineAnswers futuresSeries) :
    (∀ startTime endTime, ∃ fuel h,
      Spot.RESTClient.getHistoricalPrices U (spot.server symbol interval) symbol interval startTime endTime
        fuel = some (.ok h) ∧
      (Trimmed Spot.Candle.openTime interval.numberOfMsForCandleInterval now startTime endTime
          h.written.reverse.flatten h.retVal ↔
        ∀ k ∈ (Spot.RESTClient.firstKlines spot symbol interval startTime endTime Spot.RESTClient.limit).getLast?,
          k.openTime + interval.numberOfMsForCandleInterval ≤ now)) ∧
    ∀ startTime endTime, ∃ fuel h,
      Futures.RESTClient.getHistoricalPrices U
        (futures.server symbol interval) symbol interval startTime endTime fuel = some (.ok h) ∧
      (Trimmed Futures.Candle.openTime interval.numberOfMsForCandleInterval now (startTime * 1000) (endTime * 1000)
          h.written.reverse.flatten h.retVal ↔
        ∀ k ∈ (Futures.RESTClient.firstKlines futures symbol interval startTime endTime).getLast?,
          now < k.openTime + interval.numberOfMsForCandleInterval) :=
  ⟨fun startTime endTime =>
      Spot.RESTClient.download_trimmed spot symbol interval startTime endTime Spot.RESTClient.limit hspot startTime endTime,
    fun startTime endTime => Futures.RESTClient.download_trimmed hU futures symbol interval hfutures startTime endTime⟩

def threeCandles : List Futures.Kline := [Futures.flat 60 10, Futures.flat 120 11, Futures.flat 300 12]

theorem minutes_live {now : Int} (hnow : 120000 ≤ now) :
    Live Spot.Kline.openTime (CandleInterval.numberOfMsForCandleInterval ._1m) now (Spot.RESTClient.minutes 2) := by
  refine Apart.live _ (by decide) (by unfold Apart; decide) fun k hk => ?_
  obtain ⟨i, hi, rfl⟩ := List.mem_map.mp hk
  have := List.mem_range.mp hi
  show (60000 : Int) * (i + 1) ≤ now
  omega

theorem threeCandles_live {now : Int} (hnow : 300000 ≤ now) :
    Live Futures.Kline.openTime (CandleInterval.numberOfMsForCandleInterval ._1m) now threeCandles := by
  refine Apart.live _ (by decide) (by unfold Apart; decide) fun k hk => ?_
  have hall : ∀ k ∈ threeCandles, k.openTime ≤ 300000 := by decide
  exact Int.le_trans (hall k hk) hnow

theorem getHistoricalPrices_trimmed_example :
    (∀ startTime endTime, ∃ fuel h,
      Spot.RESTClient.getHistoricalPrices JsonUtils.plain
        ((Spot.exchangeAnswers (Spot.RESTClient.minutes 2)).server "BTCUSDT" ._1m)
        "BTCUSDT" ._1m startTime endTime fuel = some (.ok h) ∧
      (Trimmed Spot.Candle.openTime 60000 330000 startTime endTime h.written.reverse.flatten h.retVal ↔
        ∀ k ∈ (Spot.RESTClient.firstKlines (Spot.exchangeAnswers (Spot.RESTClient.minutes 2)) "BTCUSDT" ._1m startTime
          endTime Spot.RESTClient.limit).getLast?, k.openTime + 60000 ≤ 330000)) ∧
    ∀ startTime endTime, ∃ fuel h,
      Futures.RESTClient.getHistoricalPrices JsonUtils.plain ((Futures.exchangeAnswers 1 threeCandles).server "BTCUSDT" ._1m)
        "BTCUSDT" ._1m startTime endTime fuel = some (.ok h) ∧
      (Trimmed Futures.Candle.openTime 60000 330000 (startTime * 1000) (endTime * 1000) h.written.reverse.flatten
          h.retVal ↔
        ∀ k ∈ (Futures.RESTClient.firstKlines (Futures.exchangeAnswers 1 threeCandles) "BTCUSDT" ._1m startTime
          endTime).getLast?, 330000 < k.openTime + 60000) :=
  getHistoricalPrices_trimmed_iff JsonUtils.plain_lawful "BTCUSDT" ._1m (minutes_live (by decide))
    (threeCandles_live (by decide)) (Spot.exchangeAnswers _) (Futures.exchangeAnswers 1 _)

/-- At 150000 the second minute is open, and the spot client returns it; at
400000 all three candles are closed, and the futures client drops the last one. -/
theorem newest_candle_wrong :
    (∃ fuel h, Spot.RESTClient.getHistoricalPrices JsonUtils.plain
    (Spot.exchange "BTCUSDT" ._1m (Spot.RESTClient.minutes 2)) "BTCUSDT"
        ._1m 60000 150000 fuel = some (.ok h) ∧
      ¬ Trimmed Spot.Candle.openTime 60000 150000 60000 150000 h.written.reverse.flatten h.retVal) ∧
    ∃ fuel h, Futures.RESTClient.getHistoricalPrices JsonUtils.plain
      (Futures.exchange "BTC_USDT" ._1m 1 threeCandles) "BTC_USDT"
        ._1m 60 300 fuel = some (.ok h) ∧
      ¬ Trimmed Futures.Candle.openTime 60000 400000 60000 300000 h.written.reverse.flatten h.retVal := by
  constructor
  · obtain ⟨fuel, h, hrun, hiff⟩ := Spot.RESTClient.download_trimmed
      (Spot.exchangeAnswers (Spot.RESTClient.minutes 2)) "BTCUSDT" ._1m 60000 150000 Spot.RESTClient.limit
      (minutes_live (show (120000 : Int) ≤ 150000 by decide)) 60000 150000
    refine ⟨fuel, h, hrun, ?_⟩
    intro ht
    have hclosed := hiff.mp ht (Spot.RESTClient.minute 1) rfl
    have hopen : ¬ (Spot.RESTClient.minute 1).openTime + CandleInterval.numberOfMsForCandleInterval ._1m ≤ 150000 := by
      decide
    exact hopen hclosed
  · obtain ⟨fuel, h, hrun, hiff⟩ := Futures.RESTClient.download_trimmed JsonUtils.plain_lawful
      (Futures.exchangeAnswers 1 threeCandles) "BTC_USDT" ._1m (threeCandles_live (show (300000 : Int) ≤ 400000 by decide))
      60 300
    refine ⟨fuel, h, hrun, ?_⟩
    intro ht
    have hopen := hiff.mp ht (Futures.flat 300 12) rfl
    have hclosed : ¬ 400000 < (Futures.flat 300 12).openTime + CandleInterval.numberOfMsForCandleInterval ._1m := by
      decide
    exact hclosed hopen

end MexcApi
