import MexcApi.DownloadRunsSound
import MexcApi.OverflowSound

/-!
# Order and length of the downloads with checked arithmetic

A download that never overflows is the exact one, so it is ascending and ends
within the bound. A download that overflows is undefined, and nothing is known
of its order or of its number of requests.
-/

namespace MexcApi

open Nlohmann Windows Checked

/-! ## The spot client -/

namespace Spot.RESTClient

/-- The range of the caller fits, and so do the steps back from the oldest candle
of every answer. -/
structure StepsFit (U : JsonUtils) (server : KlineServer) (symbol : String) (interval : CandleInterval)
    (startTime endTime : Int) : Prop where
  range : startTime ≤ endTime → endTime - startTime ≤ 9223372036854775807
  steps : ∀ s, Begins U server symbol interval startTime endTime s → ∀ oldest rest, s.candles = oldest :: rest →
    StepsBack interval startTime oldest

section
variable {U : JsonUtils} {server : KlineServer} {symbol : String} {interval : CandleInterval} {startTime endTime : Int}

theorem never_iff (hserver : TimesFit U server) :
    (∀ fuel, Checked.getHistoricalPrices U server symbol interval startTime endTime fuel ≠ some (.error .overflow)) ↔
      StepsFit U server symbol interval startTime endTime := by
  rw [overflow_iff hserver endTime]
  constructor
  · rintro ⟨hrange, hsteps⟩
    exact ⟨hrange, hsteps⟩
  · rintro ⟨hrange, hsteps⟩
    exact ⟨hrange, hsteps⟩

theorem stepsFit_of_serves (hserver : Serves U server fun c =>
      -9223372036854775808 + (limit + 1) * interval.numberOfMsForCandleInterval ≤ c.openTime)
    (hrange : startTime ≤ endTime → endTime - startTime ≤ 9223372036854775807) :
    StepsFit U server symbol interval startTime endTime := by
  refine ⟨hrange, fun s hs oldest rest hc => ?_⟩
  have hlate := hs.serves hserver oldest (by simp [hc])
  have hI := interval.numberOfMs_pos
  unfold limit at hlate
  constructor
  · omega
  · intro _
    unfold limit
    omega

theorem checked_eq
    (hnever : ∀ fuel, Checked.getHistoricalPrices U server symbol interval startTime endTime fuel ≠ some (.error .overflow))
    (fuel : Nat) : Checked.getHistoricalPrices U server symbol interval startTime endTime fuel =
      (getHistoricalPrices U server symbol interval startTime endTime fuel).map raise := by
  have heq := runFrom_eq (batch_checks U server symbol interval startTime)
    (start_checks U server symbol interval startTime endTime) hnever fuel
  unfold Checked.getHistoricalPrices getHistoricalPrices download
  rw [heq]
  cases start U server symbol interval startTime limit endTime <;> rfl

/-- Each request steps back by an interval, so the number of requests so far is
paid for by the distance to the end. -/
theorem Begins.paid (hserver : Answers U server symbol interval FirstInTime) {s : History}
    (h : Begins U server symbol interval startTime endTime s) {oldest : Candle} {rest : List Candle}
    (hc : s.candles = oldest :: rest) :
    ∃ n : Nat, s.requests = n + 1 ∧ oldest.openTime + n * interval.numberOfMsForCandleInterval ≤ endTime := by
  obtain ⟨s₀, hstart, hreaches⟩ := h
  induction hreaches generalizing oldest rest with
  | refl =>
    have hfirst : ∀ stop, P.getHistoricalPrices U (server 0) symbol interval stop endTime limit = .ok s₀.candles →
        oldest.openTime ≤ endTime := fun stop hcandles => hserver 0 stop endTime s₀.candles hcandles oldest (by simp [hc])
    unfold start at hstart
    dsimp only at hstart
    split at hstart
    · split at hstart
      · obtain ⟨candles, hcandles, hstart⟩ := bind_ok hstart
        cases hstart
        exact ⟨0, rfl, by simpa using hfirst 0 hcandles⟩
      · obtain ⟨candles, hcandles, hstart⟩ := bind_ok hstart
        cases hstart
        exact ⟨0, rfl, by simpa using hfirst startTime hcandles⟩
    · cases hstart
      cases hc
  | @next t t' _ hbatch ih =>
    rcases batch_cases U server symbol interval startTime limit hbatch with
      ⟨-, hf⟩ | ⟨o, os, s₁, hct, hf, -, -, hend, hrest⟩
    · cases hf
    · cases hf
      obtain ⟨n, hn, hpaid⟩ := ih hct
      rcases hrest with ⟨hnil, -, -⟩ | ⟨hrequests, -, hcandles⟩
      · rw [hnil] at hc
        cases hc
      · have hfirst : oldest.openTime ≤ t'.currentEndTime := hserver _ _ _ _ hcandles oldest (by simp [hc])
        refine ⟨n + 1, by rw [hrequests, hn], ?_⟩
        rw [Int.natCast_add, Int.add_mul, Int.natCast_one, Int.one_mul]
        omega

theorem Begins.asks_lt (hserver : Answers U server symbol interval FirstInTime) {s : History}
    (h : Begins U server symbol interval startTime endTime s) {oldest : Candle} {rest : List Candle}
    (hc : s.candles = oldest :: rest) (hle : startTime ≤ oldest.openTime - interval.numberOfMsForCandleInterval) :
    (s.requests : Int) < (endTime - startTime) / interval.numberOfMsForCandleInterval + 1 := by
  obtain ⟨n, hn, hpaid⟩ := h.paid hserver hc
  have hI := interval.numberOfMs_pos
  have hdiv : ((n + 1 : Nat) : Int) ≤ (endTime - startTime) / interval.numberOfMsForCandleInterval := by
    refine (Int.le_ediv_iff_mul_le hI).mpr ?_
    rw [Int.natCast_add, Int.add_mul, Int.natCast_one, Int.one_mul]
    omega
  rw [hn]
  omega

/-- A download that makes the first requests only does not see what another
server answers later. -/
theorem checked_congr {server' : KlineServer} {bound : Int} (hfirst : 0 < bound)
    (hsame : ∀ n : Nat, (n : Int) < bound → server' n = server n)
    (hasks : ∀ s, Begins U server symbol interval startTime endTime s → ∀ oldest rest, s.candles = oldest :: rest →
      startTime ≤ oldest.openTime - interval.numberOfMsForCandleInterval → (s.requests : Int) < bound) (fuel : Nat) :
    Checked.getHistoricalPrices U server' symbol interval startTime endTime fuel =
      Checked.getHistoricalPrices U server symbol interval startTime endTime fuel := by
  have hstart : Checked.start U server' symbol interval startTime endTime =
      Checked.start U server symbol interval startTime endTime := by
    unfold Checked.start
    rw [hsame 0 (by simpa using hfirst)]
  unfold Checked.getHistoricalPrices
  rw [hstart]
  cases hs : Checked.start U server symbol interval startTime endTime with
  | error e => rfl
  | ok s =>
    refine Loop.run_congr _ fuel fun t ht => ?_
    have hbegins : Begins U server symbol interval startTime endTime t :=
      ⟨s, (start_checks U server symbol interval startTime endTime).ok hs,
        reaches_of_checked (batch_checks U server symbol interval startTime) ht⟩
    unfold Checked.batch
    cases hc : t.candles with
    | nil => rfl
    | cons oldest rest =>
      refine int64_bind_congr ?_
      by_cases hle : startTime ≤ oldest.openTime - interval.numberOfMsForCandleInterval
      · rw [hsame _ (hasks t hbegins oldest rest hc hle)]
      · simp only [if_neg hle]

end

end Spot.RESTClient

/-! ## The futures client -/

namespace Futures.RESTClient

section
variable {U : JsonUtils} {server : KlineServer} {symbol : String} {interval : CandleInterval} {startTime endTime : Int}

theorem checked_eq
    (hnever : ∀ fuel, Checked.getHistoricalPrices U server symbol interval startTime endTime fuel ≠ some (.error .overflow))
    (fuel : Nat) : Checked.getHistoricalPrices U server symbol interval startTime endTime fuel =
      (getHistoricalPrices U server symbol interval startTime endTime fuel).map raise := by
  have heq := runFrom_eq (batch_checks U server symbol interval startTime)
    (start_checks U server symbol interval startTime endTime) hnever fuel
  unfold Checked.getHistoricalPrices getHistoricalPrices
  rw [heq]
  cases start U server symbol interval startTime endTime <;> rfl

/-- Each request steps back by a second at least. -/
theorem Begins.paid (hserver : Answers U server symbol interval FirstInTime) {s : History}
    (h : Begins U server symbol interval startTime endTime s) {oldest : Candle} {rest : List Candle}
    (hc : s.candles = oldest :: rest) :
    ∃ n : Nat, s.requests = n + 1 ∧ oldest.openTime ≤ (endTime - n) * 1000 := by
  obtain ⟨s₀, hstart, hreaches⟩ := h
  induction hreaches generalizing oldest rest with
  | refl =>
    unfold start at hstart
    split at hstart
    · obtain ⟨candles, hcandles, hstart⟩ := bind_ok hstart
      cases hstart
      have hfirst : oldest.openTime ≤ endTime * 1000 :=
        hserver 0 startTime endTime _ hcandles oldest (by simp [show candles = oldest :: rest from hc])
      exact ⟨0, rfl, by simpa using hfirst⟩
    · cases hstart
      cases hc
  | @next t t' _ hbatch ih =>
    unfold batch at hbatch
    cases hct : t.candles with
    | nil =>
      rw [hct] at hbatch
      cases hbatch
    | cons o os =>
      obtain ⟨n, hn, hpaid⟩ := ih hct
      rw [hct] at hbatch
      dsimp only at hbatch
      split at hbatch
      · rename_i hlt
        obtain ⟨candles, hcandles, hbatch⟩ := bind_ok hbatch
        cases hbatch
        have hfirst : oldest.openTime ≤ (o.openTime.tdiv 1000 - 1) * 1000 :=
          hserver _ startTime _ _ hcandles oldest (by simp [show candles = oldest :: rest from hc])
        have hback : (o.openTime.tdiv 1000 - 1) * 1000 < o.openTime := nextEnd_lt (if_pos hlt)
        exact ⟨n + 1, by rw [hn], by omega⟩
      · cases hbatch
        cases hc

theorem Begins.asks_lt (hserver : Answers U server symbol interval FirstInTime) {s : History}
    (h : Begins U server symbol interval startTime endTime s) {oldest : Candle} {rest : List Candle}
    (hc : s.candles = oldest :: rest) (hlt : startTime < oldest.openTime.tdiv 1000 - 1) :
    (s.requests : Int) < endTime - startTime := by
  obtain ⟨n, hn, hpaid⟩ := h.paid hserver hc
  have hback : (oldest.openTime.tdiv 1000 - 1) * 1000 < oldest.openTime := nextEnd_lt (if_pos hlt)
  rw [hn]
  omega

theorem checked_congr {server' : KlineServer} {bound : Int} (hfirst : 0 < bound)
    (hsame : ∀ n : Nat, (n : Int) < bound → server' n = server n)
    (hasks : ∀ s, Begins U server symbol interval startTime endTime s → ∀ oldest rest, s.candles = oldest :: rest →
      startTime < oldest.openTime.tdiv 1000 - 1 → (s.requests : Int) < bound) (fuel : Nat) :
    Checked.getHistoricalPrices U server' symbol interval startTime endTime fuel =
      Checked.getHistoricalPrices U server symbol interval startTime endTime fuel := by
  have hstart : Checked.start U server' symbol interval startTime endTime =
      Checked.start U server symbol interval startTime endTime := by
    unfold Checked.start
    rw [hsame 0 (by simpa using hfirst)]
  unfold Checked.getHistoricalPrices
  rw [hstart]
  cases hs : Checked.start U server symbol interval startTime endTime with
  | error e => rfl
  | ok s =>
    refine Loop.run_congr _ fuel fun t ht => ?_
    have hbegins : Begins U server symbol interval startTime endTime t :=
      ⟨s, (start_checks U server symbol interval startTime endTime).ok hs,
        reaches_of_checked (batch_checks U server symbol interval startTime) ht⟩
    unfold Checked.batch
    cases hc : t.candles with
    | nil => rfl
    | cons oldest rest =>
      refine int64_bind_congr ?_
      by_cases hlt : startTime < oldest.openTime.tdiv 1000 - 1
      · rw [hsame _ (hasks t hbegins oldest rest hc hlt)]
      · simp only [if_neg hlt]

end

end Futures.RESTClient

/-! ## Servers of one candle -/

/-- One candle, whenever the end of the request allows it, whatever its start is. -/
def onlyCandle (openTime : Int) : Spot.KlineServer := fun n req =>
  if openTime ≤ req.endTime then candleServer openTime n req
  else .ok { result := 200, body := "", json := some (.arr []) }

theorem onlyCandle_cases {openTime : Int} {n : Nat} {symbol : String} {interval : CandleInterval} {startTime endTime : Int}
    {limit : Nat} {candles : List Spot.Candle} (h : Spot.RESTClient.P.getHistoricalPrices .plain (onlyCandle openTime n)
      symbol interval startTime endTime limit = .ok candles) :
    candles = [] ∨ openTime ≤ endTime ∧ ∃ c, candles = [c] ∧ c.openTime = openTime := by
  unfold Spot.RESTClient.P.getHistoricalPrices onlyCandle at h
  dsimp only at h
  by_cases hle : openTime ≤ endTime
  · rw [if_pos hle] at h
    cases h
    exact Or.inr ⟨hle, _, rfl, rfl⟩
  · rw [if_neg hle] at h
    cases h
    exact Or.inl rfl

theorem onlyCandle_ordered (openTime : Int) (symbol : String) (interval : CandleInterval) :
    Spot.Answers .plain (onlyCandle openTime) symbol interval Spot.Ordered := by
  intro n startTime endTime candles h
  rcases onlyCandle_cases h with rfl | ⟨hle, c, rfl, rfl⟩
  · exact ⟨.nil, by simp⟩
  · exact ⟨List.pairwise_singleton _ _, by simpa using hle⟩

theorem onlyCandle_serves (openTime : Int) : Spot.RESTClient.Serves .plain (onlyCandle openTime) fun c =>
    c.openTime = openTime := by
  intro n symbol interval startTime endTime limit candles h
  rcases onlyCandle_cases h with rfl | ⟨-, c, rfl, hc⟩
  · simp
  · simpa using hc

theorem onlyCandle_timesFit {openTime : Int} (h : InInt64 openTime) :
    Spot.RESTClient.TimesFit .plain (onlyCandle openTime) := by
  intro n symbol interval startTime endTime limit candles hcandles c hc
  rw [onlyCandle_serves openTime n symbol interval startTime endTime limit candles hcandles c hc]
  exact h

theorem onlyCandle_stepsFit : Spot.RESTClient.StepsFit .plain (onlyCandle 60000) "BTCUSDT" ._1m 0 120000 := by
  refine Spot.RESTClient.stepsFit_of_serves ?_ (by decide)
  intro n symbol interval startTime endTime limit candles h c hc
  rw [onlyCandle_serves 60000 n symbol interval startTime endTime limit candles h c hc]
  decide

theorem Spot.KlineAnswers.serves {U : JsonUtils} {series : List (Spot.Kline U)} (answers : Spot.KlineAnswers series)
    {kind : Spot.Candle → Prop} (hs : ∀ k ∈ series, kind k.value) (symbol : String) (interval : CandleInterval) :
    Spot.RESTClient.Serves U (answers.server symbol interval) kind := by
  intro n symbol' interval' startTime endTime limit candles h c hc
  by_cases hfor : (Spot.RESTClient.klineRequest symbol' interval' startTime endTime limit).For symbol interval
  · have hreply : answers.server symbol interval n
        (Spot.RESTClient.klineRequest symbol' interval' startTime endTime limit) = _ := if_pos hfor
    unfold Spot.RESTClient.klineRequest at hreply
    unfold Spot.RESTClient.P.getHistoricalPrices at h
    rw [hreply] at h
    obtain rfl := Except.ok.inj ((Encoded.mapM_json _).symm.trans h)
    obtain ⟨k, hk, rfl⟩ := List.mem_map.mp hc
    exact hs k ((answers.sublist n _).subset hk)
  · have hreply : answers.server symbol interval n
        (Spot.RESTClient.klineRequest symbol' interval' startTime endTime limit) = _ := if_neg hfor
    unfold Spot.RESTClient.klineRequest at hreply
    unfold Spot.RESTClient.P.getHistoricalPrices at h
    rw [hreply] at h
    cases h

theorem Futures.KlineAnswers.replyFits {U : JsonUtils} (hU : U.Lawful) {series : List Futures.Kline}
    (answers : Futures.KlineAnswers series) (hs : ∀ k ∈ series, -9223372036854775 ≤ k.time ∧ k.time ≤ 9223372036854775)
    (symbol : String) (interval : CandleInterval) (n : Nat) (req : Futures.KlineRequest) :
    Futures.ReplyFits U (answers.server symbol interval n req) := by
  intro r json hr hresult hjson response hresponse times htimes i t _ ht
  unfold Futures.KlineAnswers.server at hr
  split at hr
  · cases hr
    cases hjson
    rw [Futures.Response.fromJson_success hU rfl rfl rfl] at hresponse
    cases hresponse
    cases htimes
    simp only [Json.accessIndex, Futures.column, List.getElem?_map] at ht
    cases hk : (answers.klines n req)[i]? with
    | none =>
      rw [hk] at ht
      cases ht
    | some k =>
      rw [hk] at ht
      cases ht
      exact hs k ((answers.sublist n req).subset (List.mem_of_getElem? hk))
  · cases hr
    cases hresult

theorem Futures.RESTClient.RepliesFit.of_all {U : JsonUtils} {server : Futures.KlineServer}
    (h : ∀ n req, Futures.ReplyFits U (server n req)) (symbol : String) (interval : CandleInterval)
    (startTime endTime : Int) : RepliesFit U server symbol interval startTime endTime :=
  ⟨fun _ => h 0 _, fun s _ _ _ _ _ => h s.requests _⟩

/-! ## Order -/

theorem getHistoricalPrices_ascending_iff (U : JsonUtils) (symbol : String) (interval : CandleInterval)
    (startTime endTime : Int) :
    (∀ server, Spot.RESTClient.TimesFit U server → Spot.Answers U server symbol interval Spot.Ordered →
      (Meets (Spot.RESTClient.Checked.getHistoricalPrices U server symbol interval startTime endTime) (fun h =>
          Ascending Spot.Candle.openTime h.retVal ∧ Ascending Spot.Candle.openTime h.written.reverse.flatten) ↔
        Spot.RESTClient.StepsFit U server symbol interval startTime endTime)) ∧
    ∀ server, Futures.Answers U server symbol interval Futures.Ordered →
      (Meets (Futures.RESTClient.Checked.getHistoricalPrices U server symbol interval startTime endTime) (fun h =>
          Ascending Futures.Candle.openTime h.retVal ∧ Ascending Futures.Candle.openTime h.written.reverse.flatten) ↔
        Futures.RESTClient.RepliesFit U server symbol interval startTime endTime) := by
  constructor
  · intro server hfits hserver
    constructor
    · intro hmeets
      exact (Spot.RESTClient.never_iff hfits).mp hmeets.defined
    · intro hsteps
      have hnever := (Spot.RESTClient.never_iff hfits).mpr hsteps
      refine .of_raise hnever (Spot.RESTClient.checked_eq hnever) fun fuel h hrun => ?_
      have hasc := Spot.RESTClient.ascending_of_returns hserver hrun
      refine ⟨?_, hasc⟩
      rw [Spot.RESTClient.download_retVal U server symbol interval startTime Spot.RESTClient.limit hrun]
      exact hasc
  · intro server hserver
    constructor
    · intro hmeets
      exact (Futures.RESTClient.overflow_iff endTime).mp hmeets.defined
    · intro hreplies
      have hnever := (Futures.RESTClient.overflow_iff endTime).mpr hreplies
      refine .of_raise hnever (Futures.RESTClient.checked_eq hnever) fun fuel h hrun => ?_
      have hasc := Futures.RESTClient.ascending_of_returns hserver hrun
      refine ⟨?_, hasc⟩
      rw [Futures.RESTClient.download_retVal U server symbol interval startTime hrun]
      exact List.Pairwise.sublist (List.dropLast_sublist _) hasc

theorem getHistoricalPrices_ascending_example :
    Meets (Spot.RESTClient.Checked.getHistoricalPrices .plain (onlyCandle 60000) "BTCUSDT" ._1m 0 120000) (fun h =>
      Ascending Spot.Candle.openTime h.retVal ∧ Ascending Spot.Candle.openTime h.written.reverse.flatten) ∧
    Meets (Futures.RESTClient.Checked.getHistoricalPrices .plain
      ((Futures.exchangeAnswers 1 threeCandles).server "BTC_USDT" ._1m) "BTC_USDT" ._1m 0 120000) (fun h =>
      Ascending Futures.Candle.openTime h.retVal ∧ Ascending Futures.Candle.openTime h.written.reverse.flatten) := by
  have hfutures := (threeCandles_live (show (300000 : Int) ≤ 300000 by decide)).ascending
  constructor
  · exact ((getHistoricalPrices_ascending_iff .plain "BTCUSDT" ._1m 0 120000).1 _ (onlyCandle_timesFit (by decide))
      (onlyCandle_ordered 60000 "BTCUSDT" ._1m)).mpr onlyCandle_stepsFit
  · exact ((getHistoricalPrices_ascending_iff .plain "BTC_USDT" ._1m 0 120000).2 _
      ((Futures.exchangeAnswers 1 _).ordered JsonUtils.plain_lawful hfutures "BTC_USDT" ._1m)).mpr
      (.of_all ((Futures.exchangeAnswers 1 _).replyFits JsonUtils.plain_lawful (by decide) "BTC_USDT" ._1m) _ _ _ _)

def lateSecond : Futures.Kline := Futures.flat 9223372036854776 10

/-- The oldest time there is, and a second that has no milliseconds. -/
theorem order_undefined :
    (Spot.RESTClient.TimesFit .plain (onlyCandle (-9223372036854775808)) ∧
      Spot.Answers .plain (onlyCandle (-9223372036854775808)) "BTCUSDT" ._1m Spot.Ordered ∧
      ¬ Meets (Spot.RESTClient.Checked.getHistoricalPrices .plain (onlyCandle (-9223372036854775808)) "BTCUSDT" ._1m 0
        120000) fun h => Ascending Spot.Candle.openTime h.retVal) ∧
    Futures.Answers .plain ((Futures.exchangeAnswers 1 [lateSecond]).server "BTC_USDT" ._1m) "BTC_USDT" ._1m
        Futures.Ordered ∧
      ¬ Meets (Futures.RESTClient.Checked.getHistoricalPrices .plain
        ((Futures.exchangeAnswers 1 [lateSecond]).server "BTC_USDT" ._1m) "BTC_USDT" ._1m 0 9223372036854777) fun h =>
          Ascending Futures.Candle.openTime h.retVal := by
  refine ⟨⟨onlyCandle_timesFit (by decide), onlyCandle_ordered _ _ _, fun h => h.defined 1 rfl⟩, ?_, fun h =>
    h.defined 1 rfl⟩
  exact (Futures.exchangeAnswers 1 _).ordered JsonUtils.plain_lawful (List.pairwise_singleton _ _) "BTC_USDT" ._1m

/-! ## The number of requests -/

/-- The download ends, without an overflow, after at most `bound` requests, and
no later answer makes a difference. -/
def EndsWithin {α ρ : Type} (download : (Nat → α) → Nat → Option (Except (Trap Fault) ρ)) (requests : ρ → Nat)
    (server : Nat → α) (bound : Int) : Prop :=
  ∃ fuel r, download server fuel = some r ∧ r ≠ .error .overflow ∧ (∀ h, r = .ok h → (requests h : Int) ≤ bound) ∧
    ∀ server', (∀ n : Nat, (n : Int) < bound → server' n = server n) → download server' fuel = some r

theorem getHistoricalPrices_requests_iff (U : JsonUtils) (symbol : String) (interval : CandleInterval)
    {startTime endTime : Int} (hlt : startTime < endTime) :
    (∀ server, Spot.RESTClient.TimesFit U server → Spot.Answers U server symbol interval Spot.FirstInTime →
      (EndsWithin (fun server =>
          Spot.RESTClient.Checked.getHistoricalPrices U server symbol interval startTime endTime) (·.requests) server
          ((endTime - startTime) / interval.numberOfMsForCandleInterval + 1) ↔
        Spot.RESTClient.StepsFit U server symbol interval startTime endTime)) ∧
    ∀ server, Futures.Answers U server symbol interval Futures.FirstInTime →
      (EndsWithin (fun server =>
          Futures.RESTClient.Checked.getHistoricalPrices U server symbol interval startTime endTime) (·.requests) server
          (endTime - startTime) ↔
        Futures.RESTClient.RepliesFit U server symbol interval startTime endTime) := by
  constructor
  · intro server hfits hserver
    constructor
    · rintro ⟨fuel, r, hrun, hr, -⟩
      exact (Spot.RESTClient.never_iff hfits).mp (never_of_runFrom hrun hr)
    · intro hsteps
      have hnever := (Spot.RESTClient.never_iff hfits).mpr hsteps
      obtain ⟨fuel, r, hrun, hrequests, -⟩ := Spot.RESTClient.getHistoricalPrices_bounded hserver hlt
      have hchecked := Spot.RESTClient.checked_eq hnever fuel
      rw [hrun, Option.map_some] at hchecked
      refine ⟨fuel, raise r, hchecked, raise_ne_overflow r, fun h hh => hrequests h (raise_eq_ok hh), ?_⟩
      intro server' hsame
      have hfirst : 0 < (endTime - startTime) / interval.numberOfMsForCandleInterval + 1 := by
        have := Int.ediv_nonneg (show 0 ≤ endTime - startTime by omega) interval.numberOfMs_pos.le
        omega
      exact (Spot.RESTClient.checked_congr hfirst hsame (fun s hs _ _ hc hle => hs.asks_lt hserver hc hle) fuel).trans
        hchecked
  · intro server hserver
    constructor
    · rintro ⟨fuel, r, hrun, hr, -⟩
      exact (Futures.RESTClient.overflow_iff endTime).mp (never_of_runFrom hrun hr)
    · intro hreplies
      have hnever := (Futures.RESTClient.overflow_iff endTime).mpr hreplies
      obtain ⟨fuel, r, hrun, hrequests, -⟩ := Futures.RESTClient.getHistoricalPrices_bounded hserver hlt
      have hchecked := Futures.RESTClient.checked_eq hnever fuel
      rw [hrun, Option.map_some] at hchecked
      refine ⟨fuel, raise r, hchecked, raise_ne_overflow r, fun h hh => hrequests h (raise_eq_ok hh), ?_⟩
      intro server' hsame
      have hfirst : 0 < endTime - startTime := by omega
      exact (Futures.RESTClient.checked_congr hfirst hsame (fun s hs _ _ hc hle => hs.asks_lt hserver hc hle) fuel).trans
        hchecked

theorem getHistoricalPrices_requests_example :
    EndsWithin (fun server => Spot.RESTClient.Checked.getHistoricalPrices .plain server "BTCUSDT" ._1m 0 120000)
      (·.requests) (onlyCandle 60000) ((120000 - 0) / 60000 + 1) ∧
    EndsWithin (fun server => Futures.RESTClient.Checked.getHistoricalPrices .plain server "BTC_USDT" ._1m 0 120000)
      (·.requests) ((Futures.exchangeAnswers 1 threeCandles).server "BTC_USDT" ._1m) (120000 - 0) := by
  have hfutures := (threeCandles_live (show (300000 : Int) ≤ 300000 by decide)).ascending
  have hlt : (0 : Int) < 120000 := by decide
  constructor
  · exact ((getHistoricalPrices_requests_iff .plain "BTCUSDT" ._1m hlt).1 _ (onlyCandle_timesFit (by decide))
      (onlyCandle_ordered 60000 "BTCUSDT" ._1m).firstInTime).mpr onlyCandle_stepsFit
  · exact ((getHistoricalPrices_requests_iff .plain "BTC_USDT" ._1m hlt).2 _
      ((Futures.exchangeAnswers 1 _).ordered JsonUtils.plain_lawful hfutures "BTC_USDT" ._1m).firstInTime).mpr
      (.of_all ((Futures.exchangeAnswers 1 _).replyFits JsonUtils.plain_lawful (by decide) "BTC_USDT" ._1m) _ _ _ _)

theorem requests_undefined :
    (Spot.RESTClient.TimesFit .plain (onlyCandle (-9223372036854775808)) ∧
      Spot.Answers .plain (onlyCandle (-9223372036854775808)) "BTCUSDT" ._1m Spot.FirstInTime ∧
      ¬ EndsWithin (fun server => Spot.RESTClient.Checked.getHistoricalPrices .plain server "BTCUSDT" ._1m 0 120000)
        (·.requests) (onlyCandle (-9223372036854775808)) ((120000 - 0) / 60000 + 1)) ∧
    Futures.Answers .plain ((Futures.exchangeAnswers 1 [lateSecond]).server "BTC_USDT" ._1m) "BTC_USDT" ._1m
        Futures.FirstInTime ∧
      ¬ EndsWithin (fun server =>
          Futures.RESTClient.Checked.getHistoricalPrices .plain server "BTC_USDT" ._1m 0 9223372036854777)
        (·.requests) ((Futures.exchangeAnswers 1 [lateSecond]).server "BTC_USDT" ._1m) (9223372036854777 - 0) := by
  refine ⟨⟨onlyCandle_timesFit (by decide), (onlyCandle_ordered _ _ _).firstInTime, ?_⟩, ?_, ?_⟩
  · rintro ⟨fuel, r, hrun, hr, -⟩
    exact never_of_runFrom hrun hr 1 rfl
  · exact ((Futures.exchangeAnswers 1 _).ordered JsonUtils.plain_lawful (List.pairwise_singleton _ _) "BTC_USDT"
      ._1m).firstInTime
  · rintro ⟨fuel, r, hrun, hr, -⟩
    exact never_of_runFrom hrun hr 1 rfl

end MexcApi
