import MexcApi.CheckedDownloads
import MexcApi.DecodersSound
import MexcApi.OpenCandleSound

/-!
# When the time arithmetic overflows

The checked functions are compared with the exact ones. What overflows is
decided by the two times of the caller and by the times of the replies.
-/

namespace MexcApi

open Nlohmann Checked

/-! ## The spot client -/

namespace Spot.RESTClient

theorem window_fits (interval : CandleInterval) : InInt64 (limit * interval.numberOfMsForCandleInterval) := by
  cases interval <;> decide

/-- Every candle in the replies is of this kind. -/
def Serves (U : JsonUtils) (server : KlineServer) (kind : Candle → Prop) : Prop :=
  ∀ n symbol interval startTime endTime limit candles,
    P.getHistoricalPrices U (server n) symbol interval startTime endTime limit = .ok candles → ∀ c ∈ candles, kind c

theorem Serves.imp {U : JsonUtils} {server : KlineServer} {kind kind' : Candle → Prop} (h : Serves U server kind)
    (himp : ∀ c, kind c → kind' c) : Serves U server kind' :=
  fun n symbol interval startTime endTime limit candles hcandles c hc =>
    himp c (h n symbol interval startTime endTime limit candles hcandles c hc)

/-- All times in the replies are signed 64-bit integers. -/
def TimesFit (U : JsonUtils) (server : KlineServer) : Prop := Serves U server fun c => InInt64 c.openTime

/-- What the next request computes from the oldest candle is not too small. -/
structure StepsBack (interval : CandleInterval) (startTime : Int) (oldest : Candle) : Prop where
  stop : -9223372036854775808 ≤ oldest.openTime - interval.numberOfMsForCandleInterval
  window : startTime ≤ oldest.openTime - interval.numberOfMsForCandleInterval →
    -9223372036854775808 ≤ oldest.openTime - interval.numberOfMsForCandleInterval -
      limit * interval.numberOfMsForCandleInterval

section
variable (U : JsonUtils) (server : KlineServer) (symbol : String) (interval : CandleInterval) (startTime : Int)

theorem start_checks (endTime : Int) : Checks (Checked.start U server symbol interval startTime endTime)
    (start U server symbol interval startTime limit endTime)
    (startTime ≤ endTime → endTime - startTime ≤ 9223372036854775807) := by
  have hwindow := window_fits interval
  unfold Checked.start start
  refine (Checks.ite (fun _ => .int64_bind (.int64_bind (.ite (fun _ => .raise_bind fun candles _ => .pure _) fun _ =>
    .raise_bind fun candles _ => .pure _))) fun _ => .pure _).congr ?_
  constructor
  · intro h hle
    exact (h.1 hle).1.2
  · intro h
    refine ⟨fun hle => ⟨?_, hwindow, by simp⟩, by simp⟩
    have := h hle
    unfold InInt64
    omega

theorem batch_checks (s : History) : Checks (Checked.batch U server symbol interval startTime s)
    (batch U server symbol interval startTime limit s)
    (∀ oldest rest, s.candles = oldest :: rest → InInt64 (oldest.openTime - interval.numberOfMsForCandleInterval) ∧
      (startTime ≤ oldest.openTime - interval.numberOfMsForCandleInterval → InInt64
        (oldest.openTime - interval.numberOfMsForCandleInterval - limit * interval.numberOfMsForCandleInterval))) := by
  have hwindow := window_fits interval
  unfold Checked.batch batch
  cases hc : s.candles with
  | nil => exact (Checks.pure _).congr (by simp)
  | cons oldest rest =>
    refine (Checks.int64_bind (.ite (fun _ => .int64_bind (.int64_bind (.raise_bind fun candles _ => .pure _))) fun _ =>
      .pure _)).congr ?_
    simp [hwindow]

/-- A round of the loop begins in this state. -/
def Begins (endTime : Int) (s : History) : Prop :=
  ∃ s₀, start U server symbol interval startTime limit endTime = .ok s₀ ∧
    Loop.Reaches (batch U server symbol interval startTime limit) s₀ s

variable {U server symbol interval startTime}

theorem start_serves {kind : Candle → Prop} (hserver : Serves U server kind) {endTime : Int} {s : History}
    (h : start U server symbol interval startTime limit endTime = .ok s) : ∀ c ∈ s.candles, kind c := by
  unfold start at h
  dsimp only at h
  split at h
  · split at h
    · obtain ⟨candles, hcandles, h⟩ := bind_ok h
      cases h
      exact hserver _ _ _ _ _ _ _ hcandles
    · obtain ⟨candles, hcandles, h⟩ := bind_ok h
      cases h
      exact hserver _ _ _ _ _ _ _ hcandles
  · cases h
    simp

theorem batch_serves {kind : Candle → Prop} (hserver : Serves U server kind) {s s' : History}
    (h : batch U server symbol interval startTime limit s = .ok (.next s')) : ∀ c ∈ s'.candles, kind c := by
  rcases batch_cases U server symbol interval startTime limit h with ⟨-, hf⟩ | ⟨o, t, s₁, -, hf, -, -, -, hrest⟩
  · cases hf
  · cases hf
    rcases hrest with ⟨hnil, -, -⟩ | ⟨-, -, hcandles⟩
    · simp [hnil]
    · exact hserver _ _ _ _ _ _ _ hcandles

theorem Begins.serves {kind : Candle → Prop} (hserver : Serves U server kind) {endTime : Int} {s : History}
    (h : Begins U server symbol interval startTime endTime s) : ∀ c ∈ s.candles, kind c := by
  obtain ⟨s₀, hstart, hreaches⟩ := h
  cases hreaches with
  | refl => exact start_serves hserver hstart
  | next _ hbatch => exact batch_serves hserver hbatch

theorem overflow_iff (hserver : TimesFit U server) (endTime : Int) :
    (∀ fuel, Checked.getHistoricalPrices U server symbol interval startTime endTime fuel ≠ some (.error .overflow)) ↔
      (startTime ≤ endTime → endTime - startTime ≤ 9223372036854775807) ∧
        ∀ s, Begins U server symbol interval startTime endTime s → ∀ oldest rest, s.candles = oldest :: rest →
          StepsBack interval startTime oldest := by
  unfold Checked.getHistoricalPrices
  rw [runFrom_safe_iff (batch_checks U server symbol interval startTime)
    (start_checks U server symbol interval startTime endTime)]
  refine and_congr_right fun _ => ?_
  constructor
  · rintro h s ⟨s₀, hstart, hreaches⟩ oldest rest hc
    obtain ⟨hstop, hwindow⟩ := h s₀ hstart s hreaches oldest rest hc
    exact ⟨hstop.1, fun hle => (hwindow hle).1⟩
  · intro h s₀ hstart s hreaches oldest rest hc
    have hbegins : Begins U server symbol interval startTime endTime s := ⟨s₀, hstart, hreaches⟩
    obtain ⟨hstop, hwindow⟩ := h s hbegins oldest rest hc
    have hfits := hbegins.serves hserver oldest (by simp [hc])
    have hms := interval.numberOfMs_pos
    unfold InInt64 limit at *
    exact ⟨⟨hstop, by omega⟩, fun hle => ⟨hwindow hle, by omega⟩⟩

end

end Spot.RESTClient

/-! ## The candles of the futures client -/

namespace Futures

/-- The seconds of every row that is converted become milliseconds. A row is
converted if those before it are rows of numbers. -/
def SecondsFit (data : Json) : Prop :=
  ∀ times, data.find? "time" = some times → ∀ i n,
    (∀ j < i, NumberAt times j ∧ ∀ column ∈ columns data, NumberAt column j) →
    times.accessIndex i = .value (.num n) → -9223372036854775 ≤ n.toInt ∧ n.toInt ≤ 9223372036854775

namespace Candles

theorem candleAt_checks (times opens highs lows closes vols amounts : Json) (i : Nat) :
    Checks (Checked.candleAt times opens highs lows closes vols amounts i)
      (candleAt times opens highs lows closes vols amounts i)
      (∀ n, times.accessIndex i = .value (.num n) → InInt64 (n.toInt * 1000)) := by
  unfold Checked.candleAt candleAt
  refine (Checks.raise_bind fun time _ => .raise_bind fun seconds _ => .int64_bind (.raise_bind fun _ _ => .raise_bind
    fun _ _ => .raise_bind fun _ _ => .raise_bind fun _ _ => .raise_bind fun _ _ => .raise_bind fun _ _ => .pure _)).congr ?_
  cases times.accessIndex i with
  | value v => cases v <;> simp [Json.Access.get, Json.getInt64]
  | _ => simp [Json.Access.get]

theorem accessIndex_lt {column v : Json} {i : Nat} (h : column.accessIndex i = .value v) : i < column.size := by
  unfold Json.accessIndex at h
  split at h
  · split at h
    · rename_i xs v' hget
      exact (List.getElem?_eq_some_iff.mp hget).1
    · cases h
  · cases h

theorem rows_checks {data times : Json} (ht : data.find? "time" = some times) :
    Checks ((List.range times.size).mapM (Checked.candleAt times ((data.find? "open").getD .null)
        ((data.find? "high").getD .null) ((data.find? "low").getD .null) ((data.find? "close").getD .null)
        ((data.find? "vol").getD .null) ((data.find? "amount").getD .null)))
      ((List.range times.size).mapM (candleAt times ((data.find? "open").getD .null)
        ((data.find? "high").getD .null) ((data.find? "low").getD .null) ((data.find? "close").getD .null)
        ((data.find? "vol").getD .null) ((data.find? "amount").getD .null)))
      (SecondsFit data) := by
  refine (Checks.mapM (candleAt_checks _ _ _ _ _ _ _) _).congr ?_
  simp only [candleAt_ok_iff]
  constructor
  · intro h times' ht' i n hrows hi
    rw [ht] at ht'
    cases ht'
    obtain ⟨before, after, hsplit⟩ := List.append_of_mem (List.mem_range.mpr (accessIndex_lt hi))
    obtain ⟨hbefore, -⟩ := range_split hsplit
    have hfits := h before i after hsplit (fun j hj => hrows j (by simpa [hbefore] using hj)) n hi
    unfold InInt64 at hfits
    omega
  · intro h before i after hsplit hrows n hi
    obtain ⟨hbefore, -⟩ := range_split hsplit
    have hfits := h times ht i n (fun j hj => hrows j (by simp [hbefore, hj])) hi
    unfold InInt64
    omega

theorem fromJson_checks (U : JsonUtils) (json : Json) : Checks (Checked.fromJson U json) (fromJson U json)
    (∀ response, Response.fromJson U {} json = .ok response → SecondsFit response.data) := by
  unfold Checked.fromJson fromJson
  refine Checks.raise_bind fun response _ => ?_
  dsimp only
  cases ht : response.data.find? "time" with
  | none =>
    have hfit : SecondsFit response.data := by simp [SecondsFit, ht]
    refine (Checks.pure _).congr ?_
    simp [hfit]
  | some times =>
    dsimp only
    by_cases hempty : times.empty = true
    · have hfit : SecondsFit response.data := by
        intro times' ht' i n _ hi
        rw [ht] at ht'
        cases ht'
        have hlt := accessIndex_lt hi
        simp only [Json.empty, List.isEmpty_iff] at hempty
        simp [Json.size, hempty] at hlt
      rw [if_pos hempty, if_pos hempty]
      refine (Checks.pure _).congr ?_
      simp [hfit]
    · rw [if_neg hempty, if_neg hempty]
      simp only [atOrInsert_of_find ht]
      refine ((rows_checks ht).bind fun candles _ => .pure _).congr ?_
      simp

theorem candleAt_fits {times opens highs lows closes vols amounts : Json} {i : Nat} {c : Candle}
    (h : Checked.candleAt times opens highs lows closes vols amounts i = .ok c) : InInt64 c.openTime := by
  unfold Checked.candleAt at h
  obtain ⟨_, -, h⟩ := ok_of_raise_bind h
  obtain ⟨_, -, h⟩ := ok_of_raise_bind h
  obtain ⟨hfits, h⟩ := ok_of_int64_bind h
  obtain ⟨_, -, h⟩ := ok_of_raise_bind h
  obtain ⟨_, -, h⟩ := ok_of_raise_bind h
  obtain ⟨_, -, h⟩ := ok_of_raise_bind h
  obtain ⟨_, -, h⟩ := ok_of_raise_bind h
  obtain ⟨_, -, h⟩ := ok_of_raise_bind h
  obtain ⟨_, -, h⟩ := ok_of_raise_bind h
  cases h
  exact hfits

theorem fromJson_fits {U : JsonUtils} {json : Json} {value : Candles} (h : Checked.fromJson U json = .ok value) :
    ∀ c ∈ value.candles, InInt64 c.openTime := by
  unfold Checked.fromJson at h
  obtain ⟨response, -, h⟩ := ok_of_raise_bind h
  dsimp only at h
  split at h
  · cases h
    simp
  · split at h
    · cases h
      simp
    · obtain ⟨_, -, h⟩ := ok_of_raise_bind h
      obtain ⟨_, -, h⟩ := ok_of_raise_bind h
      obtain ⟨_, -, h⟩ := ok_of_raise_bind h
      obtain ⟨_, -, h⟩ := ok_of_raise_bind h
      obtain ⟨_, -, h⟩ := ok_of_raise_bind h
      obtain ⟨_, -, h⟩ := ok_of_raise_bind h
      obtain ⟨candles, hcandles, h⟩ := ok_of_bind h
      cases h
      exact ok_of_mapM (fun _ _ => candleAt_fits) hcandles

end Candles

/-! ## The futures client -/

/-- The body of a reply, where there is one to decode, has seconds that fit. -/
def ReplyFits (U : JsonUtils) (reply : Except Fault HttpResponse) : Prop :=
  ∀ r json, reply = .ok r → r.result = 200 → r.json = some json → ∀ response,
    Response.fromJson U {} json = .ok response → SecondsFit response.data

namespace RESTClient

theorem handleMEXCResponse_checks (U : JsonUtils) (r : HttpResponse) :
    Checks (Checked.handleMEXCResponse U r) (handleMEXCResponse (Candles.fromJson U) Candles.toResponse r)
      (∀ json, r.json = some json → ∀ response, Response.fromJson U {} json = .ok response → SecondsFit response.data) := by
  unfold Checked.handleMEXCResponse handleMEXCResponse
  refine (Checks.raise_bind fun json _ => (Candles.fromJson_checks U json).bind fun retVal _ => .of_eq ?_).congr ?_
  · cases hsuccess : retVal.success <;> rfl
  · unfold HttpResponse.parse
    cases r.json <;> simp

theorem handleMEXCResponse_fits {U : JsonUtils} {r : HttpResponse} {value : Candles}
    (h : Checked.handleMEXCResponse U r = .ok value) : ∀ c ∈ value.candles, InInt64 c.openTime := by
  unfold Checked.handleMEXCResponse at h
  obtain ⟨json, -, h⟩ := ok_of_raise_bind h
  obtain ⟨retVal, hvalue, h⟩ := ok_of_bind h
  cases hsuccess : retVal.success with
  | false =>
    simp only [hsuccess] at h
    cases h
  | true =>
    simp only [hsuccess] at h
    cases h
    exact Candles.fromJson_fits hvalue

section
variable {U : JsonUtils} (methodGet : KlineRequest → Except Fault HttpResponse) (symbol : String)
  (interval : CandleInterval) (startTime endTime : Int)

theorem fetch_checks : Checks (Checked.P.getHistoricalPrices U methodGet symbol interval startTime endTime)
    (P.getHistoricalPrices U methodGet symbol interval startTime endTime)
    (ReplyFits U (methodGet (klineRequest symbol interval startTime endTime))) := by
  unfold Checked.P.getHistoricalPrices P.getHistoricalPrices
  refine (Checks.raise_bind fun reply _ => .raise_bind fun r _ =>
    (handleMEXCResponse_checks U r).bind fun value _ => .pure _).congr ?_
  unfold ReplyFits checkResponse
  constructor
  · intro h r json hreply hresult
    exact (h r hreply r (by simp [hresult])).1 json
  · intro h reply hreply r hr
    split at hr
    · cases hr
    · rename_i hresult
      cases hr
      refine ⟨fun json => h _ json hreply ?_, by simp⟩
      simpa using hresult

theorem fetch_fits {candles : List Candle}
    (hreply : ReplyFits U (methodGet (klineRequest symbol interval startTime endTime)))
    (h : P.getHistoricalPrices U methodGet symbol interval startTime endTime = .ok candles) :
    ∀ c ∈ candles, InInt64 c.openTime := by
  have hchecked := (fetch_checks methodGet symbol interval startTime endTime).eq hreply
  rw [h] at hchecked
  unfold Checked.P.getHistoricalPrices at hchecked
  obtain ⟨_, -, hchecked⟩ := ok_of_raise_bind hchecked
  obtain ⟨_, -, hchecked⟩ := ok_of_raise_bind hchecked
  obtain ⟨value, hvalue, hchecked⟩ := ok_of_bind hchecked
  cases hchecked
  exact handleMEXCResponse_fits hvalue

end

section
variable (U : JsonUtils) (server : KlineServer) (symbol : String) (interval : CandleInterval) (startTime : Int)

/-- The reply to the request up to this time, if there is one to make. -/
def NextFits (n : Nat) (stop : Int) : Prop :=
  startTime < stop → ReplyFits U (server n (klineRequest symbol interval startTime stop))

theorem start_checks (endTime : Int) : Checks (Checked.start U server symbol interval startTime endTime)
    (start U server symbol interval startTime endTime) (NextFits U server symbol interval startTime 0 endTime) := by
  unfold Checked.start start
  refine (Checks.ite (fun _ => (fetch_checks (server 0) symbol interval startTime endTime).bind fun candles _ => .pure _)
    fun _ => .pure _).congr ?_
  simp [NextFits]

theorem batch_checks (s : History) : Checks (Checked.batch U server symbol interval startTime s)
    (batch U server symbol interval startTime s)
    (∀ oldest rest, s.candles = oldest :: rest → InInt64 (oldest.openTime.tdiv 1000 - 1) ∧
      NextFits U server symbol interval startTime s.requests (oldest.openTime.tdiv 1000 - 1)) := by
  unfold Checked.batch batch
  cases hc : s.candles with
  | nil => exact (Checks.pure _).congr (by simp)
  | cons oldest rest =>
    refine (Checks.int64_bind (.ite (fun _ => (fetch_checks (server s.requests) symbol interval startTime _).bind
      fun candles _ => .pure _) fun _ => .pure _)).congr ?_
    simp [NextFits]

/-- A round of the loop begins in this state. -/
def Begins (endTime : Int) (s : History) : Prop :=
  ∃ s₀, start U server symbol interval startTime endTime = .ok s₀ ∧
    Loop.Reaches (batch U server symbol interval startTime) s₀ s

/-- Every reply of the download has seconds that fit. -/
structure RepliesFit (endTime : Int) : Prop where
  first : NextFits U server symbol interval startTime 0 endTime
  later : ∀ s, Begins U server symbol interval startTime endTime s → ∀ oldest rest, s.candles = oldest :: rest →
    NextFits U server symbol interval startTime s.requests (oldest.openTime.tdiv 1000 - 1)

variable {U server symbol interval startTime}

theorem Begins.timesFit {endTime : Int} (hreplies : RepliesFit U server symbol interval startTime endTime) {s : History}
    (h : Begins U server symbol interval startTime endTime s) : ∀ c ∈ s.candles, InInt64 c.openTime := by
  obtain ⟨s₀, hstart, hreaches⟩ := h
  cases hreaches with
  | refl =>
    unfold start at hstart
    split at hstart
    · rename_i hlt
      obtain ⟨candles, hcandles, hstart⟩ := bind_ok hstart
      cases hstart
      exact fetch_fits _ _ _ _ _ (hreplies.first hlt) hcandles
    · cases hstart
      simp
  | @next t _ hreaches hbatch =>
    unfold batch at hbatch
    cases hc : t.candles with
    | nil =>
      rw [hc] at hbatch
      cases hbatch
    | cons oldest rest =>
      rw [hc] at hbatch
      dsimp only at hbatch
      split at hbatch
      · rename_i hlt
        obtain ⟨candles, hcandles, hbatch⟩ := bind_ok hbatch
        cases hbatch
        exact fetch_fits _ _ _ _ _ (hreplies.later t ⟨s₀, hstart, hreaches⟩ oldest rest hc hlt) hcandles
      · cases hbatch
        simp

theorem end_fits {openTime : Int} (h : InInt64 openTime) : InInt64 (openTime.tdiv 1000 - 1) := by
  unfold InInt64 at *
  have hdiv := Int.tmod_add_mul_tdiv openTime 1000
  have hlt := Int.tmod_lt_of_pos openTime (show (0 : Int) < 1000 by decide)
  have hneg : -1000 < openTime.tmod 1000 := by
    have := Int.lt_tmod_of_pos openTime (show (0 : Int) < 1000 by decide)
    omega
  omega

theorem overflow_iff (endTime : Int) :
    (∀ fuel, Checked.getHistoricalPrices U server symbol interval startTime endTime fuel ≠ some (.error .overflow)) ↔
      RepliesFit U server symbol interval startTime endTime := by
  unfold Checked.getHistoricalPrices
  rw [runFrom_safe_iff (batch_checks U server symbol interval startTime)
    (start_checks U server symbol interval startTime endTime)]
  constructor
  · rintro ⟨hfirst, hlater⟩
    refine ⟨hfirst, ?_⟩
    rintro s ⟨s₀, hstart, hreaches⟩ oldest rest hc
    exact (hlater s₀ hstart s hreaches oldest rest hc).2
  · intro h
    refine ⟨h.first, fun s₀ hstart s hreaches oldest rest hc => ?_⟩
    have hbegins : Begins U server symbol interval startTime endTime s := ⟨s₀, hstart, hreaches⟩
    exact ⟨end_fits (hbegins.timesFit h oldest (by simp [hc])), h.later s hbegins oldest rest hc⟩

end

end RESTClient

end Futures

/-! ## Both clients -/

theorem overflows_iff (U : JsonUtils) :
    (∀ server, Spot.RESTClient.TimesFit U server → ∀ symbol interval startTime endTime,
      ((∀ fuel, Spot.RESTClient.Checked.getHistoricalPrices U server symbol interval startTime endTime fuel ≠
          some (.error .overflow)) ↔
        (startTime ≤ endTime → endTime - startTime ≤ 9223372036854775807) ∧
          ∀ s, Spot.RESTClient.Begins U server symbol interval startTime endTime s →
            ∀ oldest rest, s.candles = oldest :: rest → Spot.RESTClient.StepsBack interval startTime oldest)) ∧
    (∀ server symbol interval startTime endTime,
      ((∀ fuel, Futures.RESTClient.Checked.getHistoricalPrices U server symbol interval startTime endTime fuel ≠
          some (.error .overflow)) ↔ Futures.RESTClient.RepliesFit U server symbol interval startTime endTime)) ∧
    ∀ json, (Futures.Candles.Checked.fromJson U json ≠ .error .overflow ↔
      ∀ response, Futures.Response.fromJson U {} json = .ok response → Futures.SecondsFit response.data) :=
  ⟨fun _ hserver _ _ _ endTime => Spot.RESTClient.overflow_iff hserver endTime,
    fun _ _ _ _ endTime => Futures.RESTClient.overflow_iff endTime,
    fun json => (Futures.Candles.fromJson_checks U json).ne_overflow_iff⟩

/-- One candle, whatever is asked for. -/
def candleServer (openTime : Int) : Spot.KlineServer := fun _ _ => .ok {
  result := 200, body := ""
  json := some (.arr [.arr [.num (.int openTime), .str "1", .str "1", .str "1", .str "1", .str "1",
    .num (.int 0), .str "1"]]) }

theorem candleServer_serves : Spot.RESTClient.Serves .plain (candleServer 60000) fun c => c.openTime = 60000 := by
  intro n symbol interval startTime endTime limit candles h
  cases h
  decide

theorem candleServer_timesFit : Spot.RESTClient.TimesFit .plain (candleServer 60000) := by
  intro n symbol interval startTime endTime limit candles h c hc
  rw [candleServer_serves n symbol interval startTime endTime limit candles h c hc]
  decide

def timeReply (seconds : Int) : Json := .obj [("data", .obj [("time", .arr [.num (.int seconds)])])]

theorem timeReply_fits : ∀ response, Futures.Response.fromJson .plain {} (timeReply 60) = .ok response →
    Futures.SecondsFit response.data := by
  intro response hresponse times htimes i n _ hn
  cases hresponse
  cases htimes
  cases i with
  | zero =>
    cases hn
    decide
  | succ i => cases hn

theorem overflows_example :
    (∀ fuel, Spot.RESTClient.Checked.getHistoricalPrices .plain (candleServer 60000) "BTCUSDT" ._1m 60000 120000 fuel ≠
      some (.error .overflow)) ∧
    Futures.Candles.Checked.fromJson .plain (timeReply 60) ≠ .error .overflow := by
  obtain ⟨hspot, -, hfutures⟩ := overflows_iff .plain
  refine ⟨?_, (hfutures (timeReply 60)).mpr timeReply_fits⟩
  refine (hspot (candleServer 60000) candleServer_timesFit "BTCUSDT" ._1m 60000 120000).mpr
    ⟨by decide, fun s hs oldest rest hc => ?_⟩
  have htime : oldest.openTime = 60000 := hs.serves candleServer_serves oldest (by simp [hc])
  constructor
  · rw [htime]
    decide
  · rw [htime]
    decide

/-- The range of the caller, the step back from a candle of the reply, and the
seconds of a reply. -/
theorem times_overflow :
    Spot.RESTClient.Checked.getHistoricalPrices .plain (candleServer 60000) "BTCUSDT" ._1m (-1) 9223372036854775807 1 =
      some (.error .overflow) ∧
    Spot.RESTClient.Checked.getHistoricalPrices .plain (candleServer (-9223372036854775808)) "BTCUSDT" ._1m 0 120000 1 =
      some (.error .overflow) ∧
    Futures.Candles.Checked.fromJson .plain (timeReply 9223372036854776) = .error .overflow :=
  ⟨rfl, rfl, rfl⟩

end MexcApi
