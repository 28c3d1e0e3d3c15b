import MexcApi.SpotRestClient
import MexcApi.Windows
import Mathlib.Data.List.Range
import Mathlib.Tactic.Set

/-!
# When the spot history is complete

The exchange answers a request that has a start time with the first `limit`
candles from there on, and one without it with the newest `limit` candles. A
window of `limit` intervals holds up to `limit + 1` candles, so a full window
loses its newest one. The download is complete as long as no full window is
requested and the unbounded first request stays in the range.
-/

namespace MexcApi

open Nlohmann Windows

namespace Spot

abbrev Kline (U : JsonUtils) := Encoded (Candle.fromJson U)

abbrev Kline.openTime {U : JsonUtils} (k : Kline U) : Int := k.value.openTime

/-- The klines endpoint over a series, as the comments of the client describe it. -/
def klines {U : JsonUtils} (series : List (Kline U)) (req : KlineRequest) : List (Kline U) :=
  match req.startTime with
  | some startTime => (inRange Kline.openTime startTime req.endTime series).take (req.limit.getD 500)
  | none => newest (req.limit.getD 500) (upTo Kline.openTime req.endTime series)

/-- What the endpoint calls its intervals, with their lengths in milliseconds. -/
def intervals : List (String × Int) := [
  ("1m", 60000), ("5m", 300000), ("15m", 900000), ("30m", 1800000), ("60m", 3600000), ("4h", 14400000),
  ("8h", 28800000), ("1d", 86400000), ("1W", 604800000), ("1M", 2592000000)]

/-- Asked for the candles of this symbol, of this length. -/
def KlineRequest.For (req : KlineRequest) (symbol : String) (interval : CandleInterval) : Prop :=
  req.symbol = symbol ∧ intervals.lookup req.interval = some interval.numberOfMsForCandleInterval

instance (req : KlineRequest) (symbol : String) (interval : CandleInterval) : Decidable (req.For symbol interval) :=
  inferInstanceAs (Decidable (_ ∧ _))

/-- The endpoint with the one series it has. -/
def exchange {U : JsonUtils} (symbol : String) (interval : CandleInterval) (series : List (Kline U)) : KlineServer :=
  fun _ req =>
    if req.For symbol interval then
      .ok { result := 200, body := "", json := some (.arr ((klines series req).map (·.json))) }
    else .ok { result := 400, body := "", json := none }

namespace RESTClient

section
variable (U : JsonUtils) (server : KlineServer) (symbol : String) (interval : CandleInterval) (startTime : Int)
  (limit : Nat)

/-! ## One round -/

theorem batch_nil {s : History} (h : s.candles = []) :
    batch U server symbol interval startTime limit s = .ok (.stop s) := by
  unfold batch; rw [h]

theorem batch_request {s : History} {oldest : Candle} {rest cs : List Candle} (h : s.candles = oldest :: rest)
    (hle : startTime ≤ oldest.openTime - interval.numberOfMsForCandleInterval)
    (hcs : P.getHistoricalPrices U (server s.requests) symbol interval
      (max startTime (oldest.openTime - interval.numberOfMsForCandleInterval -
        limit * interval.numberOfMsForCandleInterval))
      (oldest.openTime - interval.numberOfMsForCandleInterval) limit = .ok cs) :
    batch U server symbol interval startTime limit s = .ok (.next {
      currentEndTime := oldest.openTime - interval.numberOfMsForCandleInterval
      candles := cs
      retVal := s.candles ++ s.retVal
      written := s.written ++ [s.candles]
      requests := s.requests + 1 }) := by
  unfold batch
  rw [h]
  simp only [if_pos hle, hcs]
  rfl

theorem batch_done {s : History} {oldest : Candle} {rest : List Candle} (h : s.candles = oldest :: rest)
    (hlt : ¬ startTime ≤ oldest.openTime - interval.numberOfMsForCandleInterval) :
    batch U server symbol interval startTime limit s = .ok (.next {
      currentEndTime := oldest.openTime - interval.numberOfMsForCandleInterval
      candles := []
      retVal := s.candles ++ s.retVal
      written := s.written ++ [s.candles]
      requests := s.requests }) := by
  unfold batch
  rw [h]
  simp only [if_neg hlt]
  rfl

theorem batch_cases {s : History} {f : Loop.Flow History History}
    (h : batch U server symbol interval startTime limit s = .ok f) :
    (s.candles = [] ∧ f = .stop s) ∨
    ∃ oldest rest s', s.candles = oldest :: rest ∧ f = .next s' ∧ s'.retVal = s.candles ++ s.retVal ∧
      s'.written = s.written ++ [s.candles] ∧
      s'.currentEndTime = oldest.openTime - interval.numberOfMsForCandleInterval ∧
      (s'.candles = [] ∧ s'.requests = s.requests ∧ s'.currentEndTime < startTime ∨
        s'.requests = s.requests + 1 ∧ startTime ≤ s'.currentEndTime ∧
        P.getHistoricalPrices U (server s.requests) symbol interval
          (max startTime (s'.currentEndTime - limit * interval.numberOfMsForCandleInterval))
          s'.currentEndTime limit = .ok s'.candles) := by
  cases hc : s.candles with
  | nil =>
    rw [batch_nil U server symbol interval startTime limit hc] at h
    cases h; exact Or.inl ⟨rfl, rfl⟩
  | cons oldest rest =>
    right
    by_cases hle : startTime ≤ oldest.openTime - interval.numberOfMsForCandleInterval
    · cases hcs : P.getHistoricalPrices U (server s.requests) symbol interval
          (max startTime (oldest.openTime - interval.numberOfMsForCandleInterval -
            limit * interval.numberOfMsForCandleInterval))
          (oldest.openTime - interval.numberOfMsForCandleInterval) limit with
      | ok cs =>
        rw [batch_request U server symbol interval startTime limit hc hle hcs] at h
        cases h
        exact ⟨oldest, rest, _, rfl, rfl, by rw [hc], by rw [hc], rfl, Or.inr ⟨rfl, hle, hcs⟩⟩
      | error e =>
        unfold batch at h
        rw [hc] at h
        simp only [if_pos hle, hcs] at h
        cases h
    · rw [batch_done U server symbol interval startTime limit hc hle] at h
      cases h
      exact ⟨oldest, rest, _, rfl, rfl, by rw [hc], by rw [hc], rfl, Or.inl ⟨rfl, rfl, Int.not_le.mp hle⟩⟩

def EndBounded : Prop := ∀ n start stop cs,
  P.getHistoricalPrices U (server n) symbol interval start stop limit = .ok cs → ∀ c ∈ cs, c.openTime ≤ stop

/-- What the later rounds put in front of a batch is older than the batch. -/
theorem loop_earlier (hb : EndBounded U server symbol interval limit) : ∀ {n : Nat} {s r : History}
    {oldest : Candle} {rest : List Candle}, s.candles = oldest :: rest →
    Loop.run (batch U server symbol interval startTime limit) n s = some (.ok r) →
    ∃ earlier, r.retVal = earlier ++ s.candles ++ s.retVal ∧ ∀ c ∈ earlier, c.openTime < oldest.openTime
  | 0, _, _, _, _, _, h => by cases h
  | n + 1, s, r, oldest, rest, hc, h => by
    have hI := interval.numberOfMs_pos
    unfold Loop.run at h
    split at h
    · rename_i s' hs
      rcases batch_cases U server symbol interval startTime limit hs with
        ⟨-, hf⟩ | ⟨o, t, s₁, hc₁, hf, hret, -, hend, hrest⟩
      · cases hf
      · cases hf
        rw [hc] at hc₁; cases hc₁
        cases hcs : s'.candles with
        | nil =>
          -- the loop is left in the next round
          cases n with
          | zero => cases h
          | succ n =>
            unfold Loop.run at h
            rw [batch_nil U server symbol interval startTime limit hcs] at h
            simp only [Option.some.injEq, Except.ok.injEq] at h
            subst h
            exact ⟨[], by rw [hret]; rfl, by simp⟩
        | cons o' t' =>
          obtain ⟨earlier, hr, hlt⟩ := loop_earlier hb hcs h
          have hle : ∀ c ∈ s'.candles, c.openTime ≤ s'.currentEndTime := by
            rcases hrest with ⟨hnil, -, -⟩ | ⟨-, -, hget⟩
            · rw [hnil] at hcs; cases hcs
            · exact hb _ _ _ _ hget
          refine ⟨earlier ++ s'.candles, by rw [hr, hret]; simp, ?_⟩
          intro c hmem
          have ho' := hle o' (by rw [hcs]; simp)
          rcases List.mem_append.mp hmem with hmem | hmem
          · have := hlt c hmem; omega
          · have := hle c hmem; omega
    · rename_i r' hs
      rcases batch_cases U server symbol interval startTime limit hs with ⟨hnil, -⟩ | ⟨_, _, _, -, hf, _⟩
      · rw [hc] at hnil; cases hnil
      · cases hf
    · cases h

end

/-! ## The exchange's replies -/

section
variable {U : JsonUtils} (series : List (Kline U)) (symbol : String) (interval : CandleInterval)

def klineRequest (startTime endTime : Int) (limit : Nat) : KlineRequest where
  symbol
  interval := interval.candleIntervalToSpotString
  startTime := if startTime > 0 then some startTime else none
  endTime
  limit := if limit ≠ 500 then some limit else none

theorem klineRequest_for (startTime endTime : Int) (limit : Nat) :
    (klineRequest symbol interval startTime endTime limit).For symbol interval := by
  refine ⟨rfl, ?_⟩
  cases interval <;> rfl

theorem fetch_exchange (n : Nat) (startTime endTime : Int) (limit : Nat) :
    P.getHistoricalPrices U (exchange symbol interval series n) symbol interval startTime endTime limit =
      .ok ((klines series (klineRequest symbol interval startTime endTime limit)).map (·.value)) := by
  have hreply : exchange symbol interval series n (klineRequest symbol interval startTime endTime limit) = _ :=
    if_pos (klineRequest_for symbol interval startTime endTime limit)
  unfold klineRequest at hreply
  unfold P.getHistoricalPrices
  rw [hreply]
  exact Encoded.mapM_json _

theorem sent_limit (limit : Nat) : (if limit ≠ 500 then some limit else none).getD 500 = limit := by
  by_cases h : limit = 500
  · rw [if_neg (by simpa using h), h]; rfl
  · rw [if_pos h]; rfl

theorem fetch_from (n : Nat) {startTime : Int} (hpos : 0 < startTime) (endTime : Int) (limit : Nat) :
    P.getHistoricalPrices U (exchange symbol interval series n) symbol interval startTime endTime limit =
      .ok (((inRange Kline.openTime startTime endTime series).take limit).map (·.value)) := by
  rw [fetch_exchange]
  simp only [klines, klineRequest, if_pos hpos, sent_limit]

theorem fetch_newest {n : Nat} {endTime : Int} {limit : Nat} :
    P.getHistoricalPrices U (exchange symbol interval series n) symbol interval 0 endTime limit =
      .ok ((newest limit (upTo Kline.openTime endTime series)).map (·.value)) := by
  rw [fetch_exchange]
  simp only [klines, klineRequest, gt_iff_lt, lt_self_iff_false, ite_false, sent_limit]

theorem endBounded_exchange (limit : Nat) : EndBounded U (exchange symbol interval series) symbol interval limit := by
  intro n start stop cs h c hc
  by_cases hs : 0 < start
  · rw [fetch_from series symbol interval n hs] at h
    cases h
    obtain ⟨k, hk, rfl⟩ := List.mem_map.mp hc
    exact ((mem_inRange _).mp (List.mem_of_mem_take hk)).2.2
  · rw [fetch_exchange] at h
    simp only [klines, klineRequest, if_neg hs] at h
    cases h
    obtain ⟨k, hk, rfl⟩ := List.mem_map.mp hc
    have := List.mem_of_mem_drop hk
    simpa [upTo] using (List.mem_filter.mp this).2

end

/-! ## The end of the download -/

section
variable {U : JsonUtils} (series : List (Kline U)) (symbol : String) (interval : CandleInterval)
  {startTime : Int} (limit : Nat)

theorem loop_last (hpos : 0 < startTime) {s : History} {k : Kline U} {ks : List (Kline U)}
    (hc : s.candles = (k :: ks).map (·.value))
    (hnone : inRange Kline.openTime startTime (k.openTime - interval.numberOfMsForCandleInterval) series = []) :
    ∃ r, Loop.Returns (batch U (exchange symbol interval series) symbol interval startTime limit) s (.ok r) ∧
      r.retVal = s.candles ++ s.retVal := by
  by_cases hle : startTime ≤ k.openTime - interval.numberOfMsForCandleInterval
  · have hempty : inRange Kline.openTime (max startTime (k.openTime - interval.numberOfMsForCandleInterval -
        limit * interval.numberOfMsForCandleInterval))
        (k.openTime - interval.numberOfMsForCandleInterval) series = [] := by
      rw [← inRange_inRange Kline.openTime (le_max_left ..) (le_refl _) series, hnone]; rfl
    have hwin : 0 < max startTime (k.openTime - interval.numberOfMsForCandleInterval -
        limit * interval.numberOfMsForCandleInterval) := by omega
    have hget := fetch_from series symbol interval s.requests hwin
      (k.openTime - interval.numberOfMsForCandleInterval) limit
    rw [hempty, List.take_nil, List.map_nil] at hget
    exact ⟨_, .next _ (batch_request U _ symbol interval startTime limit hc hle hget)
      (.stop _ (batch_nil U _ symbol interval startTime limit rfl)), rfl⟩
  · exact ⟨_, .next _ (batch_done U _ symbol interval startTime limit hc hle)
      (.stop _ (batch_nil U _ symbol interval startTime limit rfl)), rfl⟩

theorem loop_rest (hs : Ascending Kline.openTime series) (hpos : 0 < startTime) {endTime : Int} {s : History}
    {ks got : List (Kline U)} (hrange : inRange Kline.openTime startTime endTime series = ks ++ got)
    (hc : s.candles = ks.map (·.value)) (hret : s.retVal = got.map (·.value)) (hgot : ks = [] → got = []) :
    ∃ r, Loop.Returns (batch U (exchange symbol interval series) symbol interval startTime limit) s (.ok r) ∧
      r.retVal = (inRange Kline.openTime startTime endTime series).map (·.value) := by
  have hI := interval.numberOfMs_pos
  cases ks with
  | nil =>
    refine ⟨s, .stop _ (batch_nil U _ symbol interval startTime limit hc), ?_⟩
    rw [hret, hrange, hgot rfl]; rfl
  | cons k ks =>
    have hnone : inRange Kline.openTime startTime (k.openTime - interval.numberOfMsForCandleInterval) series = [] := by
      rw [inRange_before Kline.openTime (a := []) hs hrange (le_refl _) (by omega)]; rfl
    obtain ⟨r, hr, hval⟩ := loop_last series symbol interval limit hpos hc hnone
    exact ⟨r, hr, by rw [hval, hc, hret, hrange, List.map_append]⟩

/-! ## The newest batch and the one before it -/

/-- The window of the second request, when the first batch starts at `x` and
`y` is the entry before it. -/
theorem second_window (hgap : GapFree Kline.openTime interval.numberOfMsForCandleInterval series) {endTime : Int}
    {before b : List (Kline U)} {x y : Kline U}
    (hrange : inRange Kline.openTime startTime endTime series = before ++ [y] ++ x :: b) :
    x.openTime - interval.numberOfMsForCandleInterval = y.openTime ∧ startTime ≤ y.openTime ∧
    ∀ lo, startTime ≤ lo → inRange Kline.openTime lo y.openTime series =
      inRange Kline.openTime lo y.openTime (before ++ [y]) := by
  have hI := interval.numberOfMs_pos
  have hs := hgap.ascending Kline.openTime hI
  have hg : GapFree Kline.openTime interval.numberOfMsForCandleInterval (before ++ y :: x :: b) := by
    have := hgap.inRange Kline.openTime hI startTime endTime
    rw [hrange] at this
    simpa using this
  have hadj := hg.adjacent Kline.openTime
  have hy : y ∈ inRange Kline.openTime startTime endTime series := by rw [hrange]; simp
  refine ⟨by omega, ((mem_inRange _).mp hy).2.1, ?_⟩
  intro lo hlo
  exact inRange_before Kline.openTime hs hrange hlo (by omega)

theorem range_gapFree (hgap : GapFree Kline.openTime interval.numberOfMsForCandleInterval series) {endTime : Int}
    {a b : List (Kline U)} (hrange : inRange Kline.openTime startTime endTime series = a ++ b) :
    GapFree Kline.openTime interval.numberOfMsForCandleInterval a := by
  have hg := hgap.inRange Kline.openTime interval.numberOfMs_pos startTime endTime
  rw [hrange] at hg
  exact List.IsChain.left_of_append hg

theorem second_full (hgap : GapFree Kline.openTime interval.numberOfMsForCandleInterval series) {endTime : Int}
    {before b : List (Kline U)} {x y : Kline U}
    (hrange : inRange Kline.openTime startTime endTime series = before ++ [y] ++ x :: b)
    (hlen : (before ++ [y]).length ≤ limit) :
    (inRange Kline.openTime (max startTime (y.openTime - limit * interval.numberOfMsForCandleInterval))
      y.openTime series).take limit = before ++ [y] := by
  have hI := interval.numberOfMs_pos
  obtain ⟨-, -, hwin⟩ := second_window series interval hgap hrange
  have hmem : ∀ k ∈ before ++ [y], startTime ≤ k.openTime := by
    intro k hk
    have : k ∈ inRange Kline.openTime startTime endTime series := by
      rw [hrange]; exact List.mem_append_left _ hk
    exact ((mem_inRange _).mp this).2.1
  have hg := range_gapFree series interval hgap hrange
  rw [hwin _ (le_max_left ..), inRange_eq_self, List.take_of_length_le hlen]
  intro k hk
  have hstart := hmem k hk
  rcases List.mem_append.mp hk with hb | hb
  · have hge := hg.ge_last Kline.openTime hI k hb
    have hlt := (hg.ascending Kline.openTime hI).lt Kline.openTime hb (List.mem_singleton_self y)
    have hmul : (before.length : Int) * interval.numberOfMsForCandleInterval ≤
        limit * interval.numberOfMsForCandleInterval := by
      rw [List.length_append, List.length_singleton] at hlen
      exact Int.mul_le_mul_of_nonneg_right (by omega) (by omega)
    omega
  · rw [List.mem_singleton] at hb
    subst hb
    have : (0 : Int) ≤ limit * interval.numberOfMsForCandleInterval := Int.mul_nonneg (by omega) (by omega)
    omega

/-- A window of more than `limit` candles is answered without its newest one. -/
theorem second_short (hgap : GapFree Kline.openTime interval.numberOfMsForCandleInterval series) {endTime : Int}
    {before b : List (Kline U)} {x y : Kline U}
    (hrange : inRange Kline.openTime startTime endTime series = before ++ [y] ++ x :: b)
    (hlimit : 0 < limit) (hlen : limit ≤ before.length) :
    ∃ k ks, (inRange Kline.openTime (max startTime (y.openTime - limit * interval.numberOfMsForCandleInterval))
      y.openTime series).take limit = k :: ks ∧ ∀ z ∈ k :: ks, z.openTime < y.openTime := by
  have hI := interval.numberOfMs_pos
  obtain ⟨-, hstart, hwin⟩ := second_window series interval hgap hrange
  have hg := range_gapFree series interval hgap hrange
  have hasc := hg.ascending Kline.openTime hI
  have hmul : (0 : Int) ≤ limit * interval.numberOfMsForCandleInterval := Int.mul_nonneg (by omega) (by omega)
  set lo := max startTime (y.openTime - limit * interval.numberOfMsForCandleInterval) with hlo
  -- the last `limit` entries before `y` are in the window
  have hlast : ∀ k ∈ newest limit before, lo ≤ k.openTime ∧ k.openTime ≤ y.openTime := by
    intro k hk
    have hb : k ∈ before := List.mem_of_mem_drop hk
    have hlt := hasc.lt Kline.openTime hb (List.mem_singleton_self y)
    have hge : y.openTime - limit * interval.numberOfMsForCandleInterval ≤ k.openTime := by
      have hsplit : before ++ [y] = before.take (before.length - limit) ++ (newest limit before ++ [y]) := by
        rw [← List.append_assoc, ← newest_split]
      have hg' : GapFree Kline.openTime interval.numberOfMsForCandleInterval (newest limit before ++ [y]) := by
        rw [hsplit] at hg
        exact List.IsChain.right_of_append hg
      have := hg'.ge_last Kline.openTime hI k hk
      rw [newest_length, Nat.min_eq_left hlen] at this
      exact this
    have hk' : k ∈ inRange Kline.openTime startTime endTime series := by
      rw [hrange]; simp [hb]
    have := ((mem_inRange _).mp hk').2.1
    omega
  have hwinlen : limit ≤ (inRange Kline.openTime lo y.openTime before).length := by
    calc limit = (newest limit before).length := by rw [newest_length]; omega
      _ = (inRange Kline.openTime lo y.openTime (newest limit before)).length := by rw [inRange_eq_self _ hlast]
      _ ≤ (inRange Kline.openTime lo y.openTime before).length := by
        apply List.Sublist.length_le
        exact List.Sublist.filter _ (List.drop_sublist _ _)
  have htake : (inRange Kline.openTime lo y.openTime series).take limit =
      (inRange Kline.openTime lo y.openTime before).take limit := by
    rw [hwin lo (le_max_left ..), inRange_append, List.take_append_of_le_length hwinlen]
  rw [htake]
  cases hk : (inRange Kline.openTime lo y.openTime before).take limit with
  | nil =>
    have := congrArg List.length hk
    rw [List.length_take, List.length_nil] at this
    omega
  | cons k ks =>
    refine ⟨k, ks, rfl, ?_⟩
    intro z hz
    rw [← hk] at hz
    have hb := ((mem_inRange _).mp (List.mem_of_mem_take hz)).1
    exact hasc.lt Kline.openTime hb (List.mem_singleton_self y)

end

/-! ## Exactly when the history is complete -/

section
variable {U : JsonUtils} (series : List (Kline U)) (symbol : String) (interval : CandleInterval)
  (startTime endTime : Int) (limit : Nat)

def Complete : Prop := ∃ fuel h, download U (exchange symbol interval series) symbol interval startTime limit endTime fuel =
  some (.ok h) ∧ h.retVal = (inRange Kline.openTime startTime endTime series).map (·.value)

/-- No window that is requested with a start holds more than `limit` candles,
and a first request without a start stays in the range. -/
def Fits : Prop :=
  if endTime - startTime ≤ limit * interval.numberOfMsForCandleInterval then
    (inRange Kline.openTime startTime endTime series).length ≤ limit
  else
    (inRange Kline.openTime startTime endTime series).length ≤ 2 * limit ∧
      (limit ≤ (inRange Kline.openTime startTime endTime series).length ∨ ∀ k ∈ series, startTime ≤ k.openTime)

theorem start_small (hpos : 0 < startTime) (hle : startTime ≤ endTime)
    (h : endTime - startTime ≤ limit * interval.numberOfMsForCandleInterval) :
    start U (exchange symbol interval series) symbol interval startTime limit endTime = .ok {
      currentEndTime := endTime
      candles := ((inRange Kline.openTime startTime endTime series).take limit).map (·.value)
      retVal := [], written := [], requests := 1 } := by
  unfold start
  simp only [if_pos hle, if_neg (show ¬ endTime - startTime > limit * interval.numberOfMsForCandleInterval by omega),
    fetch_from series symbol interval 0 hpos]
  rfl

theorem start_large (hle : startTime ≤ endTime)
    (h : ¬ endTime - startTime ≤ limit * interval.numberOfMsForCandleInterval) :
    start U (exchange symbol interval series) symbol interval startTime limit endTime = .ok {
      currentEndTime := endTime
      candles := (newest limit (upTo Kline.openTime endTime series)).map (·.value)
      retVal := [], written := [], requests := 1 } := by
  unfold start
  simp only [if_pos hle, if_pos (show endTime - startTime > limit * interval.numberOfMsForCandleInterval by omega),
    fetch_newest series symbol interval]
  rfl

variable {series startTime endTime limit}

theorem complete_of_start {s : History}
    (h : start U (exchange symbol interval series) symbol interval startTime limit endTime = .ok s) :
    Complete series symbol interval startTime endTime limit ↔
      ∃ r, Loop.Returns (batch U (exchange symbol interval series) symbol interval startTime limit) s (.ok r) ∧
        r.retVal = (inRange Kline.openTime startTime endTime series).map (·.value) := by
  unfold Complete download
  rw [h]
  constructor
  · rintro ⟨fuel, r, hr, hval⟩; exact ⟨r, ⟨fuel, hr⟩, hval⟩
  · rintro ⟨r, ⟨fuel, hr⟩, hval⟩; exact ⟨fuel, r, hr, hval⟩

/-- A first batch that is too short for its range: the oldest candle of the
range is in it, so nothing is put in front of it. -/
theorem le_limit_of_complete (hs : Ascending Kline.openTime series) (hlimit : 0 < limit) (hpos : 0 < startTime)
    (hle : startTime ≤ endTime) (h : endTime - startTime ≤ limit * interval.numberOfMsForCandleInterval)
    (hc : Complete series symbol interval startTime endTime limit) :
    (inRange Kline.openTime startTime endTime series).length ≤ limit := by
  rw [complete_of_start symbol interval (start_small series symbol interval startTime endTime limit hpos hle h)] at hc
  obtain ⟨r, ⟨fuel, hr⟩, hval⟩ := hc
  have hasc := hs.inRange Kline.openTime startTime endTime
  cases hR : inRange Kline.openTime startTime endTime series with
  | nil => simp
  | cons k ks =>
    obtain ⟨m, rfl⟩ : ∃ m, limit = m + 1 := ⟨limit - 1, by omega⟩
    rw [hR] at hr hval hasc
    obtain ⟨earlier, hret, hlt⟩ := loop_earlier U _ symbol interval startTime _
      (endBounded_exchange series symbol interval _)
      (show _ = k.value :: (ks.take m).map (·.value) from rfl) hr
    rw [hval] at hret
    cases earlier with
    | nil =>
      have := congrArg List.length hret
      simp only [List.map_cons, List.length_cons, List.nil_append, List.append_nil, List.take_succ_cons,
        List.length_map, List.length_take] at this ⊢
      omega
    | cons c earlier =>
      -- the first candle returned would be older than the oldest of the range
      simp only [List.map_cons, List.cons_append, List.cons.injEq] at hret
      have := hlt c (by simp)
      rw [← hret.1] at this
      omega

theorem newest_in_range_of_complete (hs : Ascending Kline.openTime series) (hlimit : 0 < limit)
    (hle : startTime ≤ endTime) (h : ¬ endTime - startTime ≤ limit * interval.numberOfMsForCandleInterval)
    (hc : Complete series symbol interval startTime endTime limit) :
    limit ≤ (inRange Kline.openTime startTime endTime series).length ∨ ∀ k ∈ series, startTime ≤ k.openTime := by
  rw [complete_of_start symbol interval (start_large series symbol interval startTime endTime limit hle h)] at hc
  obtain ⟨r, ⟨fuel, hr⟩, hval⟩ := hc
  obtain ⟨pre, hup, hpre, hall⟩ := upTo_split Kline.openTime hle hs
  by_cases hpn : pre = []
  · right
    intro k hk
    refine Int.not_lt.mp fun hlt => ?_
    have := hall k hk hlt
    rw [hpn] at this; cases this
  · left
    refine Nat.le_of_not_lt fun hlt => ?_
    have hlen := newest_length limit (upTo Kline.openTime endTime series)
    have hplen : 0 < pre.length := List.length_pos_iff.mpr hpn
    rw [hup, List.length_append] at hlen
    cases hB : newest limit (upTo Kline.openTime endTime series) with
    | nil => rw [hup] at hB; rw [hB, List.length_nil] at hlen; omega
    | cons k ks =>
      rw [hB] at hr
      obtain ⟨earlier, hret, -⟩ := loop_earlier U _ symbol interval startTime _
        (endBounded_exchange series symbol interval _)
        (show _ = k.value :: ks.map (·.value) from rfl) hr
      rw [hup] at hB
      rw [hB] at hlen
      have := congrArg List.length (hval.symm.trans hret)
      simp only [List.length_map, List.length_append, List.length_nil] at this
      omega

theorem newest_upTo (hs : Ascending Kline.openTime series) (hle : startTime ≤ endTime)
    (h : limit ≤ (inRange Kline.openTime startTime endTime series).length ∨ ∀ k ∈ series, startTime ≤ k.openTime) :
    newest limit (upTo Kline.openTime endTime series) =
      newest limit (inRange Kline.openTime startTime endTime series) := by
  obtain ⟨pre, hup, hpre, -⟩ := upTo_split Kline.openTime hle hs
  rcases h with h | h
  · rw [hup, newest_append h]
  · cases pre with
    | nil => rw [hup]; rfl
    | cons k pre =>
      have hk : k ∈ series := by
        have : k ∈ upTo Kline.openTime endTime series := by rw [hup]; simp
        exact (List.mem_filter.mp this).1
      have h1 := h k hk
      have h2 := hpre k (by simp)
      omega

/-- A full second window loses the candle just before the first batch. -/
theorem le_two_of_complete (hgap : GapFree Kline.openTime interval.numberOfMsForCandleInterval series)
    (hlimit : 0 < limit) (hpos : 0 < startTime) (hle : startTime ≤ endTime)
    (h : ¬ endTime - startTime ≤ limit * interval.numberOfMsForCandleInterval)
    (hc : Complete series symbol interval startTime endTime limit) :
    (inRange Kline.openTime startTime endTime series).length ≤ 2 * limit := by
  have hs := hgap.ascending Kline.openTime interval.numberOfMs_pos
  have hin := newest_in_range_of_complete symbol interval hs hlimit hle h hc
  rw [complete_of_start symbol interval (start_large series symbol interval startTime endTime limit hle h)] at hc
  obtain ⟨r, hr, hval⟩ := hc
  rw [newest_upTo hs hle hin] at hr
  refine Nat.le_of_not_lt fun hlt => ?_
  have hsplit := newest_split limit (inRange Kline.openTime startTime endTime series)
  set R := inRange Kline.openTime startTime endTime series with hR
  have hnlen := newest_length limit R
  -- the first batch starts at `x`; `y` is the candle before it
  obtain ⟨x, b, hB⟩ : ∃ x b, newest limit R = x :: b := by
    cases hB : newest limit R with
    | nil => rw [hB, List.length_nil] at hnlen; omega
    | cons x b => exact ⟨x, b, rfl⟩
  obtain ⟨before, y, hA⟩ : ∃ before y, R.take (R.length - limit) = before ++ [y] := by
    rcases List.eq_nil_or_concat' (R.take (R.length - limit)) with hnil | ⟨before, y, hA⟩
    · have := congrArg List.length hnil
      rw [List.length_take, List.length_nil] at this
      omega
    · exact ⟨before, y, hA⟩
  have hlen : limit ≤ before.length := by
    have := congrArg List.length hA
    rw [List.length_take, List.length_append, List.length_singleton] at this
    omega
  rw [hA, hB] at hsplit
  rw [hB] at hr
  have hrange : inRange Kline.openTime startTime endTime series = before ++ [y] ++ x :: b := hR ▸ hsplit
  obtain ⟨hxy, hy, -⟩ := second_window series interval hgap hrange
  obtain ⟨k, ks, hk, hold⟩ := second_short series interval limit hgap hrange hlimit hlen
  have hwin : 0 < max startTime (y.openTime - limit * interval.numberOfMsForCandleInterval) := by omega
  have hget := fetch_from series symbol interval 1 hwin y.openTime limit
  rw [hk] at hget
  have hxy' : x.value.openTime - interval.numberOfMsForCandleInterval = y.openTime := hxy
  have hnext := hr.inv_next _ (batch_request U (exchange symbol interval series) symbol interval startTime limit
    (s := { currentEndTime := endTime, candles := (x :: b).map (·.value), retVal := [], written := [], requests := 1 })
    (show _ = x.value :: b.map (·.value) from rfl) (by rw [hxy']; exact hy) (by rw [hxy']; exact hget))
  obtain ⟨fuel, hfuel⟩ := hnext
  obtain ⟨earlier, hret, hlt'⟩ := loop_earlier U _ symbol interval startTime _
    (endBounded_exchange series symbol interval _)
        (show _ = k.value :: ks.map (·.value) from rfl) hfuel
  -- the candle `y` would have to be in the second batch or before it
  have heq : (before ++ [y]).map (·.value) = earlier ++ (k :: ks).map (·.value) := by
    have := hval.symm.trans hret
    rw [hsplit, List.append_nil, List.map_append] at this
    exact List.append_cancel_right this
  have hmem : y.value ∈ earlier ++ (k :: ks).map (·.value) := by rw [← heq]; simp
  rcases List.mem_append.mp hmem with hm | hm
  · have h1 := hlt' _ hm
    have h2 := hold k (by simp)
    exact absurd (Int.lt_trans h1 h2) (Int.lt_irrefl _)
  · obtain ⟨z, hz, hzy⟩ := List.mem_map.mp hm
    have := hold z hz
    rw [Kline.openTime, Kline.openTime, hzy] at this
    exact absurd this (Int.lt_irrefl _)

theorem complete_of_fits (hgap : GapFree Kline.openTime interval.numberOfMsForCandleInterval series)
    (hlimit : 0 < limit) (hpos : 0 < startTime) (hle : startTime ≤ endTime)
    (hfits : Fits series interval startTime endTime limit) :
    Complete series symbol interval startTime endTime limit := by
  have hs := hgap.ascending Kline.openTime interval.numberOfMs_pos
  unfold Fits at hfits
  by_cases h : endTime - startTime ≤ limit * interval.numberOfMsForCandleInterval
  · rw [if_pos h] at hfits
    rw [complete_of_start symbol interval (start_small series symbol interval startTime endTime limit hpos hle h),
      List.take_of_length_le hfits]
    exact loop_rest series symbol interval limit hs hpos (List.append_nil _).symm rfl rfl fun _ => rfl
  · rw [if_neg h] at hfits
    obtain ⟨htwo, hin⟩ := hfits
    rw [complete_of_start symbol interval (start_large series symbol interval startTime endTime limit hle h),
      newest_upTo hs hle hin]
    have hsplit := newest_split limit (inRange Kline.openTime startTime endTime series)
    rcases List.eq_nil_or_concat' ((inRange Kline.openTime startTime endTime series).take
        ((inRange Kline.openTime startTime endTime series).length - limit)) with hnil | ⟨before, y, hA⟩
    · -- the first batch is the whole range
      rw [hnil, List.nil_append] at hsplit
      rw [← hsplit]
      exact loop_rest series symbol interval limit hs hpos (List.append_nil _).symm rfl rfl fun _ => rfl
    · rw [hA] at hsplit
      have hlenA := congrArg List.length hA
      rw [List.length_take] at hlenA
      cases hB : newest limit (inRange Kline.openTime startTime endTime series) with
      | nil =>
        have := newest_eq_nil hlimit hB
        rw [this] at hsplit
        simp [newest] at hsplit
      | cons x b =>
        rw [hB] at hsplit
        obtain ⟨hxy, hy, -⟩ := second_window series interval hgap hsplit
        have hfull := second_full series interval limit hgap hsplit (by omega)
        have hwin : 0 < max startTime (y.openTime - limit * interval.numberOfMsForCandleInterval) := by omega
        have hget := fetch_from series symbol interval 1 hwin y.openTime limit
        rw [hfull] at hget
        have hxy' : x.value.openTime - interval.numberOfMsForCandleInterval = y.openTime := hxy
        obtain ⟨r, hr, hval⟩ := loop_rest series symbol interval limit hs hpos
          (s := { currentEndTime := y.openTime, candles := (before ++ [y]).map (·.value)
                  retVal := (x :: b).map (·.value), written := [(x :: b).map (·.value)], requests := 2 })
          hsplit rfl rfl (by simp)
        refine ⟨r, .next _ (batch_request U (exchange symbol interval series) symbol interval startTime limit
          (show _ = x.value :: b.map (·.value) from rfl) (by rw [hxy']; exact hy)
          (by rw [hxy']; exact hget)) ?_, hval⟩
        rw [hxy']
        simpa using hr

theorem complete_iff_fits (hgap : GapFree Kline.openTime interval.numberOfMsForCandleInterval series)
    (hlimit : 0 < limit) (hpos : 0 < startTime) (hle : startTime ≤ endTime) :
    Complete series symbol interval startTime endTime limit ↔ Fits series interval startTime endTime limit := by
  constructor
  · intro hc
    have hs := hgap.ascending Kline.openTime interval.numberOfMs_pos
    unfold Fits
    by_cases h : endTime - startTime ≤ limit * interval.numberOfMsForCandleInterval
    · rw [if_pos h]
      exact le_limit_of_complete symbol interval hs hlimit hpos hle h hc
    · rw [if_neg h]
      exact ⟨le_two_of_complete symbol interval hgap hlimit hpos hle h hc,
        newest_in_range_of_complete symbol interval hs hlimit hle h hc⟩
  · exact complete_of_fits symbol interval hgap hlimit hpos hle

end

/-! ## The download of the client -/

theorem getHistoricalPrices_complete_iff {U : JsonUtils} {series : List (Kline U)} {symbol : String}
    {interval : CandleInterval} {startTime endTime : Int}
    (hgap : GapFree Kline.openTime interval.numberOfMsForCandleInterval series)
    (hpos : 0 < startTime) (hle : startTime ≤ endTime) :
    (∃ fuel h, getHistoricalPrices U (exchange symbol interval series) symbol interval startTime endTime fuel =
      some (.ok h) ∧
      h.retVal = (inRange Kline.openTime startTime endTime series).map (·.value)) ↔
      Fits series interval startTime endTime limit :=
  complete_iff_fits symbol interval hgap (by decide) hpos hle

def minute (k : Nat) : Kline JsonUtils.plain where
  json := .arr [.num (.int (60000 * (k + 1))), .str "1", .str "1", .str "1", .str "1", .str "1",
    .num (.int (60000 * (k + 1) + 59999)), .str "1"]
  value := {
    openTime := 60000 * (k + 1), closeTime := 60000 * (k + 1) + 59999
    «open» := 1, high := 1, low := 1, close := 1, volume := 1, quoteAssetVolume := 1 }
  decodes := rfl

def minutes (n : Nat) : List (Kline JsonUtils.plain) := (List.range n).map minute

theorem minutes_gapFree (n : Nat) :
    GapFree Kline.openTime (CandleInterval.numberOfMsForCandleInterval ._1m) (minutes n) := by
  unfold minutes GapFree
  rw [List.isChain_map, List.isChain_range]
  intro k _
  show (60000 : Int) * ((k.succ : Nat) + 1) = 60000 * (k + 1) + 60000
  omega

theorem getHistoricalPrices_two_minutes :
    (∃ fuel h, getHistoricalPrices JsonUtils.plain (exchange "BTCUSDT" ._1m (minutes 2)) "BTCUSDT" ._1m 60000 120000 fuel =
        some (.ok h) ∧
      h.retVal = (inRange Kline.openTime 60000 120000 (minutes 2)).map (·.value)) ↔
      Fits (minutes 2) ._1m 60000 120000 limit :=
  getHistoricalPrices_complete_iff (minutes_gapFree 2) (by decide) (by decide)

theorem minutes_in_range (n : Nat) : inRange Kline.openTime 60000 (60000 * n) (minutes n) = minutes n := by
  apply inRange_eq_self
  intro k hk
  obtain ⟨i, hi, rfl⟩ := List.mem_map.mp hk
  have hlt := List.mem_range.mp hi
  show (60000 : Int) ≤ 60000 * (i + 1) ∧ 60000 * ((i : Int) + 1) ≤ 60000 * n
  omega

theorem getHistoricalPrices_misses_newest :
    GapFree Kline.openTime (CandleInterval.numberOfMsForCandleInterval ._1m) (minutes 1001) ∧
    ¬ ∃ fuel h, getHistoricalPrices JsonUtils.plain
      (exchange "BTCUSDT" ._1m (minutes 1001)) "BTCUSDT" ._1m 60000 60060000 fuel =
        some (.ok h) ∧
      h.retVal = (inRange Kline.openTime 60000 60060000 (minutes 1001)).map (·.value) := by
  have hgap := minutes_gapFree 1001
  refine ⟨hgap, fun h => ?_⟩
  have hlen := le_limit_of_complete "BTCUSDT" ._1m (hgap.ascending Kline.openTime (by decide))
    (by decide) (by decide) (by decide) (by decide) h
  have hall := minutes_in_range 1001
  norm_num at hall
  rw [hall] at hlen
  simp [minutes, limit] at hlen

end RESTClient

end Spot

end MexcApi
