import MexcApi.ConnectorCandlesSound
import MexcApi.ConnectorQueriesSound
import MexcApi.Replies
import MexcApi.ResumedDownloadsSound

/-!
# The connector's candles over the network

From the series of an exchange through the messages of a session, the rounds
of the download and the decoding of each reply to the candles of the connector.
Replies may hold any number of candles, and each may fail.
-/

namespace MexcApi

open Nlohmann Windows

namespace Futures

/-! ## The exchange -/

/-- A message that asks for candles from the second `start` to the second `stop`. -/
structure AsksCandles (m : Message) (symbol : String) (interval : CandleInterval) (start stop : Int) : Prop where
  method : m.method = .get
  path : targetPath m.target = "/api/v1/contract/kline/" ++ symbol
  interval : (parameter? m "interval").bind (intervals.lookup ·) = some interval.numberOfMsForCandleInterval
  start : parameter? m "start" = some (toString start)
  stop : parameter? m "end" = some (toString stop)

/-- An exception, or a status other than OK. -/
def Fails (reply : Except Fault HttpResponse) : Prop := ∀ response, reply = .ok response → response.result ≠ 200

def ServesCandles (series : String → CandleInterval → List Kline) (network : Network) : Prop :=
  ∀ m symbol interval start stop, AsksCandles m symbol interval start stop → Fails (network m) ∨
    ∃ cap response, 0 < cap ∧ network m = .ok response ∧ response.result = 200 ∧
      response.json = some (klineReply (newest cap (inRange Kline.time start stop (series symbol interval))))

/-- The requests of a download; the clock and the network are those of each request. -/
def overNetwork (C : Platform) (p : HTTPSession.P) (ts : Nat → Int) (network : Nat → Network) : KlineServer :=
  fun n request => p.perform C (ts n) (network n) request.toHttp

/-- A candle as a caller is told of it. Of its numbers `std::to_string` keeps
six fractional digits. -/
structure Kline.Told (convertTo : ℚ → Double) (k : Kline) (told : CommonCandle) : Prop where
  openTime : told.openTime = k.time * 1000
  «open» : told.open = convertTo (toStringValue k.open.toRat)
  high : told.high = convertTo (toStringValue k.high.toRat)
  low : told.low = convertTo (toStringValue k.low.toRat)
  close : told.close = convertTo (toStringValue k.close.toRat)
  volume : told.volume = convertTo (toStringValue k.vol.toRat)

/-! ## One request -/

section
variable (C : Platform) (p : HTTPSession.P)

def klineMessage (ts : Int) (symbol : String) (interval : CandleInterval) (start stop : Int) : Message :=
  p.methodGet C ts ("/api/v1/contract/kline/" ++ symbol)
    (Parameters.ofList [("end", toString stop), ("interval", interval.enumName), ("start", toString start)]) true

theorem enumName_separate (interval : CandleInterval) : '&' ∉ interval.enumName.toList := by
  cases interval <;> decide

theorem klineMessage_asks (ts : Int) {symbol : String} (hsymbol : '?' ∉ symbol.toList) (interval : CandleInterval)
    (start stop : Int) : AsksCandles (klineMessage C p ts symbol interval start stop) symbol interval start stop := by
  have hpath : '?' ∉ ("/api/v1/contract/kline/" ++ symbol).toList := unmarked_append (by decide) hsymbol
  have hclean : Clean (Parameters.ofList
      [("end", toString stop), ("interval", interval.enumName), ("start", toString start)]) := by
    have hend : '&' ∉ "end".toList ∧ '=' ∉ "end".toList := by decide
    have hinterval : '&' ∉ "interval".toList ∧ '=' ∉ "interval".toList := by decide
    have hstart : '&' ∉ "start".toList ∧ '=' ∉ "start".toList := by decide
    apply ofList_clean
    intro entry hentry
    simp only [List.mem_cons, List.not_mem_nil, or_false] at hentry
    rcases hentry with rfl | rfl | rfl <;> dsimp only
    · exact ⟨hend.1, hend.2, intToString_separate stop⟩
    · exact ⟨hinterval.1, hinterval.2, enumName_separate interval⟩
    · exact ⟨hstart.1, hstart.2, intToString_separate start⟩
  have htarget := methodGet_target C p ts ("/api/v1/contract/kline/" ++ symbol) (Parameters.ofList
    [("end", toString stop), ("interval", interval.enumName), ("start", toString start)]) true
  have hquery : ∀ name, parameter? (klineMessage C p ts symbol interval start stop) name =
      if name = "start" then some (toString start)
      else if name = "interval" then some interval.enumName
      else if name = "end" then some (toString stop) else none := by
    intro name
    unfold parameter? klineMessage
    rw [htarget.2, targetQuery_query hpath, (splitQuery_queryStr _).mpr hclean]
    simp only [Parameters.ofList, List.foldl_cons, List.foldl_nil, SortedMap.lookup_insertOrAssign, List.lookup_nil]
  refine ⟨htarget.1, ?_, ?_, (hquery _).trans rfl, (hquery _).trans rfl⟩
  · unfold klineMessage
    rw [htarget.2, targetPath_query hpath]
  · rw [(hquery "interval").trans rfl]
    exact (klineRequest_for symbol interval start stop).2

variable {U : JsonUtils} (hU : U.Lawful) (ts : Nat → Int) {series : String → CandleInterval → List Kline}
  {network : Nat → Network} (hserves : ∀ n, ServesCandles series (network n)) {symbol : String}
  (hsymbol : '?' ∉ symbol.toList) (interval : CandleInterval)
include hU hserves hsymbol

theorem fetch_overNetwork (n : Nat) (start stop : Int) :
    (Fails (network n (klineMessage C p (ts n) symbol interval start stop)) ∧
      ∃ e, RESTClient.P.getHistoricalPrices U (overNetwork C p ts network n) symbol interval start stop = .error e) ∨
    ∃ cap, 0 < cap ∧ RESTClient.P.getHistoricalPrices U (overNetwork C p ts network n) symbol interval start stop =
      .ok ((newest cap (inRange Kline.time start stop (series symbol interval))).map Kline.candle) := by
  have hreply : overNetwork C p ts network n { symbol, interval := interval.enumName, start, «end» := stop } =
      network n (klineMessage C p (ts n) symbol interval start stop) := rfl
  unfold RESTClient.P.getHistoricalPrices
  rw [hreply]
  rcases hserves n _ symbol interval start stop (klineMessage_asks C p (ts n) hsymbol interval start stop) with
    hfails | ⟨cap, response, hcap, hresponse, hresult, hjson⟩
  · exact Or.inl ⟨hfails, unchecked hfails _⟩
  · refine Or.inr ⟨cap, hcap, ?_⟩
    have hhandle : handleMEXCResponse (Candles.fromJson U) Candles.toResponse response = _ :=
      handleMEXCResponse_ok hjson (fromJson_reply hU _) rfl
    rw [hresponse, ok_bind, checkResponse_ok hresult, ok_bind, hhandle]
    rfl

theorem overNetwork_honest : Honest U (series symbol interval) symbol interval (overNetwork C p ts network) := by
  intro n start stop candles hcandles
  rcases fetch_overNetwork C p hU ts hserves hsymbol interval n start stop with ⟨-, e, he⟩ | ⟨cap, hcap, hok⟩
  · rw [he] at hcandles
    cases hcandles
  · rw [hok] at hcandles
    cases hcandles
    exact ⟨cap, hcap, rfl⟩

end

/-! ## The whole download -/

theorem Honest.withinSeconds {U : JsonUtils} {series : List Kline} {symbol : String} {interval : CandleInterval}
    {server : KlineServer} (h : Honest U series symbol interval server) : WithinSeconds U server symbol interval := by
  intro n startTime endTime candles hcandles c hc
  obtain ⟨cap, -, rfl⟩ := h n startTime endTime candles hcandles
  obtain ⟨k, hk, rfl⟩ := List.mem_map.mp hc
  have hrange := ((mem_inRange _).mp (List.drop_subset _ _ hk)).2
  show startTime * 1000 ≤ k.time * 1000 ∧ k.time * 1000 ≤ endTime * 1000
  omega

theorem range_oneSecond {series : List Kline} (hs : Spaced series) {start stop : Int} (h : ¬ start < stop) :
    (inRange Kline.time start stop series).dropLast = [] := by
  have hspaced : Spaced (inRange Kline.time start stop series) := List.Pairwise.filter _ hs
  have hwithin : ∀ k ∈ inRange Kline.time start stop series, start ≤ k.time ∧ k.time ≤ stop :=
    fun k hk => ((mem_inRange _).mp hk).2
  generalize inRange Kline.time start stop series = ks at hspaced hwithin
  match ks with
  | [] => rfl
  | [_] => rfl
  | k :: l :: _ =>
    have hkl := (List.pairwise_cons.mp hspaced).1 l List.mem_cons_self
    have hk := hwithin k List.mem_cons_self
    have hl := hwithin l (List.mem_cons_of_mem _ List.mem_cons_self)
    omega

/-- A download over an honest server throws what a request has thrown, or
returns the range without its newest candle. -/
theorem honest_download {U : JsonUtils} {series : List Kline} (hs : Spaced series) {symbol : String}
    {interval : CandleInterval} {server : KlineServer} (h : Honest U series symbol interval server) (start stop : Int) :
    ∃ fuel r, RESTClient.getHistoricalPrices U server symbol interval start stop fuel = some r ∧
      ((∃ history, r = .ok history ∧
          history.retVal = (inRange Kline.time start stop series).dropLast.map Kline.candle) ∨
        ∃ e n stop', r = .error e ∧
          Backward.Asked (RESTClient.request U server symbol interval start) (RESTClient.nextEnd start) 0
            (RESTClient.wanted start stop) n stop' ∧
          RESTClient.P.getHistoricalPrices U (server n) symbol interval start stop' = .error e) := by
  obtain ⟨fuel, r, hrun⟩ : ∃ fuel r, RESTClient.getHistoricalPrices U server symbol interval start stop fuel = some r :=
    client_ends h.withinSeconds
  refine ⟨fuel, r, hrun, ?_⟩
  cases r with
  | ok history =>
    refine Or.inl ⟨history, rfl, ?_⟩
    have hwalk := RESTClient.download_walk U server symbol interval start hrun
    rw [RESTClient.download_retVal U server symbol interval start hrun]
    by_cases hlt : start < stop
    · rw [RESTClient.walk_exact hs hwalk (fun n stop candles hcandles => h n start stop candles hcandles) hlt,
        List.map_dropLast]
    · have hnone : RESTClient.wanted start stop = none := if_neg hlt
      rw [hnone] at hwalk
      rw [hwalk.eq_nil, range_oneSecond hs hlt]
      rfl
  | error e =>
    rw [← RESTClient.streamed_forget] at hrun
    obtain ⟨streamed, hstreamed, herror⟩ := Option.map_eq_some_iff.mp hrun
    cases streamed with
    | ok history => cases herror
    | error broken =>
      cases herror
      obtain ⟨n, stop', hpath, hn⟩ := RESTClient.streamed_path U server symbol interval start hstreamed
      exact Or.inr ⟨_, n, stop', rfl, hpath.asked, hn⟩

/-! ## The connector -/

/-- A request of the call is sent as this message and is not answered with OK. -/
def RequestFails (U : JsonUtils) (C : Platform) (p : HTTPSession.P) (ts : Nat → Int) (network : Nat → Network)
    (symbol : String) (interval : CandleInterval) (start stop : Int) (m : Message) : Prop :=
  ∃ n stop', Backward.Asked (RESTClient.request U (overNetwork C p ts network) symbol interval start)
      (RESTClient.nextEnd start) 0 (RESTClient.wanted start stop) n stop' ∧
    p.message C (ts n) (RESTClient.klineRequest symbol interval start stop').toHttp = some (.ok m) ∧
    AsksCandles m symbol interval start stop' ∧ Fails (network n m)

/-- The candles of the range without the newest, whatever the session, the
clock and the sizes of the replies; or a request has failed. -/
theorem candles_delivered {U : JsonUtils} (hU : U.Lawful) (convertTo : ℚ → Double) (C : Platform) (p : HTTPSession.P)
    (ts : Nat → Int) {series : String → CandleInterval → List Kline} {network : Nat → Network}
    (hserves : ∀ n, ServesCandles series (network n)) {symbol : String} (hsymbol : '?' ∉ symbol.toList)
    {interval : CommonCandleInterval} {mexcInterval : CandleInterval}
    (hinterval : toMexcInterval interval = .ok mexcInterval) (hs : Spaced (series symbol mexcInterval))
    (startTime endTime : Int) :
    ∃ fuel r, getHistoricalCandles U convertTo (overNetwork C p ts network) symbol interval startTime endTime fuel =
        some r ∧
      ((∃ candles, r = .ok candles ∧ List.Forall₂ (Kline.Told convertTo)
          (inRange Kline.time (startTime.tdiv 1000) (endTime.tdiv 1000) (series symbol mexcInterval)).dropLast candles) ∨
        (∃ e, r = .error e) ∧ ∃ m, RequestFails U C p ts network symbol mexcInterval (startTime.tdiv 1000)
          (endTime.tdiv 1000) m) := by
  have hhonest := overNetwork_honest C p hU ts hserves hsymbol mexcInterval
  obtain ⟨fuel, r, hrun, hr⟩ := honest_download hs hhonest (startTime.tdiv 1000) (endTime.tdiv 1000)
  refine ⟨fuel, r.map fun h => h.retVal.map (toCandle convertTo), ?_, ?_⟩
  · unfold getHistoricalCandles
    rw [hinterval]
    simp only [hrun, Option.map_some]
  · rcases hr with ⟨history, rfl, hretVal⟩ | ⟨e, n, stop, rfl, hasked, hn⟩
    · left
      refine ⟨history.retVal.map (toCandle convertTo), rfl, ?_⟩
      rw [hretVal, List.map_map]
      exact told_map (fun k => ⟨rfl, rfl, rfl, rfl, rfl, rfl⟩) _
    · right
      refine ⟨⟨e, rfl⟩, _, n, stop, hasked, rfl, klineMessage_asks C p (ts n) hsymbol mexcInterval _ stop, ?_⟩
      rcases fetch_overNetwork C p hU ts hserves hsymbol mexcInterval n (startTime.tdiv 1000) stop with
        ⟨hfails, -⟩ | ⟨cap, -, hok⟩
      · exact hfails
      · rw [hok] at hn
        cases hn

theorem intToString_injective {a b : Int} (h : toString a = toString b) : a = b := by
  have hnat : ∀ {m n : Nat}, m.repr = n.repr → m = n := by
    intro m n hmn
    have hdigits := congrArg String.toList hmn
    rw [Nat.toList_repr, Nat.toList_repr] at hdigits
    rw [← Nat.ofDigitChars_ten_toDigits (n := m), hdigits, Nat.ofDigitChars_ten_toDigits]
  have hsign : ∀ {m n : Nat}, m.repr ≠ "-" ++ n.repr := by
    intro m n hmn
    have hmem : '-' ∈ m.repr.toList := by
      rw [hmn, String.toList_append]
      exact List.mem_append_left _ (by decide)
    exact absurd (natRepr_digits m '-' hmem) (by decide)
  cases a with
  | ofNat m =>
    cases b with
    | ofNat n => rw [hnat h]
    | negSucc n => exact absurd h hsign
  | negSucc m =>
    cases b with
    | ofNat n => exact absurd h.symm hsign
    | negSucc n =>
      have hlist : ("-" ++ m.succ.repr).toList = ("-" ++ n.succ.repr).toList := congrArg String.toList h
      rw [String.toList_append, String.toList_append] at hlist
      have hrepr := String.toList_injective (List.append_cancel_left hlist)
      rw [Nat.succ.inj (hnat hrepr)]

def readSecond (text : String) : Option Int :=
  ((List.range 400).find? fun t => toString (Int.ofNat t) = text).map Int.ofNat

/-- Three candles, one in a reply. -/
def threeNetwork : Network := fun m =>
  match (parameter? m "start").bind readSecond, (parameter? m "end").bind readSecond with
  | some start, some stop => .ok {
      result := 200, body := "", json := some (klineReply (newest 1 (inRange Kline.time start stop threeCandles))) }
  | _, _ => .error (.runtimeError "end of stream")

theorem readSecond_some {t s : Int} (h : readSecond (toString t) = some s) : s = t := by
  obtain ⟨n, hn, rfl⟩ := Option.map_eq_some_iff.mp h
  have htext := List.find?_some hn
  exact intToString_injective (of_decide_eq_true htext)

theorem threeNetwork_serves : ServesCandles (fun _ _ => threeCandles) threeNetwork := by
  intro m symbol interval start stop hm
  unfold threeNetwork
  rw [hm.start, hm.stop, Option.bind_some, Option.bind_some]
  cases hstart : readSecond (toString start) with
  | none => exact Or.inl fun response h => by cases h
  | some start' =>
    cases hstop : readSecond (toString stop) with
    | none => exact Or.inl fun response h => by cases h
    | some stop' =>
      rw [readSecond_some hstart, readSecond_some hstop]
      exact Or.inr ⟨1, _, Nat.one_pos, rfl, rfl, rfl⟩

theorem candles_delivered_three :
    ∃ fuel r, getHistoricalCandles JsonUtils.plain .finite (overNetwork cancelPlatform (HTTPSession.withKey "" "")
        (fun n => 1700000000000 + n) fun _ => threeNetwork) "BTC_USDT" ._1m 60500 300000 fuel = some r ∧
      ((∃ candles, r = .ok candles ∧
          List.Forall₂ (Kline.Told .finite) (inRange Kline.time 60 300 threeCandles).dropLast candles) ∨
        (∃ e, r = .error e) ∧ ∃ m, RequestFails JsonUtils.plain cancelPlatform (HTTPSession.withKey "" "")
          (fun n => 1700000000000 + n) (fun _ => threeNetwork) "BTC_USDT" ._1m 60 300 m) :=
  candles_delivered JsonUtils.plain_lawful .finite cancelPlatform (HTTPSession.withKey "" "") _
    (fun _ => threeNetwork_serves) (by decide) rfl (by unfold Spaced; decide) 60500 300000

end Futures

end MexcApi
