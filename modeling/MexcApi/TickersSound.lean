import MexcApi.DecimalFieldsSound
import MexcApi.DecodersSound
import MexcApi.WsIntactSound

/-!
# Tickers of both kinds

One record decoded as a websocket ticker and as a reply. Both decoders read the
same members, except for the time: the one of the events reads `m_timestamp`.
-/

namespace MexcApi

open Nlohmann

namespace Futures

/-- The member is there and not null. -/
def Holds (d : Json) (key : String) : Prop := ∃ v, d.find? key = some v ∧ v ≠ .null

def SixDigits (d : Json) : Prop := ∀ key n, d.find? key = some (.num n) → ∃ m : Int, n.toRat * 1000000 = m

structure Agree (d : Json) (t : EventTicker) (r : Ticker) : Prop where
  symbol : Holds d "symbol" → t.symbol = r.symbol
  bid1 : Holds d "bid1" → t.bid1 = r.bid1
  ask1 : Holds d "ask1" → t.ask1 = r.ask1
  volume24 : Holds d "volume24" → t.volume24 = r.volume24
  holdVol : Holds d "holdVol" → t.holdVol = r.holdVol
  timestamp : Holds d "timestamp" → t.timestamp = r.timestamp

def Same (U : JsonUtils) (d : Json) : Prop :=
  ∃ t r, EventTicker.fromJson U d {} = (.ok (), t) ∧ Ticker.fromJson U (.obj [("data", d)]) = .ok r ∧ Agree d t r

def Ticker.decimalKeys : List String := ["lastPrice", "bid1", "ask1", "volume24", "amount24", "holdVol"]

/-- Every member that one of the decoders reads can be read. -/
structure Readable (U : JsonUtils) (d : Json) : Prop where
  event : ∀ f ∈ EventTicker.fields, Reads U f.get f.key (f.value {}) d
  decimals : ∀ key ∈ Ticker.decimalKeys, ∃ q, readDecimal U d key = .ok q
  timestamp : Reads U Json.getInt64 "timestamp" 0 d

def stamp (d : Json) (key : String) : Int :=
  match d.find? key with
  | some (.num n) => n.toInt
  | _ => 0

/-- A time that is there is the one that the events would have. -/
def SameStamp (d : Json) : Prop := Holds d "timestamp" → stamp d "m_timestamp" = stamp d "timestamp"

/-! ## Decoding in place -/

section
variable {σ : Type} {U : JsonUtils} {json : Json}

/-- Where the fields do not overlap, each is read over what it has at the start. -/
theorem readFields_reads : ∀ {fields : List (Field σ)} {self t : σ}, Separate fields →
    fields.Pairwise (fun f g => ∀ self value, g.value (f.assign self value) = g.value self) →
    readFields U json fields self = (.ok (), t) →
    ∀ f ∈ fields, U.readValue f.get json f.key (f.value self) = .ok (f.value t)
  | [], _, _, _, _, _, f, hf => absurd hf List.not_mem_nil
  | f :: fields, self, t, hsep, happart, h, g, hg => by
    obtain ⟨hfirst, hrest⟩ := List.pairwise_cons.mp happart
    rw [readFields_cons] at h
    cases hread : U.readValue f.get json f.key (f.value self) with
    | error e =>
      rw [hread] at h
      cases h
    | ok value =>
      rw [hread] at h
      dsimp only at h
      rcases List.mem_cons.mp hg with rfl | hg
      · have hkept := value_readFields U json (g.assign self value) (List.pairwise_cons.mp hsep.pairwise).1
        rw [h, hsep.value_assign g (by simp)] at hkept
        rw [hread, hkept]
      · have ih := readFields_reads hsep.tail hrest h g hg
        rwa [hfirst g hg] at ih

theorem readFields_returns : ∀ {fields : List (Field σ)} {self : σ},
    fields.Pairwise (fun f g => ∀ self value, g.value (f.assign self value) = g.value self) →
    (∀ f ∈ fields, Reads U f.get f.key (f.value self) json) → ∃ t, readFields U json fields self = (.ok (), t)
  | [], self, _, _ => ⟨self, rfl⟩
  | f :: fields, self, happart, h => by
    obtain ⟨hfirst, hrest⟩ := List.pairwise_cons.mp happart
    obtain ⟨value, hread⟩ := h f (by simp)
    have hreads : ∀ g ∈ fields, Reads U g.get g.key (g.value (f.assign self value)) json := by
      intro g hg
      rw [hfirst g hg]
      exact h g (by simp [hg])
    obtain ⟨t, ht⟩ := readFields_returns hrest hreads
    refine ⟨t, ?_⟩
    rw [readFields_cons, hread]
    exact ht

end

theorem EventTicker.fields_apart :
    EventTicker.fields.Pairwise fun f g => ∀ self value, g.value (f.assign self value) = g.value self := by
  simp [fields]

theorem EventTicker.reads {U : JsonUtils} {d : Json} {t : EventTicker} (h : EventTicker.fromJson U d {} = (.ok (), t)) :
    ∀ f ∈ EventTicker.fields, U.readValue f.get d f.key (f.value {}) = .ok (f.value t) :=
  readFields_reads EventTicker.fields_separate EventTicker.fields_apart h

/-! ## The members -/

section
variable {U : JsonUtils} {d : Json} {key : String}

theorem read_same (hU : U.Lawful) {α : Type} {get : Json → Except Fault α} {old old' x y : α} (hc : Holds d key)
    (hx : U.readValue get d key old = .ok x) (hy : U.readValue get d key old' = .ok y) : x = y := by
  obtain ⟨v, hfind, hv⟩ := hc
  rw [hU.present get old hfind hv] at hx
  rw [hU.present get old' hfind hv, hx] at hy
  exact Except.ok.inj hy

theorem decimal_same (hU : U.Lawful) (hd : SixDigits d) {old x q : ℚ} (hc : Holds d key)
    (hx : U.readValue Json.getDouble d key old = .ok x) (hq : readDecimal U d key = .ok q) : x = q := by
  obtain ⟨v, hfind, hv⟩ := hc
  rw [hU.present Json.getDouble old hfind hv] at hx
  cases v with
  | num n =>
    have hround : toStringValue n.toRat = n.toRat := (toStringValue_eq_iff n.toRat).mpr (hd key n hfind)
    unfold readDecimal at hq
    rw [hfind] at hq
    simp only [hround] at hq
    exact (Except.ok.inj hx).symm.trans (Except.ok.inj hq)
  | _ => simp [Json.getDouble] at hx

theorem stamp_eq (hU : U.Exact) {n : Int} (h : U.readValue Json.getInt64 d key 0 = .ok n) : n = stamp d key := by
  cases hfind : d.find? key with
  | none =>
    rw [hU.absent Json.getInt64 0 hfind] at h
    simp [stamp, hfind, (Except.ok.inj h).symm]
  | some v =>
    by_cases hv : v = .null
    · subst hv
      rcases hU.null Json.getInt64 hfind with hskip | hget
      · rw [hskip 0] at h
        simp [stamp, hfind, (Except.ok.inj h).symm]
      · rw [hget 0] at h
        simp [Json.getInt64] at h
    · rw [hU.present Json.getInt64 0 hfind hv] at h
      cases v with
      | num m => simp [stamp, hfind, (Except.ok.inj h).symm]
      | _ => simp [Json.getInt64] at h

end

/-! ## Both decoders -/

section
variable {U : JsonUtils} {d : Json}

theorem response_wrapped (hU : U.Lawful) (d : Json) :
    Response.fromJson U {} (.obj [("data", d)]) = .ok { data := d } := by
  have hcode : U.readValue Json.getInt32 (.obj [("data", d)]) "code" (0 : Int) = .ok 0 := hU.absent _ _ rfl
  have hsuccess : U.readValue Json.getBool (.obj [("data", d)]) "success" false = .ok false := hU.absent _ _ rfl
  simp only [Response.fromJson, hcode, hsuccess]
  rfl

theorem ticker_ok_iff (hU : U.Lawful) : (∃ r, Ticker.fromJson U (.obj [("data", d)]) = .ok r) ↔
    Reads U Json.getString "symbol" "" d ∧ (∀ key ∈ Ticker.decimalKeys, ∃ q, readDecimal U d key = .ok q) ∧
      Reads U Json.getInt64 "timestamp" 0 d := by
  unfold Ticker.fromJson Ticker.decimalKeys Reads
  simp only [returns_bind_iff, response_wrapped hU]
  simp [pure, Except.pure, and_assoc]

theorem ticker_stamp {r : Ticker} (h : Ticker.fromJson U (.obj [("data", d)]) = .ok r) :
    U.readValue Json.getString d "symbol" "" = .ok r.symbol ∧
      U.readValue Json.getInt64 d "timestamp" 0 = .ok r.timestamp := by
  unfold Ticker.fromJson at h
  obtain ⟨response, hresponse, h⟩ := bind_ok h
  have hdata : response.data = d := response_data hresponse rfl
  rw [hdata] at h
  obtain ⟨symbol, hsymbol, h⟩ := bind_ok h
  obtain ⟨lastPrice, -, h⟩ := bind_ok h
  obtain ⟨bid1, -, h⟩ := bind_ok h
  obtain ⟨ask1, -, h⟩ := bind_ok h
  obtain ⟨volume24, -, h⟩ := bind_ok h
  obtain ⟨amount24, -, h⟩ := bind_ok h
  obtain ⟨holdVol, -, h⟩ := bind_ok h
  obtain ⟨timestamp, htimestamp, h⟩ := bind_ok h
  cases h
  exact ⟨hsymbol, htimestamp⟩

theorem returns_iff (hU : U.Lawful) :
    (∃ t r, EventTicker.fromJson U d {} = (.ok (), t) ∧ Ticker.fromJson U (.obj [("data", d)]) = .ok r) ↔ Readable U d := by
  constructor
  · rintro ⟨t, r, ht, hr⟩
    obtain ⟨-, hdecimals, hstamp⟩ := (ticker_ok_iff hU).mp ⟨r, hr⟩
    exact ⟨fun f hf => ⟨_, EventTicker.reads ht f hf⟩, hdecimals, hstamp⟩
  · intro h
    obtain ⟨t, ht⟩ := readFields_returns EventTicker.fields_apart h.event
    have hsymbol : Reads U Json.getString "symbol" "" d := h.event ⟨_, _, EventTicker.symbol, _⟩ List.mem_cons_self
    obtain ⟨r, hr⟩ := (ticker_ok_iff hU).mpr ⟨hsymbol, h.decimals, h.timestamp⟩
    exact ⟨t, r, ht, hr⟩

/-- What both decoders return differs in the time alone. -/
theorem agree_iff (hU : U.Exact) (hd : SixDigits d) {t : EventTicker} {r : Ticker}
    (ht : EventTicker.fromJson U d {} = (.ok (), t)) (hr : Ticker.fromJson U (.obj [("data", d)]) = .ok r) :
    Agree d t r ↔ SameStamp d := by
  have hreads := EventTicker.reads ht
  simp only [EventTicker.fields, List.forall_mem_cons] at hreads
  obtain ⟨hsymbol, hbid, hask, hvolume, hhold, -, -, -, -, -, -, -, hstamp, -⟩ := hreads
  obtain ⟨-, hbid', hask', hvolume', -, hhold'⟩ := ticker_reads hr rfl
  obtain ⟨hsymbol', hstamp'⟩ := ticker_stamp hr
  have hown : t.timestamp = stamp d "m_timestamp" := stamp_eq hU hstamp
  have hrest : r.timestamp = stamp d "timestamp" := stamp_eq hU hstamp'
  constructor
  · intro h hc
    rw [← hown, ← hrest]
    exact h.timestamp hc
  · intro h
    refine ⟨?_, ?_, ?_, ?_, ?_, ?_⟩
    · exact fun hc => read_same hU.toLawful hc hsymbol hsymbol'
    · exact fun hc => decimal_same hU.toLawful hd hc hbid hbid'
    · exact fun hc => decimal_same hU.toLawful hd hc hask hask'
    · exact fun hc => decimal_same hU.toLawful hd hc hvolume hvolume'
    · exact fun hc => decimal_same hU.toLawful hd hc hhold hhold'
    · intro hc
      rw [hown, hrest]
      exact h hc

end

theorem tickers_same_iff {U : JsonUtils} (hU : U.Exact) {d : Json} (hd : SixDigits d) :
    Same U d ↔ Readable U d ∧ SameStamp d := by
  constructor
  · rintro ⟨t, r, ht, hr, hagree⟩
    exact ⟨(returns_iff hU.toLawful).mp ⟨t, r, ht, hr⟩, (agree_iff hU hd ht hr).mp hagree⟩
  · rintro ⟨hreadable, hstamp⟩
    obtain ⟨t, r, ht, hr⟩ := (returns_iff hU.toLawful).mpr hreadable
    exact ⟨t, r, ht, hr, (agree_iff hU hd ht hr).mpr hstamp⟩

def quote : Json := .obj [("bid1", .num (.float (68655 / 10000))), ("symbol", .str "LINK_USDT")]

theorem quote_sixDigits : SixDigits quote := by
  intro key n h
  simp only [quote, Json.find?, List.lookup_cons, List.lookup_nil] at h
  split at h
  · cases h
    exact ⟨6865500, by norm_num [Number.toRat]⟩
  · split at h <;> cases h

theorem quote_readable : Readable .plain quote where
  event := by
    simp only [EventTicker.fields, List.forall_mem_cons]
    exact ⟨⟨_, rfl⟩, ⟨_, rfl⟩, ⟨_, rfl⟩, ⟨_, rfl⟩, ⟨_, rfl⟩, ⟨_, rfl⟩, ⟨_, rfl⟩, ⟨_, rfl⟩, ⟨_, rfl⟩, ⟨_, rfl⟩, ⟨_, rfl⟩,
      ⟨_, rfl⟩, ⟨_, rfl⟩, List.forall_mem_nil _⟩
  decimals := by
    simp only [Ticker.decimalKeys, List.forall_mem_cons]
    exact ⟨⟨_, rfl⟩, ⟨_, rfl⟩, ⟨_, rfl⟩, ⟨_, rfl⟩, ⟨_, rfl⟩, ⟨_, rfl⟩, List.forall_mem_nil _⟩
  timestamp := ⟨_, rfl⟩

theorem quote_stamp : SameStamp quote := by
  rintro ⟨v, h, -⟩
  cases h

theorem quote_same : Same .plain quote :=
  (tickers_same_iff JsonUtils.plain_exact quote_sixDigits).mpr ⟨quote_readable, quote_stamp⟩

def timedQuote : Json := .obj [("symbol", .str "LINK_USDT"), ("timestamp", .num (.int 1587442022003))]

theorem timedQuote_sixDigits : SixDigits timedQuote := by
  intro key n h
  simp only [timedQuote, Json.find?, List.lookup_cons, List.lookup_nil] at h
  split at h
  · cases h
  · split at h
    · cases h
      exact ⟨1587442022003000000, by norm_num [Number.toRat]⟩
    · cases h

/-- The event decoder leaves the time at its default. -/
theorem time_dropped : SixDigits timedQuote ∧ ¬ Same .plain timedQuote ∧
    (EventTicker.fromJson .plain timedQuote {}).1 = .ok () ∧
    (EventTicker.fromJson .plain timedQuote {}).2.timestamp = 0 ∧
    ∃ r, Ticker.fromJson .plain (.obj [("data", timedQuote)]) = .ok r ∧ r.timestamp = 1587442022003 := by
  refine ⟨timedQuote_sixDigits, ?_, rfl, rfl, _, rfl, rfl⟩
  rintro ⟨t, r, ht, hr, hagree⟩
  have htime := hagree.timestamp ⟨_, rfl, nofun⟩
  cases ht
  cases hr
  exact absurd htime (by decide)

end Futures

end MexcApi
