import Mathlib.Data.List.Forall2
import MexcApi.DecimalFieldsSound
import MexcApi.Replies

/-!
# Records as the exchange reports them

An object reports a record when it has each of its members, in any order and
among any others. A decimal comes as a text, or as a number which has no more
than the six fractional digits that `std::to_string` keeps. What is reported is
what the decoders read.
-/

namespace MexcApi

open Nlohmann

inductive Member where
  | integer (n : Int)
  | flag (b : Bool)
  | string (s : String)
  | strings (ss : List String)
  | number (q : ℚ)
  | decimalText (q : ℚ)
  | decimal (q : ℚ)

def Member.In : Member → Json → Prop
  | integer n, v => v = .num (.int n)
  | flag b, v => v = .bool b
  | string s, v => v = .str s
  | strings ss, v => v = .arr (ss.map .str)
  | number q, v => ∃ n : Number, v = .num n ∧ n.toRat = q
  | decimalText q, v => ∃ d : DecimalText, v = .str d.text ∧ d.value = q
  | decimal q, v => (∃ d : DecimalText, v = .str d.text ∧ d.value = q) ∨
      ∃ n : Number, v = .num n ∧ n.toRat = q ∧ ∃ m : Int, q * 1000000 = m

def Reports (members : List (String × Member)) (json : Json) : Prop :=
  ∀ m ∈ members, ∃ v, json.find? m.1 = some v ∧ m.2.In v

def ReportsAll {α : Type} (members : α → List (String × Member)) (records : List α) (json : Json) : Prop :=
  ∃ items, json = .arr items ∧ List.Forall₂ (fun record item => Reports (members record) item) records items

/-! ## The reads -/

namespace Reports

variable {U : JsonUtils} {members : List (String × Member)} {json : Json} {key : String}

theorem int64 (hU : U.Lawful) (h : Reports members json) {n : Int} (hm : (key, .integer n) ∈ members) (old : Int) :
    U.readValue Json.getInt64 json key old = .ok n := by
  obtain ⟨v, hfind, rfl⟩ := h _ hm
  exact hU.present _ old hfind nofun

theorem int32 (hU : U.Lawful) (h : Reports members json) {n : Int} (hm : (key, .integer n) ∈ members) (old : Int) :
    U.readValue Json.getInt32 json key old = .ok n := by
  obtain ⟨v, hfind, rfl⟩ := h _ hm
  exact hU.present _ old hfind nofun

theorem bool (hU : U.Lawful) (h : Reports members json) {b : Bool} (hm : (key, .flag b) ∈ members) (old : Bool) :
    U.readValue Json.getBool json key old = .ok b := by
  obtain ⟨v, hfind, rfl⟩ := h _ hm
  exact hU.present _ old hfind nofun

theorem string (hU : U.Lawful) (h : Reports members json) {s : String} (hm : (key, .string s) ∈ members) (old : String) :
    U.readValue Json.getString json key old = .ok s := by
  obtain ⟨v, hfind, rfl⟩ := h _ hm
  exact hU.present _ old hfind nofun

theorem double (hU : U.Lawful) (h : Reports members json) {q : ℚ} (hm : (key, .number q) ∈ members) (old : ℚ) :
    U.readValue Json.getDouble json key old = .ok q := by
  obtain ⟨v, hfind, n, rfl, rfl⟩ := h _ hm
  exact hU.present _ old hfind nofun

theorem decimalText (hD : U.ReadsDecimals) (h : Reports members json) {q : ℚ} (hm : (key, .decimalText q) ∈ members) :
    U.readDecimalValue json key = .ok q := by
  obtain ⟨v, hfind, d, rfl, rfl⟩ := h _ hm
  exact hD d json key hfind

theorem decimal (hD : U.ReadsDecimals) (h : Reports members json) {q : ℚ} (hm : (key, .decimal q) ∈ members) :
    Futures.readDecimal U json key = .ok q := by
  obtain ⟨v, hfind, hv⟩ := h _ hm
  unfold Futures.readDecimal
  rcases hv with ⟨d, rfl, rfl⟩ | ⟨n, rfl, rfl, hdigits⟩
  · rw [hfind]
    exact hD d json key hfind
  · rw [hfind]
    exact congrArg Except.ok ((Futures.toStringValue_eq_iff n.toRat).mpr hdigits)

end Reports

/-- A list of records is read one by one, as far as `g` looks at what is read. -/
theorem mapM_forall₂ {α β γ : Type} {R : α → Json → Prop} {f : Json → Except Fault β} {g : β → γ} {k : α → γ}
    (hf : ∀ a json, R a json → ∃ b, f json = .ok b ∧ g b = k a) {as : List α} {items : List Json}
    (h : List.Forall₂ R as items) : ∃ bs, items.mapM f = .ok bs ∧ bs.map g = as.map k := by
  induction h with
  | nil => exact ⟨[], rfl, rfl⟩
  | @cons a json as items ha _ ih =>
    obtain ⟨b, hb, hgb⟩ := hf a json ha
    obtain ⟨bs, hbs, hgbs⟩ := ih
    refine ⟨b :: bs, ?_, ?_⟩
    · rw [List.mapM_cons, hb, hbs]
      rfl
    · rw [List.map_cons, List.map_cons, hgb, hgbs]

namespace Futures

variable {U : JsonUtils} {json data : Json}

/-! ## Records in `data` -/

def ContractFundingRate.members (r : ContractFundingRate) : List (String × Member) := [
  ("symbol", .string r.symbol), ("fundingRate", .decimal r.fundingRate), ("maxFundingRate", .decimal r.maxFundingRate),
  ("minFundingRate", .decimal r.minFundingRate), ("collectCycle", .integer r.collectCycle),
  ("nextSettleTime", .integer r.nextSettleTime), ("timestamp", .integer r.timestamp)]

theorem fundingRate_reported (hU : U.Lawful) (hD : U.ReadsDecimals) {response : Response} {r : ContractFundingRate}
    (hresponse : Response.fromJson U {} json = .ok response) (h : Reports r.members response.data) :
    ContractFundingRate.fromJson U json = .ok { r with toResponse := response } := by
  unfold ContractFundingRate.fromJson
  rw [hresponse, ok_bind]
  dsimp only
  rw [h.string hU (s := r.symbol) (by simp [ContractFundingRate.members]),
    h.decimal hD (q := r.fundingRate) (by simp [ContractFundingRate.members]),
    h.decimal hD (q := r.maxFundingRate) (by simp [ContractFundingRate.members]),
    h.decimal hD (q := r.minFundingRate) (by simp [ContractFundingRate.members]),
    h.int32 hU (n := r.collectCycle) (by simp [ContractFundingRate.members]),
    h.int64 hU (n := r.nextSettleTime) (by simp [ContractFundingRate.members]),
    h.int64 hU (n := r.timestamp) (by simp [ContractFundingRate.members])]
  rfl

def Ticker.members (t : Ticker) : List (String × Member) := [
  ("symbol", .string t.symbol), ("lastPrice", .decimal t.lastPrice), ("bid1", .decimal t.bid1),
  ("ask1", .decimal t.ask1), ("volume24", .decimal t.volume24), ("amount24", .decimal t.amount24),
  ("holdVol", .decimal t.holdVol), ("timestamp", .integer t.timestamp)]

theorem ticker_reported (hU : U.Lawful) (hD : U.ReadsDecimals) {response : Response} {t : Ticker}
    (hresponse : Response.fromJson U {} json = .ok response) (h : Reports t.members response.data) :
    Ticker.fromJson U json = .ok { t with toResponse := response } := by
  unfold Ticker.fromJson
  rw [hresponse, ok_bind]
  dsimp only
  rw [h.string hU (s := t.symbol) (by simp [Ticker.members]),
    h.decimal hD (q := t.lastPrice) (by simp [Ticker.members]), h.decimal hD (q := t.bid1) (by simp [Ticker.members]),
    h.decimal hD (q := t.ask1) (by simp [Ticker.members]), h.decimal hD (q := t.volume24) (by simp [Ticker.members]),
    h.decimal hD (q := t.amount24) (by simp [Ticker.members]), h.decimal hD (q := t.holdVol) (by simp [Ticker.members]),
    h.int64 hU (n := t.timestamp) (by simp [Ticker.members])]
  rfl

/-- The balances are read as texts only. -/
def WalletBalance.members (wb : WalletBalance) : List (String × Member) := [
  ("currency", .string wb.currency), ("positionMargin", .decimalText wb.positionMargin),
  ("availableBalance", .decimalText wb.availableBalance), ("cashBalance", .decimalText wb.cashBalance),
  ("frozenBalance", .decimalText wb.frozenBalance), ("equity", .decimalText wb.equity),
  ("unrealized", .decimalText wb.unrealized), ("bonus", .decimalText wb.bonus)]

theorem walletBalance_reported (hU : U.Lawful) (hD : U.ReadsDecimals) {response : Response} {wb : WalletBalance}
    (hresponse : Response.fromJson U {} json = .ok response) (h : Reports wb.members response.data) :
    WalletBalance.fromJson U json = .ok { wb with toResponse := response } := by
  unfold WalletBalance.fromJson
  rw [hresponse, ok_bind]
  dsimp only
  rw [h.string hU (s := wb.currency) (by simp [WalletBalance.members]),
    h.decimalText hD (q := wb.positionMargin) (by simp [WalletBalance.members]),
    h.decimalText hD (q := wb.availableBalance) (by simp [WalletBalance.members]),
    h.decimalText hD (q := wb.cashBalance) (by simp [WalletBalance.members]),
    h.decimalText hD (q := wb.frozenBalance) (by simp [WalletBalance.members]),
    h.decimalText hD (q := wb.equity) (by simp [WalletBalance.members]),
    h.decimalText hD (q := wb.unrealized) (by simp [WalletBalance.members]),
    h.decimalText hD (q := wb.bonus) (by simp [WalletBalance.members])]
  rfl

/-! ## Records of a list -/

def OpenPosition.members (p : OpenPosition) : List (String × Member) := [
  ("positionId", .integer p.positionId), ("symbol", .string p.symbol), ("positionType", .integer p.positionType),
  ("openType", .integer p.openType), ("state", .integer p.state), ("holdVol", .decimal p.holdVol),
  ("frozenVol", .decimal p.frozenVol), ("holdAvgPrice", .decimal p.holdAvgPrice),
  ("openAvgPrice", .decimal p.openAvgPrice), ("liquidatePrice", .decimal p.liquidatePrice), ("oim", .decimal p.oim),
  ("im", .decimal p.im), ("holdFee", .decimal p.holdFee), ("realised", .decimal p.realised),
  ("leverage", .integer p.leverage), ("createTime", .integer p.createTime), ("updateTime", .integer p.updateTime)]

theorem openPosition_reported (hU : U.Lawful) (hD : U.ReadsDecimals) {p : OpenPosition} (h : Reports p.members json) :
    OpenPosition.fromJson U json = .ok p := by
  unfold OpenPosition.fromJson
  rw [h.int64 hU (n := p.positionId) (by simp [OpenPosition.members]),
    h.string hU (s := p.symbol) (by simp [OpenPosition.members]),
    h.int32 hU (n := p.positionType) (by simp [OpenPosition.members]),
    h.int32 hU (n := p.openType) (by simp [OpenPosition.members]),
    h.int32 hU (n := p.state) (by simp [OpenPosition.members]),
    h.decimal hD (q := p.holdVol) (by simp [OpenPosition.members]),
    h.decimal hD (q := p.frozenVol) (by simp [OpenPosition.members]),
    h.decimal hD (q := p.holdAvgPrice) (by simp [OpenPosition.members]),
    h.decimal hD (q := p.openAvgPrice) (by simp [OpenPosition.members]),
    h.decimal hD (q := p.liquidatePrice) (by simp [OpenPosition.members]),
    h.decimal hD (q := p.oim) (by simp [OpenPosition.members]), h.decimal hD (q := p.im) (by simp [OpenPosition.members]),
    h.decimal hD (q := p.holdFee) (by simp [OpenPosition.members]),
    h.decimal hD (q := p.realised) (by simp [OpenPosition.members]),
    h.int32 hU (n := p.leverage) (by simp [OpenPosition.members]),
    h.int64 hU (n := p.createTime) (by simp [OpenPosition.members]),
    h.int64 hU (n := p.updateTime) (by simp [OpenPosition.members])]
  rfl

def ContractDetail.members (d : ContractDetail) : List (String × Member) := [
  ("symbol", .string d.symbol), ("displayNameEn", .string d.displayNameEn), ("baseCoin", .string d.baseCoin),
  ("quoteCoin", .string d.quoteCoin), ("settleCoin", .string d.settleCoin), ("apiAllowed", .flag d.apiAllowed),
  ("automaticDelivery", .integer d.automaticDelivery), ("contractSize", .number d.contractSize),
  ("minVol", .integer d.minVol), ("maxVol", .integer d.maxVol), ("volUnit", .integer d.volUnit),
  ("priceUnit", .integer d.priceUnit), ("pricePrecision", .integer d.pricePrecision),
  ("volPrecision", .integer d.volPrecision), ("state", .integer d.state), ("conceptPlate", .strings d.conceptPlate)]

theorem contractDetail_reported (hU : U.Lawful) {d : ContractDetail} (h : Reports d.members json) :
    ContractDetail.fromJson U json = .ok d := by
  obtain ⟨state, hstate, rfl⟩ := h ("state", .integer d.state) (by simp [ContractDetail.members])
  obtain ⟨plate, hplate, rfl⟩ := h ("conceptPlate", .strings d.conceptPlate) (by simp [ContractDetail.members])
  unfold ContractDetail.fromJson
  rw [h.string hU (s := d.symbol) (by simp [ContractDetail.members]),
    h.string hU (s := d.displayNameEn) (by simp [ContractDetail.members]),
    h.string hU (s := d.baseCoin) (by simp [ContractDetail.members]),
    h.string hU (s := d.quoteCoin) (by simp [ContractDetail.members]),
    h.string hU (s := d.settleCoin) (by simp [ContractDetail.members]),
    h.bool hU (b := d.apiAllowed) (by simp [ContractDetail.members]),
    h.int32 hU (n := d.automaticDelivery) (by simp [ContractDetail.members]),
    h.double hU (q := d.contractSize) (by simp [ContractDetail.members]),
    h.int32 hU (n := d.minVol) (by simp [ContractDetail.members]),
    h.int32 hU (n := d.maxVol) (by simp [ContractDetail.members]),
    h.int32 hU (n := d.volUnit) (by simp [ContractDetail.members]),
    h.int32 hU (n := d.priceUnit) (by simp [ContractDetail.members]),
    h.int32 hU (n := d.pricePrecision) (by simp [ContractDetail.members]),
    h.int32 hU (n := d.volPrecision) (by simp [ContractDetail.members]), hstate, hplate]
  simp only [Option.getD_some, arrayItems, List.filterMap_map]
  change Except.ok { d with conceptPlate := d.conceptPlate.filterMap some } = Except.ok d
  rw [List.filterMap_some]

end Futures

end MexcApi
