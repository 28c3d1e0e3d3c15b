import MexcApi.Trace
import MexcApi.WsStrandSound
import MexcApi.WsWire

/-!
# When operations of the stream overlap

From the resolve on, one operation of the setup, one read or one write is
under way, or a read is being handled; a failure ends the chain. Closes and
pings are started beside it, without asking whether another one is still
outstanding.
-/

namespace MexcApi

open Nlohmann

namespace Futures

/-- A session; `isOpen` once the handshake is done, `failed` once an operation
of the chain has failed. -/
structure Stream where
  session : Session
  isOpen : Bool := false
  failed : Bool := false
  /-- There was an access to a missing key; of such a run nothing is known. -/
  undefined : Bool := false

namespace Stream

def fails : Session.Event → Bool
  | .resolved ok | .connected ok | .sslHandshaken ok | .handshaken ok | .written ok => !ok
  | .read .error => true
  | _ => false

def opens : Session.Event → Bool
  | .handshaken ok => ok
  | _ => false

def step (U : JsonUtils) (c : Stream) (e : Session.Event) : Option Stream :=
  (c.session.step e).map fun s' => {
    session := s'
    isOpen := c.isOpen || opens e
    failed := c.failed || fails e
    undefined := c.undefined || c.session.unchecked U e }

def start (subscriptionRequest : Json) : Stream := { session := .start subscriptionRequest }

end Stream

namespace Session

/-- Reads and writes that are outstanding; a read is while it is handled. -/
def transfers (s : Session) : Nat := s.read + s.write + if s.phase = .idle then 0 else 1

/-- The steps that call `async_close`. -/
def StartsClose (s : Session) : Event → Prop
  | .close => True
  | .read (.text json) => ¬ Readable json
  | .readAgain => s.subscriptions = []
  | _ => False

def StartsPing : Event → Prop
  | .timer isOpen => isOpen = true
  | _ => False

end Session

namespace Stream

structure NoOverlap (c : Stream) : Prop where
  known : c.undefined = false
  read : c.session.read ≤ 1
  write : c.session.write ≤ 1
  close : c.session.close ≤ 1
  ping : c.session.ping ≤ 1
  transfers : c.isOpen = true → c.session.closing = false → c.failed = false → c.session.transfers = 1

/-- A close is started while none is outstanding, a ping likewise, and no missing
key is accessed. -/
structure Alone (U : JsonUtils) (c : Stream) (e : Session.Event) : Prop where
  close : c.session.StartsClose e → c.session.close = 0
  ping : Session.StartsPing e → c.session.ping = 0
  checked : c.session.unchecked U e = false

end Stream

/-! ## The chain of operations -/

namespace Session

/-- What of the chain is under way: the setup, a read or a write. -/
def chain (s : Session) : Nat := s.setup + s.transfers

theorem transfers_idle {s : Session} (h : s.phase = .idle) : s.transfers = s.read + s.write := by
  simp [transfers, h]

theorem transfers_busy {s : Session} (h : s.phase ≠ .idle) : s.transfers = s.read + s.write + 1 := by
  simp [transfers, h]

theorem chain_written {s : Session} (ok : Bool) (hen : s.Enabled (.written ok)) :
    (s.next (.written ok)).chain + (if ok then 0 else 1) = s.chain := by
  obtain ⟨hp, hw⟩ := hen
  cases ok with
  | false =>
    show s.setup + (s.read + (s.write - 1) + if s.phase = .idle then 0 else 1) + 1 = s.setup + s.transfers
    rw [if_pos hp, transfers_idle hp]; omega
  | true =>
    show s.setup + (s.read + 1 + (s.write - 1) + if s.phase = .idle then 0 else 1) + 0 = s.setup + s.transfers
    rw [if_pos hp, transfers_idle hp]; omega

theorem chain_handshaken {s : Session} (ok : Bool) (hen : s.Enabled (.handshaken ok)) :
    (s.next (.handshaken ok)).chain + (if ok then 0 else 1) = s.chain := by
  obtain ⟨hp, hpos⟩ := hen
  have hsetup := handshaken_setup ok hpos
  unfold chain
  cases ok with
  | false =>
    have htransfers : (s.next (.handshaken false)).transfers = s.transfers := rfl
    rw [htransfers]
    simp only [Bool.false_eq_true, ite_false]; omega
  | true =>
    obtain ⟨queue, r, heq⟩ := readSubscription_fields { s with handshake := s.handshake - 1, waiting := s.waiting + 1 }
    have hp' : (s.next (.handshaken true)).phase = .idle := by
      simp only [next, onHandshake, ite_true, asyncWrite, heq]
      exact hp
    have htransfers : (s.next (.handshaken true)).transfers = s.transfers + 1 := by
      rw [transfers_idle hp', transfers_idle hp]
      simp only [next, onHandshake, ite_true, asyncWrite, heq]
      omega
    rw [htransfers]
    simp only [ite_true]; omega

theorem chain_message {s : Session} (json : Option Json) (hen : s.Enabled (.read (.text json))) :
    (s.next (.read (.text json))).chain ≤ s.chain ∧
      ((s.next (.read (.text json))).closing = false → (s.next (.read (.text json))).chain = s.chain) := by
  obtain ⟨hp, hr⟩ := hen
  simp only [next, onRead]
  cases hm : { s with read := s.read - 1 }.handleMessage json with
  | error e =>
    refine ⟨?_, fun hc => by cases hc⟩
    show s.setup + (s.read - 1 + s.write + if s.phase = .idle then 0 else 1) ≤ s.setup + s.transfers
    rw [if_pos hp, transfers_idle hp]; omega
  | ok s' =>
    obtain ⟨subs, r, rfl⟩ := handleMessage_fields hm
    have heq : s.setup + (s.read - 1 + s.write + 1) = s.chain := by
      unfold chain
      rw [transfers_idle hp]; omega
    exact ⟨Nat.le_of_eq heq, fun _ => heq⟩

theorem chain_busy {s : Session} (h : s.phase ≠ .idle) : s.chain = s.setup + (s.read + s.write + 1) := by
  unfold chain
  rw [transfers_busy h]

theorem chain_readNext {s : Session} (hen : s.Enabled .readNext) : (s.next .readNext).chain = s.chain := by
  have hp : s.phase = .handled := hen
  have hbusy : s.phase ≠ .idle := by
    rw [hp]
    decide
  rw [chain_busy hbusy]
  simp only [next, onReadNext]
  cases hq : s.subscriptionRequests with
  | nil =>
    simp only [readSubscription, hq]
    rfl
  | cons r queue =>
    simp only [readSubscription, hq]
    show s.setup + (s.read + (s.write + 1) + 0) = _
    omega

theorem chain_readAgain {s : Session} (hen : s.Enabled .readAgain) : (s.next .readAgain).chain = s.chain := by
  have hp : s.phase = .drained := hen
  have hbusy : s.phase ≠ .idle := by
    rw [hp]
    decide
  rw [chain_busy hbusy]
  simp only [next, onReadAgain]
  split
  · show s.setup + (s.read + 1 + s.write + 0) = _
    omega
  · show s.setup + (s.read + 1 + s.write + 0) = _
    omega

theorem chain_next {s : Session} {e : Event} (hen : s.Enabled e) : (s.next e).chain ≤ s.chain ∧
    (Stream.fails e = false → (s.next e).closing = false → (s.next e).chain = s.chain) := by
  cases e with
  | subscribe r =>
    obtain ⟨queue, accepted, heq⟩ := s.subscribe_fields r
    rw [heq]
    exact ⟨Nat.le_refl _, fun _ _ => rfl⟩
  | resolved ok =>
    have hpos := hen.2
    cases ok with
    | false => exact ⟨Nat.add_le_add_right (setup_next hen) _, nofun⟩
    | true =>
      have heq : (s.next (.resolved true)).chain = s.chain := by
        show s.resolve - 1 + (s.connect + 1) + s.sslHandshake + s.handshake + s.transfers = s.setup + s.transfers
        unfold setup; omega
      exact ⟨Nat.le_of_eq heq, fun _ _ => heq⟩
  | connected ok =>
    have hpos := hen.2
    cases ok with
    | false => exact ⟨Nat.add_le_add_right (setup_next hen) _, nofun⟩
    | true =>
      have heq : (s.next (.connected true)).chain = s.chain := by
        show s.resolve + (s.connect - 1) + (s.sslHandshake + 1) + s.handshake + s.transfers = s.setup + s.transfers
        unfold setup; omega
      exact ⟨Nat.le_of_eq heq, fun _ _ => heq⟩
  | sslHandshaken ok =>
    have hpos := hen.2
    cases ok with
    | false => exact ⟨Nat.add_le_add_right (setup_next hen) _, nofun⟩
    | true =>
      have heq : (s.next (.sslHandshaken true)).chain = s.chain := by
        show s.resolve + s.connect + (s.sslHandshake - 1) + (s.handshake + 1) + s.transfers = s.setup + s.transfers
        unfold setup; omega
      exact ⟨Nat.le_of_eq heq, fun _ _ => heq⟩
  | handshaken ok =>
    have heq := chain_handshaken ok hen
    cases ok with
    | false => exact ⟨by omega, nofun⟩
    | true => exact ⟨Nat.le_of_eq heq, fun _ _ => heq⟩
  | written ok =>
    have heq := chain_written ok hen
    cases ok with
    | false => exact ⟨by omega, nofun⟩
    | true => exact ⟨Nat.le_of_eq heq, fun _ _ => heq⟩
  | read result =>
    cases result with
    | error =>
      obtain ⟨hp, hr⟩ := hen
      refine ⟨?_, nofun⟩
      show s.setup + (s.read - 1 + s.write + if s.phase = .idle then 0 else 1) ≤ s.setup + s.transfers
      rw [if_pos hp, transfers_idle hp]; omega
    | text json =>
      obtain ⟨hle, heq⟩ := chain_message json hen
      exact ⟨hle, fun _ => heq⟩
  | readNext => exact ⟨Nat.le_of_eq (chain_readNext hen), fun _ _ => chain_readNext hen⟩
  | readAgain => exact ⟨Nat.le_of_eq (chain_readAgain hen), fun _ _ => chain_readAgain hen⟩
  | close | closed | pinged | timerExpires | timer isOpen | timerCancelled => exact ⟨Nat.le_refl _, fun _ _ => rfl⟩

/-! ## Closes and pings -/

/-- The operations beside the chain. -/
structure Beside where
  close : Nat
  ping : Nat
  closing : Bool

def beside (s : Session) : Beside := { close := s.close, ping := s.ping, closing := s.closing }

/-- What one event does to them. -/
inductive Turn (s : Session) (e : Event) : Beside → Prop
  | keep (hclose : ¬ s.StartsClose e) (hping : ¬ StartsPing e) : Turn s e s.beside
  | close (hclose : s.StartsClose e) (hping : ¬ StartsPing e) :
    Turn s e { close := s.close + 1, ping := s.ping, closing := true }
  | closed (hclose : ¬ s.StartsClose e) (hping : ¬ StartsPing e) :
    Turn s e { close := s.close - 1, ping := s.ping, closing := s.closing }
  | ping (hclose : ¬ s.StartsClose e) (hping : StartsPing e) :
    Turn s e { close := s.close, ping := s.ping + 1, closing := s.closing }
  | pinged (hclose : ¬ s.StartsClose e) (hping : ¬ StartsPing e) :
    Turn s e { close := s.close, ping := s.ping - 1, closing := s.closing }

theorem message_turn (s : Session) (json : Option Json) :
    s.Turn (.read (.text json)) (s.next (.read (.text json))).beside := by
  simp only [next, onRead]
  cases hm : { s with read := s.read - 1 }.handleMessage json with
  | error e =>
    have hunread : ¬ Readable json := by
      rw [← handleMessage_ok_iff { s with read := s.read - 1 } json, hm]
      rintro ⟨s', h⟩
      cases h
    exact .close hunread (fun h => h)
  | ok s' =>
    have hread : Readable json := (handleMessage_ok_iff _ json).mp ⟨s', hm⟩
    obtain ⟨subs, r, rfl⟩ := handleMessage_fields hm
    exact .keep (not_not.mpr hread) (fun h => h)

theorem next_turn (s : Session) (e : Event) : s.Turn e (s.next e).beside := by
  cases e with
  | subscribe r =>
    obtain ⟨queue, accepted, heq⟩ := s.subscribe_fields r
    rw [heq]
    exact .keep (fun h => h) (fun h => h)
  | close => exact .close trivial (fun h => h)
  | resolved ok | connected ok | sslHandshaken ok | written ok => cases ok <;> exact .keep (fun h => h) (fun h => h)
  | handshaken ok =>
    cases ok with
    | false => exact .keep (fun h => h) (fun h => h)
    | true =>
      obtain ⟨queue, r, heq⟩ := readSubscription_fields { s with handshake := s.handshake - 1, waiting := s.waiting + 1 }
      simp only [next, onHandshake, ite_true, asyncWrite, heq]
      exact .keep (fun h => h) (fun h => h)
  | read result =>
    cases result with
    | error => exact .keep (fun h => h) (fun h => h)
    | text json => exact s.message_turn json
  | readNext =>
    simp only [next, onReadNext, readSubscription]
    cases s.subscriptionRequests <;> exact .keep (fun h => h) (fun h => h)
  | readAgain =>
    simp only [next, onReadAgain]
    by_cases hsubs : s.subscriptions = []
    · simp only [hsubs, List.isEmpty_nil, ite_true]
      exact .close hsubs (fun h => h)
    · have hf : s.subscriptions.isEmpty = false := by simpa using hsubs
      simp only [hf, Bool.false_eq_true, ite_false]
      exact .keep hsubs (fun h => h)
  | closed => exact .closed (fun h => h) (fun h => h)
  | pinged => exact .pinged (fun h => h) (fun h => h)
  | timer isOpen =>
    cases isOpen with
    | true => exact .ping (fun h => h) rfl
    | false => exact .keep (fun h => h) (fun h => by cases h)
  | timerExpires | timerCancelled => exact .keep (fun h => h) (fun h => h)

section
variable {s : Session} {e : Event} {b : Beside}

theorem Turn.close_starts (h : s.Turn e b) (hst : s.StartsClose e) : b.close = s.close + 1 := by
  cases h with
  | close => rfl
  | keep hclose | closed hclose | ping hclose | pinged hclose => exact absurd hst hclose

theorem Turn.close_le (h : s.Turn e b) (hst : ¬ s.StartsClose e) : b.close ≤ s.close := by
  cases h with
  | close hclose => exact absurd hclose hst
  | closed => exact Nat.sub_le _ _
  | keep | ping | pinged => exact Nat.le_refl _

theorem Turn.ping_starts (h : s.Turn e b) (hst : StartsPing e) : b.ping = s.ping + 1 := by
  cases h with
  | ping => rfl
  | keep _ hping | close _ hping | closed _ hping | pinged _ hping => exact absurd hst hping

theorem Turn.ping_le (h : s.Turn e b) (hst : ¬ StartsPing e) : b.ping ≤ s.ping := by
  cases h with
  | ping _ hping => exact absurd hping hst
  | pinged => exact Nat.sub_le _ _
  | keep | close | closed => exact Nat.le_refl _

theorem Turn.closing (h : s.Turn e b) (hb : b.closing = false) : s.closing = false := by
  cases h with
  | close => cases hb
  | keep | closed | ping | pinged => exact hb

end

end Session

/-! ## Runs -/

namespace Stream

section
variable {U : JsonUtils}

theorem step_some {c c' : Stream} {e : Session.Event} (h : c.step U e = some c') : c.session.Enabled e ∧ c' = {
    session := c.session.next e
    isOpen := c.isOpen || opens e
    failed := c.failed || fails e
    undefined := c.undefined || c.session.unchecked U e } := by
  obtain ⟨s', hs, rfl⟩ := Option.map_eq_some_iff.mp h
  obtain ⟨-, hen, rfl⟩ := Session.step_some hs
  exact ⟨hen, rfl⟩

structure Inv (c : Stream) : Prop where
  known : c.undefined = false
  chain : c.session.chain ≤ 1
  setup : c.isOpen = true → c.session.setup = 0
  intact : c.session.closing = false → c.failed = false → c.session.chain = 1
  close : c.session.close ≤ 1
  ping : c.session.ping ≤ 1

theorem noOverlap_of_inv {c : Stream} (h : c.Inv) : c.NoOverlap := by
  have hle : c.session.read + c.session.write ≤ 1 :=
    calc c.session.read + c.session.write ≤ c.session.transfers := Nat.le_add_right _ _
      _ ≤ c.session.chain := Nat.le_add_left _ _
      _ ≤ 1 := h.chain
  refine ⟨h.known, by omega, by omega, h.close, h.ping, fun hopen hclosing hfailed => ?_⟩
  have hchain := h.intact hclosing hfailed
  rw [Session.chain, h.setup hopen, Nat.zero_add] at hchain
  exact hchain

theorem inv_start (r : Json) : (start r).Inv where
  known := rfl
  chain := Nat.le_refl 1
  setup := nofun
  intact := fun _ _ => rfl
  close := Nat.zero_le 1
  ping := Nat.zero_le 1

theorem inv_step (c : Stream) (e : Session.Event) (c' : Stream) (h : c.Inv) (hok : c.Alone U e)
    (hs : c.step U e = some c') : c'.Inv := by
  obtain ⟨hen, rfl⟩ := step_some hs
  obtain ⟨hknown, hchain, hsetup, hintact, hclose, hping⟩ := h
  obtain ⟨hle, heq⟩ := Session.chain_next hen
  refine ⟨Bool.or_eq_false_iff.mpr ⟨hknown, hok.checked⟩, Nat.le_trans hle hchain, fun hopen => ?_,
    fun hclosing hfailed => ?_, ?_, ?_⟩
  · rcases Bool.or_eq_true_iff.mp hopen with hopen | hopen
    · exact Nat.le_zero.mp (hsetup hopen ▸ Session.setup_next hen)
    · cases e with
      | handshaken ok =>
        have hlast := Session.handshaken_setup ok hen.2
        have hone : c.session.setup ≤ 1 := Nat.le_trans (Nat.le_add_right _ _) hchain
        show (c.session.next (.handshaken ok)).setup = 0
        omega
      | _ => cases hopen
  · obtain ⟨hf, hfe⟩ := Bool.or_eq_false_iff.mp hfailed
    rw [heq hfe hclosing]
    exact hintact ((c.session.next_turn e).closing hclosing) hf
  · by_cases hst : c.session.StartsClose e
    · have hone := (c.session.next_turn e).close_starts hst
      rw [hok.close hst] at hone
      exact Nat.le_of_eq hone
    · exact Nat.le_trans ((c.session.next_turn e).close_le hst) hclose
  · by_cases hst : Session.StartsPing e
    · have hone := (c.session.next_turn e).ping_starts hst
      rw [hok.ping hst] at hone
      exact Nat.le_of_eq hone
    · exact Nat.le_trans ((c.session.next_turn e).ping_le hst) hping

theorem overlaps (c : Stream) (e : Session.Event) (c' : Stream) (hok : ¬ c.Alone U e) (hs : c.step U e = some c') :
    ¬ c'.NoOverlap := by
  obtain ⟨-, rfl⟩ := step_some hs
  intro h
  apply hok
  refine ⟨?_, ?_, (Bool.or_eq_false_iff.mp h.known).2⟩
  · intro hst
    have hle : (c.session.next e).beside.close ≤ 1 := h.close
    rw [(c.session.next_turn e).close_starts hst] at hle
    exact Nat.le_zero.mp (Nat.le_of_succ_le_succ hle)
  · intro hst
    have hle : (c.session.next e).beside.ping ≤ 1 := h.ping
    rw [(c.session.next_turn e).ping_starts hst] at hle
    exact Nat.le_zero.mp (Nat.le_of_succ_le_succ hle)

end

theorem noOverlap_iff_alone (U : JsonUtils) (r : Json) (es : List Session.Event) :
    Trace.Always (step U) NoOverlap (start r) es ↔ Trace.Guarded (step U) (Alone U) (start r) es :=
  Trace.always_iff_guarded (step U) (fun _ => noOverlap_of_inv) inv_step
    (fun c e c' _ hok hs => overlaps c e c' hok hs) (inv_start r)

/-- The only request is rejected, and a message is read while the close is in progress. -/
def rejectedOnly : List Session.Event :=
  [.resolved true, .connected true, .sslHandshaken true, .handshaken true, .written true,
    .read (.text (some (Session.controlMsg "rs.error" "Contract does not exist"))), .readNext, .readAgain,
    .read (.text (some (.obj [("channel", .str "pong"), ("data", .num (.int 1587453241453))]))), .readNext, .readAgain]

theorem closes_overlap :
    let eth := (WSStreamManager.tickerSubscription "ETH_USDT").toJson
    ∃ c, Trace.run (step .plain) (start eth) rejectedOnly = some c ∧ c.session.close = 2 ∧ c.undefined = false ∧
      ¬ Trace.Always (step .plain) NoOverlap (start eth) rejectedOnly := by
  refine ⟨_, rfl, rfl, by decide, fun h => ?_⟩
  have hlast := (h.last (step .plain) rfl).close
  exact absurd hlast (by decide)

end Stream

end Futures

end MexcApi
