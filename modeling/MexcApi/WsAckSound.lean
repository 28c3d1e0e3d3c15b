import MexcApi.WsClient
import MexcApi.WsLists

/-!
# Which request an acknowledgement is for

A session in conversation with a server that answers the requests in the order
they were written, with one control message each. The session has one
`subscribing` slot and fills it with the next request of the queue after any
message, so the answers go to the right requests as long as no request is
taken from the queue while another is unanswered.
-/

namespace MexcApi

open Nlohmann

namespace Futures

/-- `answers` says of the requests written so far whether the server accepted them. -/
structure Conversation where
  session : Session
  submitted : List Json
  answers : List Bool

namespace Conversation

def start (subscriptionRequest : Json) : Conversation :=
  { session := .start subscriptionRequest, submitted := [subscriptionRequest], answers := [] }

def controlText (json : Json) : Option String :=
  match Session.isApiControlMsg json, json.find? "data" with
  | .ok true, some (.str text) => some text
  | _, _ => none

def isControl : Option Json → Bool
  | some json => json.isObject && (match Session.isApiControlMsg json with | .ok b => b | .error _ => false)
  | none => false

/-- The caller submits different requests, and a control message is the
answer to the first request that has none. -/
def step (c : Conversation) (e : Session.Event) : Option Conversation :=
  match c.session.step e, e with
  | none, _ => none
  | some s', .subscribe r =>
    if r.isNull = false ∧ ∀ q ∈ c.submitted, q.eq r = false then
      some { session := s', submitted := c.submitted ++ [r], answers := c.answers }
    else none
  | some s', .read (.text (some json)) =>
    if isControl (some json) = true then
      match controlText json with
      | some text =>
        if c.answers.length < c.session.written.length then
          some { session := s', submitted := c.submitted, answers := c.answers ++ [text == "success"] }
        else none
      | none => none
    else some { c with session := s' }
  | some s', _ => some { c with session := s' }

def confirmed (c : Conversation) : List Json :=
  (c.session.written.zip c.answers).filterMap fun (request, success) => if success then request else none

/-- What an acknowledgement is for: the subscriptions are the confirmed requests. -/
def Attributed (c : Conversation) : Prop :=
  c.session.subscriptions = c.confirmed ∧ ∀ sub ∈ c.session.subscriptions, sub.isNull = false

/-- The next request is only taken from the queue when all have been answered. -/
def InTurn (c : Conversation) (e : Session.Event) : Prop :=
  match e with
  | .readNext => c.session.subscriptionRequests = [] ∨ c.answers.length = c.session.written.length
  | _ => True

instance (c : Conversation) : (e : Session.Event) → Decidable (c.InTurn e)
  | .readNext => decidable_of_iff (c.session.subscriptionRequests.isEmpty = true ∨
      c.answers.length = c.session.written.length) (by simp [InTurn])
  | .subscribe _ | .close | .resolved _ | .connected _ | .sslHandshaken _ | .handshaken _ | .written _ | .read _
  | .readAgain | .closed | .pinged | .timerExpires | .timer _ | .timerCancelled => isTrue trivial

/-! ## The invariant -/

def answered (sent : List Json) (answers : List Bool) : List Json :=
  (sent.zip answers).filterMap fun (request, success) => if success then some request else none

structure Inv (c : Conversation) (sent : List Json) : Prop where
  written : c.session.written = sent.map some
  accepted : c.session.accepted = sent ++ c.session.subscriptionRequests
  distinct : c.session.accepted.Pairwise fun q r => q.eq r = false
  submitted : ∀ r ∈ c.session.accepted, r ∈ c.submitted
  nonnull : ∀ r ∈ c.submitted, r.isNull = false
  staged : c.session.Staged
  unsent : c.session.setup = 1 → sent = [] ∧ c.session.subscriptionRequests ≠ []
  slot : c.answers.length = sent.length ∨
    ∃ init, sent = init ++ [c.session.subscribing] ∧ c.answers.length = init.length
  subscriptions : c.session.subscriptions = answered sent c.answers

theorem confirmed_eq {c : Conversation} {sent : List Json} (h : c.session.written = sent.map some) :
    c.confirmed = answered sent c.answers := by
  unfold confirmed answered
  rw [h, List.zip_map_left, List.filterMap_map]
  rfl

theorem mem_answered {sent : List Json} {answers : List Bool} {r : Json} (h : r ∈ answered sent answers) : r ∈ sent := by
  obtain ⟨⟨q, b⟩, hm, heq⟩ := List.mem_filterMap.mp h
  cases b with
  | false => cases heq
  | true => cases heq; exact (List.of_mem_zip hm).1

theorem answered_init {init : List Json} {answers : List Bool} (h : answers.length = init.length) (r : Json) :
    answered (init ++ [r]) answers = answered init answers := by
  have hzip : (init ++ [r]).zip (answers ++ []) = init.zip answers ++ [r].zip [] := List.zip_append h.symm
  rw [List.append_nil, List.zip_nil_right, List.append_nil] at hzip
  unfold answered
  rw [hzip]

theorem answered_snoc {init : List Json} {answers : List Bool} (h : answers.length = init.length) (r : Json) (b : Bool) :
    answered (init ++ [r]) (answers ++ [b]) = answered init answers ++ if b then [r] else [] := by
  unfold answered
  rw [List.zip_append h.symm, List.filterMap_append]
  cases b <;> rfl

theorem attributed_of_inv {c : Conversation} {sent : List Json} (h : c.Inv sent) : c.Attributed := by
  refine ⟨h.subscriptions.trans (confirmed_eq h.written).symm, ?_⟩
  intro sub hsub
  rw [h.subscriptions] at hsub
  apply h.nonnull
  apply h.submitted
  rw [h.accepted]
  exact List.mem_append_left _ (mem_answered hsub)

theorem inv_start {r : Json} (hr : r.isNull = false) : (start r).Inv [] where
  written := rfl
  accepted := rfl
  distinct := List.pairwise_singleton ..
  submitted := fun q hq => hq
  nonnull := by
    intro q hq
    rw [List.mem_singleton.mp hq]; exact hr
  staged := Session.staged_start r
  unsent := fun _ => ⟨rfl, List.cons_ne_nil _ _⟩
  slot := Or.inl rfl
  subscriptions := rfl

/-! ## What a step keeps -/

theorem inv_frame {c : Conversation} {sent : List Json} (h : c.Inv sent) {s' : Session}
    (hlists : s'.lists = c.session.lists) (hstaged : s'.Staged) (hsetup : s'.setup ≤ c.session.setup) :
    Inv { c with session := s' } sent := by
  obtain ⟨hsubs, hslot, hqueue, hacc, hwritten⟩ := Session.Lists.mk.inj hlists
  exact {
    written := hwritten.trans h.written
    accepted := by
      show s'.accepted = _
      rw [hacc, h.accepted, hqueue]
    distinct := by
      show s'.accepted.Pairwise _
      rw [hacc]
      exact h.distinct
    submitted := by
      show ∀ r ∈ s'.accepted, r ∈ c.submitted
      rw [hacc]
      exact h.submitted
    nonnull := h.nonnull
    staged := hstaged
    unsent := by
      intro heq
      show sent = [] ∧ s'.subscriptionRequests ≠ []
      rw [hqueue]
      apply h.unsent
      have hone : s'.setup = 1 := heq
      have hle := h.staged.1
      omega
    slot := by
      show _ ∨ ∃ init, sent = init ++ [s'.subscribing] ∧ _
      rw [hslot]
      exact h.slot
    subscriptions := hsubs.trans h.subscriptions }

theorem inv_subscribe {c : Conversation} {sent : List Json} (h : c.Inv sent) {r : Json} (hr : r.isNull = false)
    (hnew : ∀ q ∈ c.submitted, q.eq r = false) :
    Inv { session := c.session.next (.subscribe r), submitted := c.submitted ++ [r], answers := c.answers } sent := by
  have hnonnull : ∀ q ∈ c.submitted ++ [r], q.isNull = false := by
    intro q hq
    rcases List.mem_append.mp hq with hq | hq
    · exact h.nonnull q hq
    · rw [List.mem_singleton.mp hq]; exact hr
  have hsame : Inv { c with submitted := c.submitted ++ [r] } sent :=
    { h with nonnull := hnonnull, submitted := fun q hq => List.mem_append_left _ (h.submitted q hq) }
  simp only [Session.next, Session.writeSubscription]
  cases Session.alreadySubscribed r c.session.subscriptions with
  | error e => exact hsame
  | ok b =>
    cases b with
    | true => exact hsame
    | false =>
      refine ⟨h.written, ?_, ?_, ?_, hnonnull, h.staged, fun heq => ⟨(h.unsent heq).1, ?_⟩, h.slot,
        h.subscriptions⟩
      · show c.session.accepted ++ [r] = sent ++ (c.session.subscriptionRequests ++ [r])
        rw [h.accepted, List.append_assoc]
      · refine List.pairwise_append.mpr ⟨h.distinct, List.pairwise_singleton .., ?_⟩
        intro q hq r' hr'
        rw [List.mem_singleton.mp hr']
        exact hnew q (h.submitted q hq)
      · intro q hq
        rcases List.mem_append.mp hq with hq | hq
        · exact List.mem_append_left _ (h.submitted q hq)
        · exact List.mem_append_right _ hq
      · show c.session.subscriptionRequests ++ [r] ≠ []
        simp

theorem inv_write {c : Conversation} {sent queue : List Json} {r : Json} (h : c.Inv sent)
    (hqueue : c.session.subscriptionRequests = r :: queue) (hturn : c.answers.length = sent.length) {s' : Session}
    (hsubs : s'.subscriptions = c.session.subscriptions) (hqueue' : s'.subscriptionRequests = queue)
    (hslot : s'.subscribing = r) (hacc : s'.accepted = c.session.accepted)
    (hwritten : s'.written = c.session.written ++ [some r]) (hsetup : s'.setup = 0) :
    Inv { c with session := s' } (sent ++ [r]) where
  written := by show s'.written = _; rw [hwritten, h.written, List.map_append]; rfl
  accepted := by show s'.accepted = _; rw [hacc, h.accepted, hqueue, hqueue', List.append_assoc]; rfl
  distinct := by show s'.accepted.Pairwise _; rw [hacc]; exact h.distinct
  submitted := by show ∀ q ∈ s'.accepted, q ∈ c.submitted; rw [hacc]; exact h.submitted
  nonnull := h.nonnull
  staged := Session.staged_of_zero hsetup
  unsent := by
    intro heq
    have hone : s'.setup = 1 := heq
    omega
  slot := Or.inr ⟨sent, by show _ = sent ++ [s'.subscribing]; rw [hslot], hturn⟩
  subscriptions := by
    show s'.subscriptions = answered (sent ++ [r]) c.answers
    rw [hsubs, h.subscriptions, answered_init hturn]

theorem erase_slot {c : Conversation} {init : List Json} (h : c.Inv (init ++ [c.session.subscribing]))
    (hlen : c.answers.length = init.length) :
    c.session.subscriptions.eraseP (·.eq c.session.subscribing) = c.session.subscriptions := by
  apply List.eraseP_of_forall_not
  intro sub hsub
  have hmem : sub ∈ init := by
    rw [h.subscriptions, answered_init hlen] at hsub
    exact mem_answered hsub
  have hd := h.distinct
  rw [h.accepted, List.append_assoc] at hd
  have := (List.pairwise_append.mp hd).2.2 sub hmem c.session.subscribing (by simp)
  simp [this]

theorem handle_control {json : Json} {text : String} (hc : isControl (some json) = true)
    (ht : controlText json = some text) (s : Session) : s.handleMessage (some json) = .ok (
      if text ≠ "success" then
        { s with subscriptions := s.subscriptions.eraseP (·.eq s.subscribing), subscribing := .null }
      else { s with subscriptions := s.subscriptions ++ [s.subscribing], subscribing := .null }) := by
  simp only [isControl, Bool.and_eq_true] at hc
  have hobj := hc.1
  unfold controlText at ht
  split at ht
  · rename_i hctl hdata
    cases ht
    simp only [Session.handleMessage, hobj, ite_true, hctl, bind, Except.bind, Session.handleApiControlMsg, hdata,
      Json.getString, pure, Except.pure]
    by_cases htext : text = "success"
    · simp [htext]
    · simp [htext]
  · cases ht

theorem inv_control {c : Conversation} {sent : List Json} (h : c.Inv sent) {json : Json} {text : String}
    (hc : isControl (some json) = true) (ht : controlText json = some text)
    (hlt : c.answers.length < c.session.written.length)
    (hstaged : (c.session.next (.read (.text (some json)))).Staged) :
    Inv { session := c.session.next (.read (.text (some json))), submitted := c.submitted,
          answers := c.answers ++ [text == "success"] } sent := by
  rw [h.written, List.length_map] at hlt
  obtain ⟨init, hsent, hlen⟩ : ∃ init, sent = init ++ [c.session.subscribing] ∧ c.answers.length = init.length := by
    rcases h.slot with heq | hslot
    · omega
    · exact hslot
  have hsubs : c.session.subscriptions = answered init c.answers := by
    rw [h.subscriptions, hsent, answered_init hlen]
  have herase := erase_slot (hsent ▸ h) hlen
  have hslot : (c.answers ++ [text == "success"]).length = sent.length := by
    rw [hsent, List.length_append, List.length_append, hlen]; rfl
  have hconf := answered_snoc hlen c.session.subscribing (text == "success")
  rw [← hsent, ← hsubs] at hconf
  simp only [Session.next, Session.onRead, handle_control hc ht] at hstaged ⊢
  by_cases htext : text = "success"
  · have hb : (text == "success") = true := by simpa using htext
    rw [hb] at hconf hslot ⊢
    simp only [htext, ne_eq, not_true_eq_false, ite_false] at hstaged ⊢
    exact ⟨h.written, h.accepted, h.distinct, h.submitted, h.nonnull, hstaged, h.unsent, Or.inl hslot, hconf.symm⟩
  · have hb : (text == "success") = false := by simpa using htext
    rw [hb] at hconf hslot ⊢
    rw [if_pos htext] at hstaged ⊢
    refine ⟨h.written, h.accepted, h.distinct, h.submitted, h.nonnull, hstaged, h.unsent, Or.inl hslot, ?_⟩
    show c.session.subscriptions.eraseP (·.eq c.session.subscribing) = _
    rw [herase, hconf]
    exact (List.append_nil _).symm

/-- A market-data message, and whatever else is no control message, leaves
the session's lists alone. -/
theorem handle_data {json : Option Json} (hc : isControl json = false) {s s' : Session}
    (h : s.handleMessage json = .ok s') : s' = s := by
  cases json with
  | none => cases h
  | some json =>
    simp only [Session.handleMessage] at h
    split at h
    · rename_i hobj
      simp only [isControl, hobj, Bool.true_and] at hc
      cases hctl : Session.isApiControlMsg json with
      | error e => rw [hctl] at h; cases h
      | ok b =>
        rw [hctl] at h hc
        simp only at hc
        subst hc
        cases h
        rfl
    · cases h; rfl

theorem inv_data {c : Conversation} {sent : List Json} (h : c.Inv sent) {json : Option Json}
    (hc : isControl json = false) (hstaged : (c.session.next (.read (.text json))).Staged) :
    Inv { c with session := c.session.next (.read (.text json)) } sent := by
  simp only [Session.next, Session.onRead] at hstaged ⊢
  cases hm : { c.session with read := c.session.read - 1 }.handleMessage json with
  | error e =>
    rw [hm] at hstaged
    exact inv_frame h rfl hstaged (Nat.le_refl _)
  | ok s' =>
    rw [hm] at hstaged
    rw [handle_data hc hm] at hstaged ⊢
    exact inv_frame h rfl hstaged (Nat.le_refl _)

theorem inv_handshake {c : Conversation} {sent : List Json} (h : c.Inv sent) {ok : Bool}
    (hen : 0 < c.session.handshake) (hstaged : (c.session.next (.handshaken ok)).Staged) :
    ∃ sent', Inv { c with session := c.session.next (.handshaken ok) } sent' := by
  have hle := h.staged.1
  unfold Session.setup at hle
  obtain ⟨hsent, hqueue⟩ := h.unsent (by unfold Session.setup; omega)
  cases ok with
  | false =>
    refine ⟨sent, inv_frame h rfl hstaged ?_⟩
    simp only [Session.next, Session.onHandshake, Bool.false_eq_true, ite_false, Session.setup]
    omega
  | true =>
    cases hq : c.session.subscriptionRequests with
    | nil => exact absurd hq hqueue
    | cons r queue =>
      have hturn : c.answers.length = sent.length := by
        rcases h.slot with heq | ⟨init, hslot, -⟩
        · exact heq
        · rw [hsent] at hslot; exact absurd hslot (by simp)
      refine ⟨sent ++ [r], ?_⟩
      simp only [Session.next, Session.onHandshake, ite_true, Session.readSubscription, hq, Session.asyncWrite]
      refine inv_write h hq hturn rfl rfl rfl rfl rfl ?_
      show c.session.resolve + c.session.connect + c.session.sslHandshake + (c.session.handshake - 1) = 0
      omega

theorem inv_readNext {c : Conversation} {sent : List Json} (h : c.Inv sent) (hturn : c.InTurn .readNext)
    (hp : c.session.phase = .handled) (hstaged : (c.session.next .readNext).Staged) :
    ∃ sent', Inv { c with session := c.session.next .readNext } sent' := by
  have hsetup := Session.setup_eq_zero h.staged (Or.inl (by rw [hp]; decide))
  cases hq : c.session.subscriptionRequests with
  | nil =>
    refine ⟨sent, ?_⟩
    simp only [Session.next, Session.onReadNext, Session.readSubscription, hq] at hstaged ⊢
    exact inv_frame h (by simp only [Session.lists, hq]) hstaged (Nat.le_refl _)
  | cons r queue =>
    refine ⟨sent ++ [r], ?_⟩
    have hlen : c.answers.length = sent.length := by
      rcases hturn with hnil | hlen
      · rw [hq] at hnil; cases hnil
      · rw [h.written, List.length_map] at hlen; exact hlen
    simp only [Session.next, Session.onReadNext, Session.readSubscription, hq, Session.asyncWrite]
    exact inv_write h hq hlen rfl rfl rfl rfl rfl hsetup

theorem inv_quiet {c : Conversation} {sent : List Json} (h : c.Inv sent) {e : Session.Event} {s' : Session}
    (hs : c.session.step e = some s') (hquiet : Session.quiet e = true) : Inv { c with session := s' } sent := by
  have hstaged := Session.staged_step h.staged hs
  obtain ⟨-, hen, rfl⟩ := Session.step_some hs
  exact inv_frame h (c.session.quiet_lists hquiet) hstaged (Session.setup_next hen)

theorem inv_step (c : Conversation) (e : Session.Event) (c' : Conversation) (h : ∃ sent, c.Inv sent)
    (hturn : c.InTurn e) (hs : c.step e = some c') : ∃ sent, c'.Inv sent := by
  obtain ⟨sent, h⟩ := h
  unfold step at hs
  split at hs
  · cases hs
  · rename_i s' r hstep
    obtain ⟨-, -, rfl⟩ := Session.step_some hstep
    split at hs
    · rename_i hnew
      cases hs
      exact ⟨sent, inv_subscribe h hnew.1 hnew.2⟩
    · cases hs
  · rename_i s' json hstep
    have hstaged := Session.staged_step h.staged hstep
    obtain ⟨-, -, rfl⟩ := Session.step_some hstep
    split at hs
    · rename_i hc
      split at hs
      · rename_i text ht
        split at hs
        · rename_i hlt
          cases hs
          exact ⟨sent, inv_control h hc ht hlt hstaged⟩
        · cases hs
      · cases hs
    · rename_i hc
      cases hs
      exact ⟨sent, inv_data h (by simpa using hc) hstaged⟩
  · rename_i e _ _ s' hsub hread hstep
    cases hs
    have hstaged := Session.staged_step h.staged hstep
    cases e with
    | handshaken ok =>
      obtain ⟨-, hen, rfl⟩ := Session.step_some hstep
      exact inv_handshake h hen.2 hstaged
    | readNext =>
      obtain ⟨-, hen, rfl⟩ := Session.step_some hstep
      exact inv_readNext h hturn hen hstaged
    | read result =>
      cases result with
      | text json =>
        cases json with
        | none =>
          obtain ⟨-, -, rfl⟩ := Session.step_some hstep
          exact ⟨sent, inv_data h rfl hstaged⟩
        | some json => exact absurd rfl (hread json)
      | error => exact ⟨sent, inv_quiet h hstep rfl⟩
    | subscribe r => exact absurd rfl (hsub r)
    | _ => exact ⟨sent, inv_quiet h hstep rfl⟩

theorem attributed_of_inTurn {r : Json} (hr : r.isNull = false) {es : List Session.Event}
    (hturn : Trace.Guarded step InTurn (start r) es) : Trace.Always step Attributed (start r) es :=
  (Trace.always_of_guarded step inv_step ⟨[], inv_start hr⟩ hturn).mono step fun _ ⟨_, h⟩ => attributed_of_inv h

def tickerPush : Json :=
  .obj [("channel", .str "push.ticker"), ("data", .obj [("symbol", .str "ETH_USDT")]), ("symbol", .str "ETH_USDT")]

def firstWrite : List Session.Event :=
  [.resolved true, .connected true, .sslHandshaken true, .handshaken true, .written true]

/-- A second request waits for the answer to the first, and is rejected. -/
def oneByOne (r : Json) : List Session.Event := firstWrite ++ [
  .subscribe r,
  .read (.text (some (Session.controlMsg "rs.sub.ticker" "success"))), .readNext, .written true,
  .read (.text (some tickerPush)), .readNext, .readAgain,
  .read (.text (some (Session.controlMsg "rs.error" "unknown symbol"))), .readNext, .readAgain]

theorem attributed_oneByOne :
    let eth := (WSStreamManager.tickerSubscription "ETH_USDT").toJson
    let kline := (WSStreamManager.candlestickSubscription "ETH_USDT" ._1m).toJson
    Trace.Always step Attributed (start eth) (oneByOne kline) :=
  attributed_of_inTurn rfl (by decide)

def dataFirst (r : Json) : List Session.Event := firstWrite ++ [
  .subscribe r,
  .read (.text (some tickerPush)), .readNext, .written true,
  .read (.text (some (Session.controlMsg "rs.sub.ticker" "success")))]

/-- The success of the first request is recorded for the second. -/
theorem wrong_request_confirmed :
    let eth := (WSStreamManager.tickerSubscription "ETH_USDT").toJson
    let kline := (WSStreamManager.candlestickSubscription "ETH_USDT" ._1m).toJson
    ∃ c, Trace.run step (start eth) (dataFirst kline) = some c ∧ c.session.subscriptions = [kline] ∧
      c.confirmed = [eth] ∧ ¬ c.Attributed := by
  refine ⟨_, rfl, rfl, rfl, ?_⟩
  rintro ⟨h, -⟩
  have := congrArg (fun l => l.map (Json.eq (WSStreamManager.tickerSubscription "ETH_USDT").toJson)) h
  revert this
  decide

end Conversation

end Futures

end MexcApi
