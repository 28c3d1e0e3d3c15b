import MexcApi.Trace
import MexcApi.WsSession

/-!
# What a step does to the lists of a session

A request goes from the caller to the queue, from there to the socket and into
the `subscribing` slot, and from the slot to the subscriptions or away. `Move`
has one constructor for each of these, and every step of a session is one.
-/

namespace MexcApi

open Nlohmann

namespace Futures

namespace Session

structure Lists where
  subscriptions : List Json
  subscribing : Json
  subscriptionRequests : List Json
  accepted : List Json
  written : List (Option Json)

def lists (s : Session) : Lists where
  subscriptions := s.subscriptions
  subscribing := s.subscribing
  subscriptionRequests := s.subscriptionRequests
  accepted := s.accepted
  written := s.written

inductive Move : Event → Lists → Lists → Prop
  | keep {e : Event} {l : Lists} : Move e l l
  | accept {l : Lists} (r : Json) (h : alreadySubscribed r l.subscriptions = .ok false) :
    Move (.subscribe r) l { l with
      subscriptionRequests := l.subscriptionRequests ++ [r], accepted := l.accepted ++ [r] }
  | take {e : Event} {l : Lists} (r : Json) (queue : List Json) (he : e = .handshaken true ∨ e = .readNext)
    (h : l.subscriptionRequests = r :: queue) :
    Move e l { l with subscribing := r, subscriptionRequests := queue, written := l.written ++ [some r] }
  /-- The write after the handshake does not look whether there is a request. -/
  | takeNone {l : Lists} (h : l.subscriptionRequests = []) :
    Move (.handshaken true) l { l with written := l.written ++ [none] }
  | confirm {e : Event} {l : Lists} :
    Move e l { l with subscriptions := l.subscriptions ++ [l.subscribing], subscribing := .null }
  | reject {e : Event} {l : Lists} :
    Move e l { l with subscriptions := l.subscriptions.eraseP (·.eq l.subscribing), subscribing := .null }

/-! ## The functions -/

/-- The handlers that do not touch the lists. -/
def quiet : Event → Bool
  | .subscribe _ | .handshaken _ | .readNext | .read (.text _) => false
  | _ => true

theorem quiet_lists (s : Session) {e : Event} (h : quiet e = true) : (s.next e).lists = s.lists := by
  cases e with
  | subscribe r => cases h
  | handshaken ok => cases h
  | readNext => cases h
  | read result =>
    cases result with
    | error => rfl
    | text json => cases h
  | resolved ok => cases ok <;> rfl
  | connected ok => cases ok <;> rfl
  | sslHandshaken ok => cases ok <;> rfl
  | written ok => cases ok <;> rfl
  | readAgain =>
    simp only [next, onReadAgain]
    split <;> rfl
  | close | closed | pinged | timerExpires | timer isOpen | timerCancelled => rfl

theorem readSubscription_nil {s : Session} (h : s.subscriptionRequests = []) : s.readSubscription = (none, s) := by
  unfold readSubscription
  rw [h]

theorem readSubscription_cons {s : Session} {r : Json} {queue : List Json} (h : s.subscriptionRequests = r :: queue) :
    s.readSubscription = (some r, { s with subscriptionRequests := queue, subscribing := r }) := by
  unfold readSubscription
  rw [h]

theorem subscribe_move (s : Session) (r : Json) : Move (.subscribe r) s.lists (s.next (.subscribe r)).lists := by
  simp only [next, writeSubscription]
  cases h : alreadySubscribed r s.subscriptions with
  | error e => exact .keep
  | ok b =>
    cases b with
    | true => exact .keep
    | false => exact .accept r h

theorem handleApiControlMsg_move {s s' : Session} {json : Json} (e : Event) (h : s.handleApiControlMsg json = .ok s') :
    Move e s.lists s'.lists := by
  unfold handleApiControlMsg at h
  split at h
  · obtain ⟨text, -, h⟩ := bind_ok h
    split at h
    · cases h; exact .reject
    · cases h; exact .confirm
  · cases h; exact .keep

theorem handleMessage_move {s s' : Session} {json : Option Json} (e : Event) (h : s.handleMessage json = .ok s') :
    Move e s.lists s'.lists := by
  cases json with
  | none => cases h
  | some json =>
    simp only [handleMessage] at h
    split at h
    · obtain ⟨isControl, -, h⟩ := bind_ok h
      cases isControl with
      | true => exact handleApiControlMsg_move e h
      | false => cases h; exact .keep
    · cases h; exact .keep

theorem read_move (s : Session) (result : ReadResult) : Move (.read result) s.lists (s.next (.read result)).lists := by
  cases result with
  | error => exact .keep
  | text json =>
    simp only [next, onRead]
    cases hm : { s with read := s.read - 1 }.handleMessage json with
    | error err => exact .keep
    | ok s' =>
      have h : Move (.read (.text json)) { s with read := s.read - 1 }.lists s'.lists := handleMessage_move _ hm
      exact h

theorem handshaken_move (s : Session) (ok : Bool) :
    Move (.handshaken ok) s.lists (s.next (.handshaken ok)).lists := by
  cases ok with
  | false => exact .keep
  | true =>
    let t : Session := { s with handshake := s.handshake - 1, waiting := s.waiting + 1 }
    have hnext : s.next (.handshaken true) = asyncWrite t.readSubscription := rfl
    rw [hnext]
    cases hq : s.subscriptionRequests with
    | nil =>
      rw [readSubscription_nil (show t.subscriptionRequests = [] from hq)]
      exact .takeNone hq
    | cons r queue =>
      rw [readSubscription_cons (show t.subscriptionRequests = r :: queue from hq)]
      exact .take r queue (Or.inl rfl) hq

theorem readNext_move (s : Session) : Move .readNext s.lists (s.next .readNext).lists := by
  simp only [next, onReadNext]
  cases hq : s.subscriptionRequests with
  | nil =>
    rw [readSubscription_nil hq]
    exact .keep
  | cons r queue =>
    rw [readSubscription_cons hq]
    exact .take r queue (Or.inr rfl) hq

theorem step_move {s s' : Session} {e : Event} (hs : s.step e = some s') : Move e s.lists s'.lists := by
  obtain ⟨-, -, rfl⟩ := step_some hs
  cases e with
  | subscribe r => exact s.subscribe_move r
  | read result => exact s.read_move result
  | handshaken ok => exact s.handshaken_move ok
  | readNext => exact s.readNext_move
  | _ =>
    rw [quiet_lists s rfl]
    exact .keep

theorem written_other {s s' : Session} {e : Event} (hs : s.step e = some s') (hnext : e ≠ .readNext)
    (hhs : e ≠ .handshaken true) : s.accepted <+: s'.accepted ∧ s'.written = s.written := by
  have hmove : Move e s.lists s'.lists := step_move hs
  have key : ∀ {l l' : Lists}, Move e l l' → l.accepted <+: l'.accepted ∧ l'.written = l.written := by
    intro l l' hm
    cases hm with
    | accept r => exact ⟨List.prefix_append _ _, rfl⟩
    | take r queue he =>
      rcases he with he | he
      · exact absurd he hhs
      · exact absurd he hnext
    | takeNone => exact absurd rfl hhs
    | keep | confirm | reject => exact ⟨List.prefix_rfl, rfl⟩
  exact key hmove

end Session

end Futures

end MexcApi
