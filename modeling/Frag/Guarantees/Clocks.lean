import Frag.System.Acceptance

/-!
# Cursors and Clocks

A poll asks every server for the fragments after `lastSince`, a timestamp of the first
server's clock, and it remembers nothing of incomplete messages. Whether a message is
ever shown therefore depends on where its fragments fall relative to the cursor at the
time they are posted. Three kinds of runs are considered, each with the servers always
answering the reader:

- *skewed*: the clocks of the servers differ, messages are posted one at a time;
- *granular*: one clock, several messages in a second;
- *overlapping*: one clock, POSTs of several messages and polls interleaved.

In each of them a message can be lost for good, and in each of them nothing is lost as
long as fragments are posted above the cursor.

## Main results

- `no_loss_across_skewed_clocks`, `no_loss_within_a_second`, `no_loss_when_sends_overlap`
- `lost_for_good`: below the cursor a message stays lost, so the conditions are needed.
-/

namespace Frag

open Runs HighWater

variable {B ι : Type} [DecidableEq B] [DecidableEq ι]

namespace World

/-! ## Conditions on events -/

/-- No fragment of the message is stored. -/
def Untouched (E : Env B) (w : World B ι) (s : Sent ι) : Prop :=
  ∀ p ∈ s.posts, cStr (toWire p.2.id) ∉ (w.stores (E.backend p.1)).rows.map Fragment.id

/-- The timestamps of the fragments of the message, as far as they are stored. -/
def StampedAt (E : Env B) (w : World B ι) (s : Sent ι) (P : Int → Prop) : Prop :=
  ∀ p ∈ s.posts, ∀ r ∈ (w.stores (E.backend p.1)).rows,
    r.id = cStr (toWire p.2.id) → P r.timestamp

instance (E : Env B) (w : World B ι) (s : Sent ι) (P : Int → Prop) [DecidablePred P] :
    Decidable (w.StampedAt E s P) :=
  inferInstanceAs (Decidable (∀ p ∈ s.posts, ∀ r ∈ (w.stores (E.backend p.1)).rows, _ → _))

/-- No message of the chat is between its first and its last POST. -/
def Whole (E : Env B) (cfg : ChatConfig B) (w : World B ι) : Prop :=
  ∀ s ∈ w.sent, s.InChat cfg → w.Stored E s ∨ w.Untouched E s

/-- No other message of the chat is. -/
def OthersWhole (E : Env B) (cfg : ChatConfig B) (w : World B ι) (s : Sent ι) : Prop :=
  ∀ s' ∈ w.sent, s'.InChat cfg → s'.messageId ≠ s.messageId → w.Stored E s' ∨ w.Untouched E s'

instance (E : Env B) (w : World B ι) (s : Sent ι) : Decidable (w.Untouched E s) :=
  inferInstanceAs (Decidable (∀ p ∈ s.posts, _ ∉ List.map Fragment.id _))

instance (E : Env B) (cfg : ChatConfig B) (w : World B ι) : Decidable (w.Whole E cfg) :=
  inferInstanceAs (Decidable (∀ s ∈ w.sent, s.InChat cfg → _))

instance (E : Env B) (cfg : ChatConfig B) (w : World B ι) (s : Sent ι) :
    Decidable (w.OthersWhole E cfg s) :=
  inferInstanceAs (Decidable (∀ s' ∈ w.sent, s'.InChat cfg → _ → _))

/-- A fragment that is not stored yet is posted above the cursor of the reader. -/
def AheadOfCursor (E : Env B) (cfg : ChatConfig B) (reader : ι) (id : JsString)
    (w : World B ι) : Event B ι → Prop :=
  w.OnPost fun s p now => s.InChat cfg →
    cStr (toWire p.2.id) ∉ (w.stores (E.backend p.1)).rows.map Fragment.id →
    (w.apps reader).lastSince id < now

/-- Skewed clocks: on each server no two fragments carry the same second and its clock
    advances; the reader polls between messages and all servers answer. -/
def SkewedStep (E : Env B) (cfg : ChatConfig B) (reader : ι) (id : JsString) (w : World B ι)
    (e : Event B ι) : Prop :=
  w.ChannelStep E cfg reader e ∧
    w.OnPost (fun _ p now => ∀ r ∈ (w.stores (E.backend p.1)).rows, r.timestamp < now) e ∧
    OnPoll reader id (fun up => w.AllUp reader id up ∧ w.Whole E cfg) e

/-- One clock in whole seconds: messages are posted one after another, each within one
    second; the reader polls between messages and all servers answer. -/
def GranularStep (E : Env B) (cfg : ChatConfig B) (reader : ι) (id : JsString) (w : World B ι)
    (e : Event B ι) : Prop :=
  w.ChannelStep E cfg reader e ∧
    w.OnPost (fun s _ now => s.InChat cfg →
      (∀ b ∈ cfg.backends, ∀ r ∈ (w.stores b).rows, r.timestamp ≤ now) ∧
      w.StampedAt E s (fun t => t = now) ∧
      w.OthersWhole E cfg s) e ∧
    OnPoll reader id (fun up => w.AllUp reader id up ∧ w.Whole E cfg) e

/-- One clock, distinct timestamps on each server: POSTs and polls interleave freely,
    and all servers answer the reader. -/
def OverlapStep (E : Env B) (cfg : ChatConfig B) (reader : ι) (id : JsString) (w : World B ι)
    (e : Event B ι) : Prop :=
  w.ChannelStep E cfg reader e ∧
    w.OnPost (fun s p now => s.InChat cfg →
      (∀ b ∈ cfg.backends, ∀ r ∈ (w.stores b).rows, r.timestamp ≤ now) ∧
      ∀ r ∈ (w.stores (E.backend p.1)).rows, r.timestamp ≠ now) e ∧
    OnPoll reader id (fun up => w.AllUp reader id up) e

/-- All fragments of the message but this one are stored. -/
def OthersStored (E : Env B) (w : World B ι) (s : Sent ι) (p : Server × FragmentPost JsString) :
    Prop :=
  ∀ p' ∈ s.posts, p' ≠ p →
    cStr (toWire p'.2.id) ∈ (w.stores (E.backend p'.1)).rows.map Fragment.id

instance (E : Env B) (w : World B ι) (s : Sent ι) (p : Server × FragmentPost JsString) :
    Decidable (w.OthersStored E s p) :=
  inferInstanceAs (Decidable (∀ p' ∈ s.posts, p' ≠ p → _ ∈ List.map Fragment.id _))

/-- The POST that completes a message finds all its fragments, and the new one, above
    the cursor of the reader. -/
def CompletesAhead (E : Env B) (cfg : ChatConfig B) (reader : ι) (id : JsString)
    (w : World B ι) : Event B ι → Prop :=
  w.OnPost fun s p now => s.InChat cfg →
    cStr (toWire p.2.id) ∉ (w.stores (E.backend p.1)).rows.map Fragment.id →
    w.OthersStored E s p →
    (w.apps reader).lastSince id < now ∧
      w.StampedAt E s fun t => (w.apps reader).lastSince id < t

instance (E : Env B) (cfg : ChatConfig B) (reader : ι) (id : JsString) (w : World B ι)
    (e : Event B ι) : Decidable (w.AheadOfCursor E cfg reader id e) :=
  inferInstanceAs (Decidable (w.OnPost _ e))

instance (E : Env B) (cfg : ChatConfig B) (reader : ι) (id : JsString) (w : World B ι)
    (e : Event B ι) : Decidable (w.CompletesAhead E cfg reader id e) :=
  inferInstanceAs (Decidable (w.OnPost _ e))

instance (E : Env B) (cfg : ChatConfig B) (reader : ι) (id : JsString) (w : World B ι)
    (e : Event B ι) : Decidable (w.SkewedStep E cfg reader id e) :=
  inferInstanceAs (Decidable (_ ∧ w.OnPost _ e ∧ OnPoll reader id _ e))

instance (E : Env B) (cfg : ChatConfig B) (reader : ι) (id : JsString) (w : World B ι)
    (e : Event B ι) : Decidable (w.GranularStep E cfg reader id e) :=
  inferInstanceAs (Decidable (_ ∧ w.OnPost _ e ∧ OnPoll reader id _ e))

instance (E : Env B) (cfg : ChatConfig B) (reader : ι) (id : JsString) (w : World B ι)
    (e : Event B ι) : Decidable (w.OverlapStep E cfg reader id e) :=
  inferInstanceAs (Decidable (_ ∧ w.OnPost _ e ∧ OnPoll reader id _ e))

/-- The reader shows every message of the chat whose fragments are all stored. -/
def ShowsStored (E : Env B) (cfg : ChatConfig B) (reader : ι) (id : JsString) (w : World B ι) :
    Prop :=
  ∀ s ∈ w.sent, s.InChat cfg → w.Stored E s →
    s.messageId.val ∈ ((w.apps reader).messagesOf id).map Message.id

instance (E : Env B) (cfg : ChatConfig B) (reader : ι) (id : JsString) (w : World B ι) :
    Decidable (w.ShowsStored E cfg reader id) :=
  inferInstanceAs (Decidable (∀ s ∈ w.sent, s.InChat cfg → _))

/-! ## Keeping ahead of the cursor -/

variable {E : Env B} {cfg : ChatConfig B} {reader : ι} {id : JsString} {w : World B ι}
  {e : Event B ι}

omit [DecidableEq B] [DecidableEq ι] in
/-- A listed message of the chat was sent in it. -/
theorem Reading.exists_sent (h : Reading E cfg reader id w) {m : Uuid} {b : B} {t : Int}
    (ht : w.stamp cfg m b = some t) : ∃ s ∈ w.sent, s.InChat cfg ∧ s.messageId = m := by
  obtain ⟨r, hr, hchat, hm, -⟩ := (stamp_eq_some h.honest h.agreed).mp ht
  obtain ⟨s, j, p, horigin⟩ := h.honest.rows b r hr
  exact ⟨s, horigin.sent, horigin.inChat h.honest hchat,
    horigin.messageId_eq h.honest hm⟩

omit [DecidableEq B] [DecidableEq ι] in
/-- Where no message is half posted, an item of the board is complete or not listed. -/
theorem Whole.view (hwhole : w.Whole E cfg) (h : Reading E cfg reader id w) (m : Uuid) :
    Complete cfg.sources (view cfg reader id w) m ∨
      ∀ b ∈ cfg.sources, (World.view cfg reader id w).stamp m b = none := by
  by_cases hlisted : ∃ b ∈ cfg.sources, ∃ t, w.stamp cfg m b = some t
  · obtain ⟨b, hb, t, ht⟩ := hlisted
    obtain ⟨s, hs, hin, rfl⟩ := h.exists_sent ht
    rcases hwhole s hs hin with hstored | hnone
    · exact .inl ((stored_iff_complete h.honest h.agreed hs hin).mp hstored)
    · obtain ⟨r, hr, -, hm, -⟩ := (stamp_eq_some h.honest h.agreed).mp ht
      obtain ⟨s', j, p, horigin⟩ := h.honest.rows b r hr
      obtain rfl := h.honest.eq_of_messageId horigin.sent hs (horigin.messageId_eq h.honest hm)
      refine absurd ?_ (hnone p (List.mem_of_getElem? horigin.post))
      rw [horigin.backend]
      exact List.mem_map.mpr ⟨r, hr, by rw [horigin.row]; rfl⟩
  · refine .inr fun b hb => Option.eq_none_iff_forall_ne_some.mpr fun t ht => ?_
    exact hlisted ⟨b, hb, t, ht⟩

/-- Posting above the cursor and polling between messages keeps the board ahead. -/
theorem ahead_step (h : Reading E cfg reader id w) (hahead : Ahead cfg.sources (view cfg reader id w))
    (hok : w.ChannelStep E cfg reader e) (hpost : w.AheadOfCursor E cfg reader id e)
    (hpoll : OnPoll reader id (fun up => w.AllUp reader id up → w.Whole E cfg) e) :
    Ahead cfg.sources (view cfg reader id (w.step E e)) := by
  rcases view_step h hok with hquiet | ⟨b, s, j, p, now, hhandles, hs, hin, hnew, hlisting⟩ |
    ⟨up, rfl, hup, hfetch⟩
  · exact hahead.quiet hquiet
  · obtain ⟨⟨k, rfl, hreq⟩, rfl⟩ := hhandles
    exact hahead.listing hlisting (hpost _ hreq hin hnew)
  · exact hahead.fetch hfetch ((hpoll rfl rfl hup).view h)

/-- Completing messages above the cursor keeps the board caught up. -/
theorem caughtUp_step (h : Reading E cfg reader id w)
    (hcaught : CaughtUp cfg.sources (view cfg reader id w)) (hok : w.ChannelStep E cfg reader e)
    (hpost : w.CompletesAhead E cfg reader id e) :
    CaughtUp cfg.sources (view cfg reader id (w.step E e)) := by
  rcases view_step h hok with hquiet | ⟨b, s, j, p, now, hhandles, hs, hin, hnew, hlisting⟩ |
    ⟨up, rfl, hup, hfetch⟩
  · exact hcaught.quiet hquiet
  · obtain ⟨⟨k, rfl, hreq⟩, rfl⟩ := hhandles
    have hp := (request_eq_some.mp hreq).2
    refine hcaught.listing hlisting fun hcomplete => .inr fun b hb => ?_
    -- The other fragments were listed before the POST, so the message is completed by it.
    have hothers : ∀ p' ∈ s.posts, p' ≠ p →
        ∃ t, w.stamp cfg s.messageId (E.backend p'.1) = some t := by
      intro p' hp' hne
      obtain ⟨j', hj'⟩ := List.getElem?_of_mem hp'
      have hb' := List.mem_of_getElem? (getElem?_backends h.agreed hs hin hj')
      obtain ⟨t, ht⟩ := hcomplete _ hb'
      rcases hlisting.stamp _ _ _ ht with hold | ⟨-, hback, -⟩
      · exact ⟨t, hold⟩
      · exact absurd (position_unique h.agreed hs hin hj' hp hback).2 hne
    obtain ⟨hnow, hrows⟩ := hpost _ hreq hin hnew fun p' hp' hne => by
      obtain ⟨t, ht⟩ := hothers p' hp' hne
      obtain ⟨r, hr, hid, -⟩ := exists_row_of_stamp h.honest h.agreed hs hin hp' ht
      exact List.mem_map.mpr ⟨r, hr, hid⟩
    obtain ⟨t, ht⟩ := hcomplete b hb
    refine ⟨t, ht, ?_⟩
    rw [hlisting.cursor]
    rcases hlisting.stamp _ _ _ ht with hold | ⟨-, -, rfl⟩
    · obtain ⟨j', p', hj', rfl⟩ := exists_post h.agreed hs hin hb
      have hp' := List.mem_of_getElem? hj'
      obtain ⟨r, hr, hid, rfl⟩ := exists_row_of_stamp h.honest h.agreed hs hin hp' hold
      exact hrows p' hp' r hr hid
    · exact hnow
  · exact hfetch.caughtUp hcaught

omit [DecidableEq B] [DecidableEq ι] in
/-- Stored messages of the chat are the complete items of the board. -/
theorem Reading.showsStored_iff (h : Reading E cfg reader id w) :
    w.ShowsStored E cfg reader id ↔
      ∀ m, Complete cfg.sources (view cfg reader id w) m → m ∈ (view cfg reader id w).shown := by
  constructor
  · intro hshows m hm
    obtain ⟨b, hb⟩ := List.exists_mem_of_ne_nil _ cfg.backends_ne
    obtain ⟨t, ht⟩ := hm b hb
    obtain ⟨s, hs, hin, rfl⟩ := h.exists_sent ht
    exact hshows s hs hin ((stored_iff_complete h.honest h.agreed hs hin).mpr hm)
  · intro hall s hs hin hstored
    exact hall s.messageId ((stored_iff_complete h.honest h.agreed hs hin).mp hstored)

/-- **A poll shows every stored message iff the board is caught up.** -/
theorem showsStored_poll_iff (h : Reading E cfg reader id w) {up : Server → Bool}
    (hup : w.AllUp reader id up) :
    (w.step E (.poll reader id up)).ShowsStored E cfg reader id ↔
      CaughtUp cfg.sources (view cfg reader id w) := by
  have h' : Reading E cfg reader id (w.step E (.poll reader id up)) := h.step ⟨⟨trivial, trivial⟩, trivial⟩
  rw [h'.showsStored_iff, (view_poll h hup).shows_complete_iff]

omit [DecidableEq B] [DecidableEq ι] in
/-- In a blank world nothing is listed. -/
theorem Blank.ahead (h₀ : w.Blank) : Ahead cfg.sources (view cfg reader id w) := by
  intro m _ b _ t ht
  have hnone : w.stamp cfg m b = none := by simp [stamp, h₀.stores b]
  exact absurd (ht.symm.trans hnone) (by simp)

omit [DecidableEq B] [DecidableEq ι] in
theorem Blank.reading (h₀ : w.Blank) {chat : Chat} (hfind : w.chat? reader id = some chat)
    (hc : Holds E cfg (w.apps reader) chat) : Reading E cfg reader id w where
  honest := h₀.honest
  agreed s hs := by rw [h₀.sent] at hs; cases hs
  holds := ⟨chat, hfind, hc⟩

end World

variable {E : Env B} {cfg : ChatConfig B} {reader : ι} {id : JsString} {w₀ : World B ι}

/-- Runs in which fragments are posted above the cursor and polls see whole messages. -/
private theorem showsStored_of_ahead {ok : World B ι → Event B ι → Prop}
    (hok : ∀ w e, ok w e → w.ChannelStep E cfg reader e ∧ w.AheadOfCursor E cfg reader id e ∧
      World.OnPoll reader id (fun up => w.AllUp reader id up ∧ w.Whole E cfg) e)
    (h₀ : w₀.Blank) {chat : Chat} (hfind : w₀.chat? reader id = some chat)
    (hc : Holds E cfg (w₀.apps reader) chat) {es : List (Event B ι)} {up : Server → Bool}
    (hes : Along (World.step E) ok w₀ (es ++ [.poll reader id up])) :
    (run (World.step E) w₀ (es ++ [.poll reader id up])).ShowsStored E cfg reader id := by
  rw [along_concat] at hes
  obtain ⟨hes, hlast⟩ := hes
  have hinv : World.Reading E cfg reader id (run (World.step E) w₀ es) ∧
      Ahead cfg.sources (World.view cfg reader id (run (World.step E) w₀ es)) := by
    refine hes.invariant (fun w => World.Reading E cfg reader id w ∧
      Ahead cfg.sources (World.view cfg reader id w)) ⟨h₀.reading hfind hc, h₀.ahead⟩ ?_
    intro w e hstep ⟨h, hahead⟩
    obtain ⟨hchannel, hpost, hpoll⟩ := hok w e hstep
    exact ⟨h.step hchannel, World.ahead_step h hahead hchannel hpost
      (hpoll.mono fun _ hup _ => hup.2)⟩
  rw [run_concat]
  exact (World.showsStored_poll_iff hinv.1 ((hok _ _ hlast).2.2 rfl rfl).1).mpr hinv.2.caughtUp

/-! ## Skewed clocks -/

/-- **Skewed clocks lose no message** that is posted above the cursor. -/
theorem no_loss_across_skewed_clocks (h₀ : w₀.Blank) {chat : Chat}
    (hfind : w₀.chat? reader id = some chat) (hc : Holds E cfg (w₀.apps reader) chat)
    {es : List (Event B ι)} {up : Server → Bool}
    (hes : Along (World.step E)
      (fun w e => w.SkewedStep E cfg reader id e ∧ w.AheadOfCursor E cfg reader id e) w₀
      (es ++ [.poll reader id up])) :
    (run (World.step E) w₀ (es ++ [.poll reader id up])).ShowsStored E cfg reader id :=
  showsStored_of_ahead (fun _ _ h => ⟨h.1.1, h.2, h.1.2.2⟩) h₀ hfind hc hes

/-- The clock of `https://a` is 90 s ahead of that of `https://b`: the second message is
    fetched from `https://a` only. -/
def skewedRun : List (Event JsString Bool) :=
  [Sample.say true 1, .post 0 0 100, .post 0 1 10, Sample.look,
    Sample.say true 2, .post 1 0 101, .post 1 1 11]

theorem skewed_clocks_lose_a_message :
    Along (World.step Sample.env)
        (fun w e => w.SkewedStep Sample.env Sample.config false Sample.id e)
        Sample.world (skewedRun ++ [Sample.look]) ∧
      ¬ (run (World.step Sample.env) Sample.world (skewedRun ++ [Sample.look])).ShowsStored
        Sample.env Sample.config false Sample.id := by
  decide +kernel

/-- Clocks 1 s apart, and more than that between messages. -/
def tightRun : List (Event JsString Bool) :=
  [Sample.say true 1, .post 0 0 100, .post 0 1 99, Sample.look,
    Sample.say true 2, .post 1 0 103, .post 1 1 102]

theorem no_loss_across_tight_clocks :
    (run (World.step Sample.env) Sample.world (tightRun ++ [Sample.look])).ShowsStored
      Sample.env Sample.config false Sample.id :=
  no_loss_across_skewed_clocks Sample.blank (show _ = some Sample.chat by decide +kernel)
    (by decide +kernel) (by decide +kernel)

/-! ## One clock in whole seconds -/

/-- **Several messages in a second lose none** that is posted above the cursor. -/
theorem no_loss_within_a_second (h₀ : w₀.Blank) {chat : Chat}
    (hfind : w₀.chat? reader id = some chat) (hc : Holds E cfg (w₀.apps reader) chat)
    {es : List (Event B ι)} {up : Server → Bool}
    (hes : Along (World.step E)
      (fun w e => w.GranularStep E cfg reader id e ∧ w.AheadOfCursor E cfg reader id e) w₀
      (es ++ [.poll reader id up])) :
    (run (World.step E) w₀ (es ++ [.poll reader id up])).ShowsStored E cfg reader id :=
  showsStored_of_ahead (fun _ _ h => ⟨h.1.1, h.2, h.1.2.2⟩) h₀ hfind hc hes

/-- The reader polls between two messages of one second. -/
def sameSecondRun : List (Event JsString Bool) :=
  [Sample.say true 1, .post 0 0 100, .post 0 1 100, Sample.look,
    Sample.say true 2, .post 1 0 100, .post 1 1 100]

theorem same_second_loses_a_message :
    Along (World.step Sample.env)
        (fun w e => w.GranularStep Sample.env Sample.config false Sample.id e)
        Sample.world (sameSecondRun ++ [Sample.look]) ∧
      ¬ (run (World.step Sample.env) Sample.world (sameSecondRun ++ [Sample.look])).ShowsStored
        Sample.env Sample.config false Sample.id := by
  decide +kernel

/-- Two messages of one second with the poll after them, and one of the next second. -/
def nextSecondRun : List (Event JsString Bool) :=
  [Sample.say true 1, .post 0 0 100, .post 0 1 100, Sample.say true 2, .post 1 0 100,
    .post 1 1 100, Sample.look, Sample.say true 3, .post 2 0 101, .post 2 1 101]

theorem no_loss_in_next_second :
    (run (World.step Sample.env) Sample.world (nextSecondRun ++ [Sample.look])).ShowsStored
      Sample.env Sample.config false Sample.id :=
  no_loss_within_a_second Sample.blank (show _ = some Sample.chat by decide +kernel)
    (by decide +kernel) (by decide +kernel)

/-! ## Overlapping sends -/

/-- **Overlapping sends lose no message** that is completed above the cursor. -/
theorem no_loss_when_sends_overlap (h₀ : w₀.Blank) {chat : Chat}
    (hfind : w₀.chat? reader id = some chat) (hc : Holds E cfg (w₀.apps reader) chat)
    {es : List (Event B ι)} {up : Server → Bool}
    (hes : Along (World.step E)
      (fun w e => w.OverlapStep E cfg reader id e ∧ w.CompletesAhead E cfg reader id e) w₀
      (es ++ [.poll reader id up])) :
    (run (World.step E) w₀ (es ++ [.poll reader id up])).ShowsStored E cfg reader id := by
  rw [along_concat] at hes
  obtain ⟨hes, hlast⟩ := hes
  have hinv : World.Reading E cfg reader id (run (World.step E) w₀ es) ∧
      CaughtUp cfg.sources (World.view cfg reader id (run (World.step E) w₀ es)) := by
    refine hes.invariant (fun w => World.Reading E cfg reader id w ∧
      CaughtUp cfg.sources (World.view cfg reader id w))
      ⟨h₀.reading hfind hc, h₀.ahead.caughtUp⟩ ?_
    intro w e hstep ⟨h, hcaught⟩
    exact ⟨h.step hstep.1.1, World.caughtUp_step h hcaught hstep.1.1 hstep.2⟩
  rw [run_concat]
  exact (World.showsStored_poll_iff hinv.1 (hlast.1.2.2 rfl rfl)).mpr hinv.2

/-- A message that is half posted at a poll is passed by one that the poll shows. -/
def overtakenRun : List (Event JsString Bool) :=
  [Sample.say true 1, .post 0 0 1, Sample.say true 2, .post 1 0 2, .post 1 1 3, Sample.look,
    .post 0 1 4]

theorem overtaken_message_is_lost :
    Along (World.step Sample.env)
        (fun w e => w.OverlapStep Sample.env Sample.config false Sample.id e)
        Sample.world (overtakenRun ++ [Sample.look]) ∧
      ¬ (run (World.step Sample.env) Sample.world (overtakenRun ++ [Sample.look])).ShowsStored
        Sample.env Sample.config false Sample.id := by
  decide +kernel

/-- A poll between the POSTs of a message that nothing overtakes. -/
def interleavedRun : List (Event JsString Bool) :=
  [Sample.say true 1, Sample.say true 2, .post 0 0 1, .post 1 0 2, Sample.look, .post 0 1 3,
    .post 1 1 4]

theorem no_loss_when_interleaved :
    (run (World.step Sample.env) Sample.world (interleavedRun ++ [Sample.look])).ShowsStored
      Sample.env Sample.config false Sample.id :=
  no_loss_when_sends_overlap Sample.blank (show _ = some Sample.chat by decide +kernel)
    (by decide +kernel) (by decide +kernel)

/-! ## Below the cursor -/

/-- **Lost for good**: a message of another client that does not expire, one fragment of
    which is stored at or below the cursor, is not shown after any further run. -/
theorem lost_for_good {w : World B ι} (h : World.Reading E cfg reader id w) {s : Sent ι}
    (hs : s ∈ w.sent) (hin : s.InChat cfg) (hperm : s.Permanent) (hother : s.client ≠ reader)
    {p : Server × FragmentPost JsString} (hp : p ∈ s.posts) {r : Fragment CString}
    (hr : r ∈ (w.stores (E.backend p.1)).rows) (hid : r.id = cStr (toWire p.2.id))
    (hle : r.timestamp ≤ (w.apps reader).lastSince id)
    (hnew : s.messageId.val ∉ ((w.apps reader).messagesOf id).map Message.id)
    {es : List (Event B ι)} (hes : Along (World.step E) (World.ChannelStep E cfg reader) w es) :
    s.messageId.val ∉
      (((run (World.step E) w es).apps reader).messagesOf id).map Message.id := by
  obtain ⟨j, hj⟩ := List.getElem?_of_mem hp
  have hb := List.mem_of_getElem? (World.getElem?_backends h.agreed hs hin hj)
  -- The invariant of the run: the fragment stays where it is, and the cursor above it.
  let Inv : World B ι → Prop := fun w => World.Reading E cfg reader id w ∧ s ∈ w.sent ∧
    r ∈ (w.stores (E.backend p.1)).rows ∧ r.timestamp ≤ (w.apps reader).lastSince id ∧
    s.messageId ∉ (World.view cfg reader id w).shown
  suffices hinv : Inv (run (World.step E) w es) from hinv.2.2.2.2
  refine hes.invariant Inv ⟨h, hs, hr, hle, hnew⟩ ?_
  rintro w e hok ⟨h, hs, hr, hle, hnew⟩
  obtain ⟨s', j', p', horigin⟩ := h.honest.rows _ r hr
  obtain rfl := horigin.sent_eq h.honest hs hj hid
  have hchat : r.chatId = cStr (toWire cfg.chatId) := hin ▸ (horigin.ids h.honest).2
  have hstamp : w.stamp cfg s'.messageId (E.backend p.1) = some r.timestamp :=
    (World.stamp_eq_some h.honest h.agreed).mpr
      ⟨r, hr, hchat, (horigin.ids h.honest).1, rfl⟩
  have hlost : Lost cfg.sources (World.view cfg reader id w) s'.messageId :=
    ⟨hnew, _, hb, _, hstamp, hle⟩
  have hkeep : r ∈ ((w.step E e).stores (E.backend p.1)).rows := by
    rcases World.mem_rows_step_of_mem (E := E) (e := e) hr with hkeep | ⟨now, -, hpos, -⟩
    · exact hkeep
    · have hzero : r.ttl = 0 := by
        rw [horigin.row]
        exact hperm p' (List.mem_of_getElem? horigin.post)
      omega
  have hcursor : (World.view cfg reader id w).cursor ≤
      (World.view cfg reader id (w.step E e)).cursor := by
    rcases World.view_step h hok with hquiet | ⟨b, t, k, q, now, -, -, -, -, hlisting⟩ |
      ⟨up, -, -, hfetch⟩
    · exact le_of_eq hquiet.cursor.symm
    · exact le_of_eq hlisting.cursor.symm
    · exact hfetch.le_cursor
  refine ⟨h.step hok, World.mem_sent_step hs, hkeep, le_trans hle hcursor, fun hshown => ?_⟩
  rcases World.shown_step h hok hshown with hold | ⟨s, hs', hclient, hsame⟩ | hfetch
  · exact hnew hold
  · obtain rfl := h.honest.eq_of_messageId hs' hs hsame
    exact hother hclient
  · exact hlost.not_fetchable hfetch

end Frag
