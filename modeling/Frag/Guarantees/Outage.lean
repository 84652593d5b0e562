import Frag.Guarantees.Clocks

/-!
# Server Outages

Members post messages one after another, each under one timestamp, later messages under
later ones. At every poll of the reader any servers may fail to answer. A poll that
misses a server changes nothing; a poll that all servers answer leaves every message
sent so far on display exactly once, with its sender.

What makes this work is that the cursor only ever sits at the timestamp of a message
that is shown (`Anchored`), and whatever is not shown is listed above it (`Ahead`).

## Main results

- `outage_recovery`
-/

namespace Frag

open Runs HighWater

variable {B ι : Type} [DecidableEq B] [DecidableEq ι]

namespace World

/-- The other messages of the chat were posted before `now`. -/
def OthersBefore (E : Env B) (cfg : ChatConfig B) (w : World B ι) (s : Sent ι) (now : Int) :
    Prop :=
  ∀ s' ∈ w.sent, s'.InChat cfg → s'.messageId ≠ s.messageId → w.StampedAt E s' fun t => t < now

instance (E : Env B) (cfg : ChatConfig B) (w : World B ι) (s : Sent ι) (now : Int) :
    Decidable (w.OthersBefore E cfg s now) :=
  inferInstanceAs (Decidable (∀ s' ∈ w.sent, s'.InChat cfg → _ → _))

/-- A message of the chat is posted under one positive timestamp, between the others
    and later than they were. -/
def PostsInTurn (E : Env B) (cfg : ChatConfig B) (w : World B ι) : Event B ι → Prop :=
  w.OnPost fun s _ now => s.InChat cfg → 0 < now ∧ w.StampedAt E s (fun t => t = now) ∧
    w.OthersWhole E cfg s ∧ w.OthersBefore E cfg s now

instance (E : Env B) (cfg : ChatConfig B) (w : World B ι) (e : Event B ι) :
    Decidable (w.PostsInTurn E cfg e) :=
  inferInstanceAs (Decidable (w.OnPost _ e))

/-- Other clients send without expiry, one message after another. The reader polls
    between messages, and any of its servers may fail to answer. -/
def OutageStep (E : Env B) (cfg : ChatConfig B) (reader : ι) (id : JsString) (w : World B ι)
    (e : Event B ι) : Prop :=
  w.ChannelStep E cfg reader e ∧
    w.OnSend (fun i chat _ ttl =>
      i ≠ reader ∧ (chat.chatId = cfg.chatId → resolveTtl ttl = 0)) e ∧
    w.PostsInTurn E cfg e ∧ OnPoll reader id (fun _ => w.Whole E cfg) e

instance (E : Env B) (cfg : ChatConfig B) (reader : ι) (id : JsString) (w : World B ι)
    (e : Event B ι) : Decidable (w.OutageStep E cfg reader id e) :=
  inferInstanceAs (Decidable (_ ∧ w.OnSend _ e ∧ _ ∧ OnPoll reader id _ e))

/-- What such runs keep. -/
structure Outage (E : Env B) (cfg : ChatConfig B) (reader : ι) (id : JsString)
    (w : World B ι) : Prop where
  reading : Reading E cfg reader id w
  kept : w.Kept E
  others : ∀ s ∈ w.sent, s.client ≠ reader
  permanent : ∀ s ∈ w.sent, s.InChat cfg → s.Permanent
  ahead : Ahead cfg.sources (view cfg reader id w)
  anchored : Anchored cfg.sources 0 (view cfg reader id w)
  nodup : (((w.apps reader).messagesOf id).map Message.id).Nodup
  shown : ∀ msg ∈ (w.apps reader).messagesOf id, ∃ s ∈ w.sent, s.InChat cfg ∧
    s.messageId.val = msg.id ∧ s.senderHash = msg.senderHash ∧ w.Stored E s

variable {E : Env B} {cfg : ChatConfig B} {reader : ι} {id : JsString} {w : World B ι}
  {e : Event B ι}

theorem Outage.stamp_step (h : Outage E cfg reader id w) (hok : w.ChannelStep E cfg reader e)
    {m : Uuid} {b : B} {t : Int} (ht : w.stamp cfg m b = some t) :
    (w.step E e).stamp cfg m b = some t := by
  have h' := h.reading.step hok
  obtain ⟨r, hr, hchat, hm, rfl⟩ := (stamp_eq_some h.reading.honest h.reading.agreed).mp ht
  exact (stamp_eq_some h'.honest h'.agreed).mpr ⟨r,
    mem_rows_step_of_permanent h.reading.honest h.permanent hr hchat, hchat, hm, rfl⟩

theorem Outage.stored_step (h : Outage E cfg reader id w) {s : Sent ι} (hs : s ∈ w.sent)
    (hin : s.InChat cfg) (hstored : w.Stored E s) : (w.step E e).Stored E s := by
  intro p hp
  obtain ⟨j, hj⟩ := List.getElem?_of_mem hp
  exact World.stored_step h.reading.honest hs (h.permanent s hs hin) hj (hstored p hp)

omit [DecidableEq B] [DecidableEq ι] in
/-- Posts are above the cursor: it sits at an earlier message, which is shown. -/
theorem Outage.aheadOfCursor (h : Outage E cfg reader id w)
    (hok : w.OutageStep E cfg reader id e) : w.AheadOfCursor E cfg reader id e := by
  obtain ⟨-, -, hpost, -⟩ := hok
  cases e with
  | post k j now =>
    rintro ⟨s, p⟩ hreq hin hnew
    obtain ⟨hpos, hsame, -, hothers⟩ := hpost _ hreq hin
    obtain ⟨hs, hp⟩ := request_eq_some.mp hreq
    have hs := List.mem_of_getElem? hs
    show (view cfg reader id w).cursor < now
    rcases h.anchored with heq | ⟨m, b, hb, ht⟩
    · rw [heq]
      exact hpos
    · obtain ⟨s', hs', hin', rfl⟩ := h.reading.exists_sent ht
      obtain ⟨j', p', hj', rfl⟩ := exists_post h.reading.agreed hs' hin' hb
      have hp' := List.mem_of_getElem? hj'
      obtain ⟨r, hr, hid, hstamp⟩ := exists_row_of_stamp h.reading.honest h.reading.agreed hs' hin'
        hp' ht
      rw [← hstamp]
      by_cases hself : s'.messageId = s.messageId
      · obtain rfl := h.reading.honest.eq_of_messageId hs' hs hself
        -- The message is not complete, hence not shown, hence above the cursor.
        have hunshown : s'.messageId ∉ (view cfg reader id w).shown := by
          intro hshown
          obtain ⟨msg, hmsg, hmid⟩ := List.mem_map.mp hshown
          obtain ⟨s, hs, -, hid, -, hstored⟩ := h.shown msg hmsg
          obtain rfl := h.reading.honest.eq_of_messageId hs hs' (Uuid.ext (hid.trans hmid))
          exact hnew (hstored p (List.mem_of_getElem? hp))
        have hlt := h.ahead _ hunshown _ hb _ ht
        rw [hstamp] at *
        exact absurd hlt (lt_irrefl _)
      · exact hothers s' hs' hin' hself p' hp' r hr hid
  | _ => trivial

/-- The reader's messages change by its polls of the chat only. -/
theorem Outage.messages_step (h : Outage E cfg reader id w) (hok : w.ChannelStep E cfg reader e) :
    ((w.step E e).apps reader).messagesOf id = (w.apps reader).messagesOf id ∨
      ∃ up chat, e = .poll reader id up ∧ w.chat? reader id = some chat ∧
        (w.step E e).apps reader = pollChat E.crypto (w.apps reader) chat (w.answer E up) := by
  rcases apps_step hok with heq | ⟨s, hs, -, hclient, -⟩ | ⟨id', up, chat, rfl, hfind, heq⟩
  · exact .inl (by rw [heq])
  · exact absurd hclient (h.others s hs)
  · by_cases hsame : id' = id
    · subst hsame
      exact .inr ⟨up, chat, rfl, hfind, heq⟩
    · refine .inl ?_
      rw [heq, messagesOf_pollChat_ne]
      exact fun he => hsame ((chat?_some hfind).1.symm.trans he.symm)

omit [DecidableEq B] [DecidableEq ι] in
/-- A message that a poll appends is a stored one of the chat, with its sender. -/
theorem Outage.of_mem_pendingOf (h : Outage E cfg reader id w) {chat : Chat}
    (hfind : w.chat? reader id = some chat) {up : Server → Bool} {p : PendingMessage}
    (hp : p ∈ pendingOf (w.apps reader) chat (w.answer E up)) :
    ∃ s ∈ w.sent, s.InChat cfg ∧ s.messageId.val = p.id ∧ s.senderHash = p.sender ∧
      w.Stored E s := by
  obtain ⟨chat', hfind', hc⟩ := h.reading.holds
  obtain rfl : chat = chat' := Option.some.inj (hfind.symm.trans hfind')
  have hw := h.reading.honest
  have ha := h.reading.agreed
  have hup : ∀ server ∈ (w.apps reader).resolveServers chat.serverIds, up server = true := by
    intro server hserver
    by_contra hdown
    rw [hw.pendingOf_eq_nil hserver (by simpa using hdown)] at hp
    cases hp
  obtain ⟨m, hm, -, hfetch⟩ := (mem_ids_pendingOf hw ha hc hup).mp
    (List.mem_map_of_mem (f := PendingMessage.id) hp)
  obtain ⟨b, hb⟩ := List.exists_mem_of_ne_nil _ cfg.backends_ne
  obtain ⟨t, ht, -⟩ := hfetch b hb
  obtain ⟨s, hs, hin, rfl⟩ := h.reading.exists_sent ht
  refine ⟨s, hs, hin, hm.symm, ?_, ?_⟩
  · exact (hw.sender_of_pending hp hs hm).symm
  · refine (stored_iff_complete hw ha hs hin).mpr fun b hb => ?_
    obtain ⟨t, ht, -⟩ := hfetch b hb
    exact ⟨t, ht⟩

/-- **The invariant of outages.** -/
theorem Outage.step (h : Outage E cfg reader id w) (hok : w.OutageStep E cfg reader id e) :
    Outage E cfg reader id (w.step E e) := by
  -- A message that is new to the world is another client's.
  have hnewSent : ∀ s ∈ (w.step E e).sent, s ∈ w.sent ∨ s.client ≠ reader ∧
      (s.InChat cfg → s.Permanent) := by
    intro s hs
    rcases sent_step E w e with heq | ⟨i, text, ttl, rand, o, rfl, ho, heq⟩
    · exact .inl (heq ▸ hs)
    · rw [heq, List.mem_append, List.mem_singleton] at hs
      rcases hs with hs | rfl
      · exact .inl hs
      · obtain ⟨hother, hsend⟩ := hok.2.1 _ (fields_of_sendMessage ho).1
        exact .inr ⟨hother, fun hin => Sent.permanent_of_sendMessage ho (hsend hin) i _⟩
  refine ⟨h.reading.step hok.1, h.kept.step h.reading.honest hok.1.1.1, ?_, ?_, ?_, ?_, ?_, ?_⟩
  · intro s hs
    exact (hnewSent s hs).elim (h.others s) And.left
  · intro s hs hin
    exact (hnewSent s hs).elim (fun hs => h.permanent s hs hin) fun hnew => hnew.2 hin
  · exact ahead_step h.reading h.ahead hok.1 (h.aheadOfCursor hok)
      (hok.2.2.2.mono fun _ hwhole _ => hwhole)
  · rcases view_step h.reading hok.1 with hquiet | ⟨b, s, j, p, now, -, -, -, -, hlisting⟩ |
      ⟨up, -, -, hfetch⟩
    · exact h.anchored.keep (fun m b _ t ht => h.stamp_step hok.1 ht) hquiet.cursor
    · exact h.anchored.keep (fun m b _ t ht => h.stamp_step hok.1 ht) hlisting.cursor
    · exact h.anchored.fetch hfetch
  · rcases h.messages_step hok.1 with heq | ⟨up, chat, rfl, hfind, heq⟩
    · rw [heq]
      exact h.nodup
    · obtain ⟨rfl, -⟩ := chat?_some hfind
      rw [heq]
      exact nodup_ids_pollChat h.nodup
  · have hold : ∀ msg ∈ (w.apps reader).messagesOf id, ∃ s ∈ (w.step E e).sent, s.InChat cfg ∧
        s.messageId.val = msg.id ∧ s.senderHash = msg.senderHash ∧ (w.step E e).Stored E s := by
      intro msg hmsg
      obtain ⟨s, hs, hin, hid, hsender, hstored⟩ := h.shown msg hmsg
      exact ⟨s, mem_sent_step hs, hin, hid, hsender, h.stored_step hs hin hstored⟩
    rcases h.messages_step hok.1 with heq | ⟨up, chat, rfl, hfind, heq⟩
    · rw [heq]
      exact hold
    · obtain ⟨rfl, -⟩ := chat?_some hfind
      obtain ⟨new, happ, hnew⟩ := messagesOf_pollChat_append E.crypto (w.apps reader) chat
        (w.answer E up)
      rw [heq, happ]
      intro msg hmsg
      rcases List.mem_append.mp hmsg with hmsg | hmsg
      · exact hold msg hmsg
      · obtain ⟨key, -, p, hp, rfl⟩ := hnew msg hmsg
        obtain ⟨s, hs, hin, hid, hsender, hstored⟩ := h.of_mem_pendingOf hfind hp
        exact ⟨s, mem_sent_step hs, hin, hid, hsender, h.stored_step hs hin hstored⟩

end World

private theorem filter_eq_singleton {α β : Type} [DecidableEq β] {f : α → β} {l : List α} {a : α}
    (hl : (l.map f).Nodup) (ha : a ∈ l) : l.filter (fun x => f x = f a) = [a] := by
  induction l with
  | nil => cases ha
  | cons x l ih =>
    obtain ⟨hx, hl⟩ := List.nodup_cons.mp hl
    rcases List.mem_cons.mp ha with rfl | ha
    · have hnone : l.filter (fun y => f y = f a) = [] := by
        refine List.filter_eq_nil_iff.mpr fun y hy heq => hx ?_
        exact List.mem_map.mpr ⟨y, hy, by simpa using heq⟩
      simp [hnone]
    · have hne : f x ≠ f a := fun heq => hx (heq ▸ List.mem_map_of_mem ha)
      simp [hne, ih hl ha]

/-- **Messages missed during an outage are delivered** by the next poll that all servers
    answer: every message sent so far is shown exactly once, with its sender. A poll
    that misses a server changes neither the messages nor the cursor. -/
theorem outage_recovery {E : Env B} {cfg : ChatConfig B} {reader : ι} {id : JsString}
    {w₀ : World B ι} (h₀ : w₀.Blank) {chat : Chat} (hfind : w₀.chat? reader id = some chat)
    (hc : Holds E cfg (w₀.apps reader) chat) (hsince : (w₀.apps reader).lastSince id = 0)
    (hnone : (w₀.apps reader).messagesOf id = []) {es : List (Event B ι)} {up : Server → Bool}
    (hes : Along (World.step E) (World.OutageStep E cfg reader id) w₀
      (es ++ [.poll reader id up])) :
    let w := run (World.step E) w₀ es
    let w' := run (World.step E) w₀ (es ++ [.poll reader id up])
    (w.AllUp reader id up → ∀ s ∈ w.sent, s.InChat cfg → s.Accepted w →
      (((w'.apps reader).messagesOf id).filter fun msg => msg.id = s.messageId.val).map
        Message.senderHash = [s.senderHash]) ∧
    (¬ w.AllUp reader id up →
      (w'.apps reader).messagesOf id = (w.apps reader).messagesOf id ∧
        (w'.apps reader).lastSince id = (w.apps reader).lastSince id) := by
  intro w w'
  rw [along_concat] at hes
  have h : World.Outage E cfg reader id w := by
    refine hes.1.invariant _ ?_ fun _ _ hok h => h.step hok
    refine ⟨h₀.reading hfind hc, ?_, ?_, ?_, h₀.ahead, .inl hsince, ?_, ?_⟩
    · intro s hs
      rw [h₀.sent] at hs
      cases hs
    · simp [h₀.sent]
    · simp [h₀.sent]
    · rw [hnone]
      exact List.nodup_nil
    · simp [hnone]
  have hw' : w' = w.step E (.poll reader id up) := run_concat _ _ _
  have h' : World.Outage E cfg reader id w' := hw' ▸ h.step hes.2
  constructor
  · intro hup s hs hin hacc
    have hstored : w.Stored E s := (World.accepted_iff_stored h.reading.honest h.kept
      h.reading.agreed hs hin (h.permanent s hs hin)).mp hacc
    have hshown : s.messageId.val ∈ ((w'.apps reader).messagesOf id).map Message.id := by
      rw [hw']
      exact (World.showsStored_poll_iff h.reading hup).mpr h.ahead.caughtUp s
        (World.mem_sent_step hs) hin (h.stored_step hs hin hstored)
    obtain ⟨msg, hmsg, hid⟩ := List.mem_map.mp hshown
    -- The ids that are shown are distinct, so there is no other message with this one.
    rw [← hid, filter_eq_singleton h'.nodup hmsg, List.map_singleton]
    obtain ⟨s', hs', -, hid', hsender, -⟩ := h'.shown msg hmsg
    obtain rfl := h'.reading.honest.eq_of_messageId hs' (hw' ▸ World.mem_sent_step hs)
      (Uuid.ext (hid'.trans hid))
    rw [hsender]
  · -- A server is missing, so the poll finds no complete message.
    intro hdown
    simp only [World.AllUp, Option.mem_def, not_forall] at hdown
    obtain ⟨chat', hfind', server, hserver, hup⟩ := hdown
    obtain ⟨rfl, -⟩ := World.chat?_some hfind'
    obtain ⟨hmsgs, hsetup⟩ := pollChat_of_pendingOf_eq_nil (W := E.crypto)
      (h.reading.honest.pendingOf_eq_nil hserver (by simpa using hup))
    have happ : w'.apps reader =
        pollChat E.crypto (w.apps reader) chat' (w.answer E up) := by
      rw [hw']
      simp only [World.step, hfind', Function.update_self]
    rw [happ]
    exact ⟨hmsgs _, hsetup.lastSince _⟩

/-- The second backend is down for a poll; the next poll recovers. -/
def outageRun : List (Event JsString Bool) :=
  [Sample.say true 1, .post 0 0 5, .post 0 1 5,
    .poll false Sample.id (fun server => server.url = js "https://a"),
    Sample.say true 2, .post 1 0 6, .post 1 1 6]

theorem outage_sample :
    let w := run (World.step Sample.env) Sample.world outageRun
    let w' := run (World.step Sample.env) Sample.world (outageRun ++ [Sample.look])
    (w.AllUp false Sample.id (fun _ => true) → ∀ s ∈ w.sent, s.InChat Sample.config →
      s.Accepted w →
      (((w'.apps false).messagesOf Sample.id).filter fun msg => msg.id = s.messageId.val).map
        Message.senderHash = [s.senderHash]) ∧
    (¬ w.AllUp false Sample.id (fun _ => true) →
      (w'.apps false).messagesOf Sample.id = (w.apps false).messagesOf Sample.id ∧
        (w'.apps false).lastSince Sample.id = (w.apps false).lastSince Sample.id) :=
  outage_recovery Sample.blank (show _ = some Sample.chat by decide +kernel) (by decide +kernel)
    (by decide +kernel) (by decide +kernel) (by decide +kernel)

end Frag
