import Frag.System.Acceptance

/-!
# A Joining Client Receives Everything

Members send in a chat; their POSTs are lost, delayed, repeated and interleaved at the
backends. A client that joins with the configuration and polls once shows exactly the
messages all of whose POSTs were accepted, with the texts that were sent.

## Main results

- `joining_client_receives_everything`
-/

namespace Frag

open Runs

variable {B ι : Type} [DecidableEq B] [DecidableEq ι]

/-- The events of the members: they send plain text without expiry, and the clocks of
    the backends are positive. -/
def MemberStep (E : Env B) (cfg : ChatConfig B) (w : World B ι) (e : Event B ι) : Prop :=
  w.SendStep E cfg e ∧
    w.OnSend (fun _ chat text ttl => chat.chatId = cfg.chatId →
      PlainText text ∧ resolveTtl ttl = 0) e ∧
    w.OnPost (fun _ _ now => 0 < now) e

instance (E : Env B) (cfg : ChatConfig B) (w : World B ι) (e : Event B ι) :
    Decidable (MemberStep E cfg w e) :=
  inferInstanceAs (Decidable (_ ∧ w.OnSend _ e ∧ w.OnPost _ e))

/-- What member events keep. -/
structure MembersOnly (E : Env B) (cfg : ChatConfig B) (w : World B ι) : Prop where
  honest : w.Honest E
  agreed : w.Agreed E cfg
  kept : w.Kept E
  sent : ∀ s ∈ w.sent, s.InChat cfg → PlainText s.outgoing.text ∧ s.Permanent
  positive : w.Positive

variable {E : Env B} {cfg : ChatConfig B} {w : World B ι} {e : Event B ι}

omit [DecidableEq B] [DecidableEq ι] in
theorem MembersOnly.blank (h : w.Blank) : MembersOnly E cfg w where
  honest := h.honest
  agreed s hs := by rw [h.sent] at hs; cases hs
  kept s hs := by rw [h.sent] at hs; cases hs
  sent s hs := by rw [h.sent] at hs; cases hs
  positive b r hr := by rw [h.stores b] at hr; cases hr

theorem MembersOnly.step (h : MembersOnly E cfg w) (hok : MemberStep E cfg w e) :
    MembersOnly E cfg (w.step E e) where
  honest := h.honest.step hok.1.1
  agreed := h.agreed.step hok.1
  kept := h.kept.step h.honest hok.1.1
  sent := by
    rcases World.sent_step E w e with heq | ⟨i, text, ttl, rand, o, rfl, ho, heq⟩
    · rw [heq]
      exact h.sent
    · intro s hs hin
      rw [heq, List.mem_append, List.mem_singleton] at hs
      rcases hs with hs | rfl
      · exact h.sent s hs hin
      · obtain ⟨hchat, htext, -⟩ := fields_of_sendMessage ho
        obtain ⟨hplain, httl⟩ := hok.2.1 _ hchat hin
        exact ⟨htext ▸ hplain, Sent.permanent_of_sendMessage ho httl i _⟩
  positive := h.positive.step hok.2.2

omit [DecidableEq B] [DecidableEq ι] in
/-- From the start of the cursor, complete messages are the ones that can be fetched. -/
private theorem fetchable_iff_complete (h : MembersOnly E cfg w) {app : App} {id : JsString}
    (hsince : app.lastSince id = 0) {m : Uuid} :
    HighWater.Fetchable cfg.sources (w.board cfg app id) m ↔
      HighWater.Complete cfg.sources (w.board cfg app id) m := by
  constructor
  · intro hfetch b hb
    obtain ⟨t, ht, -⟩ := hfetch b hb
    exact ⟨t, ht⟩
  · intro hcomplete b hb
    obtain ⟨t, ht⟩ := hcomplete b hb
    obtain ⟨r, hr, -, -, rfl⟩ := (World.stamp_eq_some h.honest h.agreed).mp ht
    refine ⟨r.timestamp, ht, ?_⟩
    show app.lastSince id < r.timestamp
    rw [hsince]
    exact h.positive b r hr

/-- **A joining client receives everything**: exactly one message for each message of
    the chat whose POSTs were all accepted, with the text that was sent. -/
theorem joining_client_receives_everything (hW : E.crypto.Lawful) {w₀ : World B ι}
    (h₀ : w₀.Blank) {es : List (Event B ι)}
    (hes : Along (World.step E) (MemberStep E cfg) w₀ es)
    {app : App} {chat : Chat} (hc : Holds E cfg app chat) (hsince : app.lastSince chat.id = 0)
    (hnone : app.messagesOf chat.id = []) :
    let w := run (World.step E) w₀ es
    let msgs := (pollChat E.crypto app chat (w.answer E fun _ => true)).messagesOf chat.id
    (msgs.map Message.id).Nodup ∧
      (∀ id, id ∈ msgs.map Message.id ↔
        ∃ s ∈ w.sent, s.InChat cfg ∧ s.messageId.val = id ∧ s.Accepted w) ∧
      ∀ msg ∈ msgs, ∀ s ∈ w.sent, s.messageId.val = msg.id → msg.text = s.outgoing.text := by
  intro w msgs
  have h : MembersOnly E cfg w := hes.invariant _ (.blank h₀) fun _ _ hok h => h.step hok
  have hids : msgs.map Message.id =
      (pendingOf app chat (w.answer E fun _ => true)).map PendingMessage.id := by
    rw [ids_pollChat, hnone, List.map_nil, List.nil_append]
  have hexact : ∀ id, id ∈ msgs.map Message.id ↔
      ∃ s ∈ w.sent, s.InChat cfg ∧ s.messageId.val = id ∧ s.Accepted w := by
    intro id
    rw [hids, World.mem_ids_pendingOf h.honest h.agreed hc fun _ _ => rfl]
    simp only [fetchable_iff_complete h hsince]
    constructor
    · rintro ⟨m, rfl, -, hcomplete⟩
      obtain ⟨b, hb⟩ := List.exists_mem_of_ne_nil _ cfg.backends_ne
      obtain ⟨t, ht⟩ := hcomplete b hb
      obtain ⟨r, hr, hchat, hm, -⟩ := (World.stamp_eq_some h.honest h.agreed).mp ht
      obtain ⟨s, j, p, horigin⟩ := h.honest.rows b r hr
      obtain rfl := horigin.messageId_eq h.honest hm
      have hin := horigin.inChat h.honest hchat
      refine ⟨s, horigin.sent, hin, rfl, ?_⟩
      rw [World.accepted_iff_stored h.honest h.kept h.agreed horigin.sent hin
        (h.sent s horigin.sent hin).2, World.stored_iff_complete h.honest h.agreed horigin.sent hin]
      exact hcomplete
    · rintro ⟨s, hs, hin, rfl, hacc⟩
      refine ⟨s.messageId, rfl, by simp [World.board, hnone], ?_⟩
      rw [World.accepted_iff_stored h.honest h.kept h.agreed hs hin (h.sent s hs hin).2,
        World.stored_iff_complete h.honest h.agreed hs hin] at hacc
      exact hacc
  refine ⟨hids ▸ nodup_pendingOf _ _ _, hexact, fun msg hmsg s hs hid => ?_⟩
  -- The message of an appended id is in the chat: ids are not shared.
  obtain ⟨s', hs', hin, hid', -⟩ := (hexact msg.id).mp (List.mem_map_of_mem hmsg)
  obtain rfl : s = s' := h.honest.eq_of_messageId hs hs' (Uuid.ext (hid.trans hid'.symm))
  obtain ⟨key, -, hkey, -⟩ := (h.honest.genuine s hs).encrypted
  obtain ⟨hsame, hback⟩ := h.agreed s hs hin
  rw [hsame, ← hc.keyB64] at hkey
  have hmsgs : msgs = (pendingOf app chat (w.answer E fun _ => true)).map
      (receivedBy E.crypto chat key) := by
    rw [← List.nil_append (List.map _ _), ← hnone]
    exact messagesOf_pollChat hkey
  rw [hmsgs] at hmsg
  obtain ⟨p, hp, rfl⟩ := List.mem_map.mp hmsg
  have hchunks : p.chunks = s.outgoing.payloads := h.honest.chunks_of_pending hp hs hid.symm
    (hc.backends.trans hback.symm) (hback ▸ cfg.distinct)
  exact (h.honest.genuine s hs).text_receivedBy hW (h.sent s hs hin).1 hkey
    (hc.keyB64.trans hsame.symm) (by rw [hchunks])

/-- A message that both backends accept and one that only the first backend accepts. -/
def joiningRun : List (Event JsString Bool) :=
  [Sample.say true 1, Sample.say true 2, .post 0 1 7, .post 1 0 8, .post 0 0 9]

theorem joining_sample :
    let w := run (World.step Sample.env) Sample.world joiningRun
    let msgs := (pollChat sampleCrypto (Sample.app []) Sample.chat
      (w.answer Sample.env fun _ => true)).messagesOf Sample.id
    (msgs.map Message.id).Nodup ∧
      (∀ id, id ∈ msgs.map Message.id ↔
        ∃ s ∈ w.sent, s.InChat Sample.config ∧ s.messageId.val = id ∧ s.Accepted w) ∧
      ∀ msg ∈ msgs, ∀ s ∈ w.sent, s.messageId.val = msg.id → msg.text = s.outgoing.text :=
  joining_client_receives_everything sampleCrypto_lawful Sample.blank (by decide +kernel)
    (show Holds Sample.env Sample.config (Sample.app []) Sample.chat by decide +kernel)
    (by decide +kernel) (by decide +kernel)

end Frag
