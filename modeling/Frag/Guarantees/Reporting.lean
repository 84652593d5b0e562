import Frag.Client.Send
import Frag.Guarantees.Blobs

/-!
# What `sendMessage` Reports and Records

When the POSTs have settled, `sendMessage` returns or throws, adds the message to its chat, and
emits an event. The message is added and the event is emitted before the failures are counted
against the servers: a message that no server took is in the chat, with the status of one that
some servers took.

## Main results

- `reported_iff`: the settlements that are reported and recorded alike.
-/

namespace Frag

/-- The text of the warning. -/
def warningText (failed posted : Nat) : JsString :=
  decimal failed ++ js "/" ++ decimal posted ++ js " servers could not be reached."

/-- A settlement of the POSTs is reported and recorded. -/
structure Outgoing.Reported (o : Outgoing) (app : App) (accepted : List Bool) : Prop where
  ok : (o.settle app accepted).2 = .ok .ok ↔ accepted.countP (· = false) = 0
  warning : ∀ text, (o.settle app accepted).2 = .ok (.warning text) ↔
    0 < accepted.countP (· = false) ∧ accepted.countP (· = false) < accepted.length ∧
      text = warningText (accepted.countP (· = false)) accepted.length
  inPart : 0 < accepted.countP (· = false) → accepted.countP (· = false) < accepted.length →
    ∃ msg, msg.id = o.messageId.val ∧ msg.text = o.text ∧ msg.status = .inPart ∧
      (o.settle app accepted).1.messagesOf o.chat.id = app.messagesOf o.chat.id ++ [msg] ∧
      ∀ id ≠ o.chat.id, (o.settle app accepted).1.messagesOf id = app.messagesOf id
  notSent : accepted.countP (· = false) = accepted.length →
    (∃ text, (o.settle app accepted).2 = .error (.error text)) ∧
      (o.settle app accepted).1.state.messages = app.state.messages ∧
      (o.settle app accepted).1.state.emitted = app.state.emitted

namespace Outgoing

variable {W : WebCrypto} {text : JsString} {ttl : Option Rat} {rand : SendRandom}
  {app : App} {o : Outgoing} {accepted : List Bool}

/-! ## What is returned -/

theorem settle_snd_all (h : accepted.countP (· = false) = o.posts.length) :
    (o.settle app accepted).2 = .error (.of "All servers failed – message not sent") := by
  rw [settle, if_pos h]

theorem settle_snd_some (h : accepted.countP (· = false) ≠ o.posts.length)
    (hsome : 0 < accepted.countP (· = false)) :
    (o.settle app accepted).2 =
      .ok (.warning (warningText (accepted.countP (· = false)) o.posts.length)) := by
  rw [settle, if_neg h, if_pos hsome, warningText]

theorem settle_snd_none (h : accepted.countP (· = false) ≠ o.posts.length)
    (hnone : accepted.countP (· = false) = 0) : (o.settle app accepted).2 = .ok .ok := by
  rw [settle, if_neg h, if_neg (Nat.not_lt.mpr (Nat.le_of_eq hnone))]

/-! ## What is recorded -/

theorem messagesOf_settle (id : JsString) :
    (o.settle app accepted).1.messagesOf id =
      if id = o.chat.id then app.messagesOf id ++ [o.message app accepted] else app.messagesOf id := by
  rw [settle_fst, App.messagesOf_emit, App.pushMessage, App.messagesOf_setMessages]
  split
  · rename_i heq
    rw [heq]
  · rfl

/-- A settlement always shows in the messages. -/
theorem messages_settle_ne : (o.settle app accepted).1.state.messages ≠ app.state.messages := by
  intro heq
  have hsame : (o.settle app accepted).1.messagesOf o.chat.id = app.messagesOf o.chat.id := by
    rw [App.messagesOf, heq, App.messagesOf]
  rw [messagesOf_settle, if_pos rfl] at hsame
  simp at hsame

/-- Some POST was taken iff not all of them failed. -/
theorem countP_lt_iff : accepted.countP (· = false) < accepted.length ↔ true ∈ accepted := by
  rw [List.countP_lt_length_iff]
  simp

theorem reported_of_mem (hlength : accepted.length = o.posts.length) (hmem : true ∈ accepted) :
    o.Reported app accepted := by
  have hlt := countP_lt_iff.mpr hmem
  have hne : accepted.countP (· = false) ≠ o.posts.length := hlength ▸ Nat.ne_of_lt hlt
  -- What is returned is settled by whether a POST failed.
  have hresult : 0 < accepted.countP (· = false) ∧ (o.settle app accepted).2 =
        .ok (.warning (warningText (accepted.countP (· = false)) accepted.length)) ∨
      accepted.countP (· = false) = 0 ∧ (o.settle app accepted).2 = .ok .ok := by
    rcases Nat.eq_zero_or_pos (accepted.countP (· = false)) with hnone | hsome
    · exact .inr ⟨hnone, settle_snd_none hne hnone⟩
    · exact .inl ⟨hsome, hlength ▸ settle_snd_some hne hsome⟩
  constructor
  · rcases hresult with ⟨hsome, hresult⟩ | ⟨hnone, hresult⟩
    · rw [hresult]
      exact ⟨fun h => (nomatch h), fun hnone => absurd hnone (Nat.ne_of_gt hsome)⟩
    · exact ⟨fun _ => hnone, fun _ => hresult⟩
  · intro text
    rcases hresult with ⟨hsome, hresult⟩ | ⟨hnone, hresult⟩
    · rw [hresult, Except.ok.injEq, SendResult.warning.injEq]
      exact ⟨fun h => ⟨hsome, hlt, h.symm⟩, fun h => h.2.2.symm⟩
    · rw [hresult]
      exact ⟨fun h => (nomatch h), fun h => absurd hnone (Nat.ne_of_gt h.1)⟩
  · intro hsome _
    refine ⟨o.message app accepted, rfl, rfl, if_pos (Nat.ne_of_gt hsome), ?_, ?_⟩
    · rw [messagesOf_settle, if_pos rfl]
    · intro id hid
      rw [messagesOf_settle, if_neg hid]
  · exact fun hall => absurd hall (Nat.ne_of_lt hlt)

/-- The POSTs are one for each server of the chat. -/
theorem length_posts {sender : App} {chat : Chat} (hchat : sender.getActiveChat = some chat)
    (hsend : sendMessage W sender text ttl rand = .ok o) :
    o.posts.length = (sender.resolveServers chat.serverIds).length := by
  obtain ⟨chat', _, _, hchat', -, -, -, rfl⟩ := sendMessage_eq_ok hsend
  obtain rfl : chat' = chat := Option.some.inj (hchat'.symm.trans hchat)
  rw [List.length_map, List.length_zipIdx]

/-- **`sendMessage` reports and records what happened** iff a server took its part of the
    message. There is one POST for each server of the chat, and they may settle in any later
    state of the application. -/
theorem reported_iff {sender : App} {chat : Chat} (hchat : sender.getActiveChat = some chat)
    (hsend : sendMessage W sender text ttl rand = .ok o)
    (hlength : accepted.length = (sender.resolveServers chat.serverIds).length) :
    o.Reported app accepted ↔ true ∈ accepted := by
  constructor
  · intro hreported
    by_contra hnone
    -- The message is added although no server took a part of it.
    have hall : accepted.countP (· = false) = accepted.length := by
      apply Nat.le_antisymm List.countP_le_length
      exact Nat.not_lt.mp (mt countP_lt_iff.mp hnone)
    exact messages_settle_ne (hreported.notSent hall).2.1
  · apply reported_of_mem
    rw [hlength, length_posts hchat hsend]

theorem one_of_two_is_reported :
    ∃ o, greetingTo 2 = .ok o ∧ o.Reported (chatOf 2) [true, false] := by
  have hsizes : (chunkSizes (greetingTo 2)).length = 2 := by decide +kernel
  obtain ⟨o, hsent, -⟩ := exists_of_chunkSizes hsizes
  refine ⟨o, hsent, (reported_iff rfl hsent ?_).mpr List.mem_cons_self⟩
  decide +kernel

/-- Both servers fail: the message is in the chat as one that was delivered in part, and the
    event is emitted. -/
theorem failed_message_is_recorded :
    ∃ o, greetingTo 2 = .ok o ∧
      (o.settle (chatOf 2) [false, false]).2 =
        .error (.of "All servers failed – message not sent") ∧
      (o.settle (chatOf 2) [false, false]).1.messagesOf o.chat.id =
        (chatOf 2).messagesOf o.chat.id ++ [o.message (chatOf 2) [false, false]] ∧
      (o.message (chatOf 2) [false, false]).status = .inPart ∧
      (o.settle (chatOf 2) [false, false]).1.state.emitted ≠ (chatOf 2).state.emitted := by
  have hsizes : (chunkSizes (greetingTo 2)).length = 2 := by decide +kernel
  obtain ⟨o, hsent, htwo⟩ := exists_of_chunkSizes hsizes
  refine ⟨o, hsent, ?_, ?_, rfl, ?_⟩
  · exact settle_snd_all htwo.symm
  · rw [messagesOf_settle, if_pos rfl]
  · rw [settle_fst]
    simp [App.emit, App.pushMessage, App.setMessages]

end Outgoing

end Frag
