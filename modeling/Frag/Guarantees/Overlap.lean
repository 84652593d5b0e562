import Frag.Client.Page
import Frag.System.Reader

/-!
# Overlapping Executions

A poll looks once, when its servers have answered, which messages its chat already has;
a send adds its message only when all its POSTs have settled. In between, another
execution may have taken up the same message. Nothing is shown twice as long as this
does not happen: then the messages of a chat and those taken up for it are distinct.

## Main results

- `no_message_shown_twice`
-/

namespace Frag

open Runs

namespace Page

/-- `generateId()` draws an id that no message of the active chat has. -/
def Fresh (p : Page) : PageEvent → Prop
  | .send _ _ rand => ∀ chat ∈ p.app.getActiveChat, rand.messageId.val ∉ p.ids chat.id
  | _ => True

/-- The servers do not complete a message, with one answer each, that an execution
    has taken up for the polled chat and not added yet. -/
def Timely (p : Page) : PageEvent → Prop
  | .resume k (.answered results) =>
    match p.running[k]? with
    | some (.fetching poll) =>
      (∀ frags ∈ results, ∀ f ∈ frags, f.messageId ∉ inheritedNames) →
        ∀ m ∈ p.running.flatMap (Execution.owes poll.chat.id),
          ∃ frags ∈ results, ∀ f ∈ frags, f.messageId ≠ m
    | _ => True
  | _ => True

instance (p : Page) : ∀ e, Decidable (p.Fresh e)
  | .send _ _ _ => inferInstanceAs (Decidable (∀ chat ∈ p.app.getActiveChat, _))
  | .act _ | .poll _ | .resume _ _ => .isTrue trivial

instance (p : Page) : ∀ e, Decidable (p.Timely e)
  | .resume k (.answered _) =>
    show Decidable (match p.running[k]? with | some (.fetching _) => _ | _ => True) from
      match p.running[k]? with
      | some (.fetching _) => inferInstanceAs (Decidable (_ → ∀ m ∈ List.flatMap _ _, _))
      | some (.importing _) | some (.decrypting _ _ _) | some (.posting _) | none => .isTrue trivial
  | .resume _ .imported | .resume _ .decrypted | .resume _ (.posted _) => .isTrue trivial
  | .act _ | .send _ _ _ | .poll _ => .isTrue trivial

variable {W : WebCrypto} {p : Page} {e : PageEvent}

/-- What an execution takes up is new to the chat and to its other executions. -/
private theorem takes_disjoint {k : Nat} {x : Execution} {r : Settled}
    (hx : p.running[k]? = some x) (hresume : (x.resume W p.app r).isSome)
    (htimely : p.Timely (.resume k r)) (cid : JsString) :
    (x.takes p.app cid r).Nodup ∧ ∀ m ∈ x.takes p.app cid r, m ∉ p.ids cid := by
  -- Only a poll whose servers have answered takes up messages.
  have hnil : ∀ {x r}, Execution.takes p.app cid x r = [] →
      (x.takes p.app cid r).Nodup ∧ ∀ m ∈ x.takes p.app cid r, m ∉ p.ids cid := by
    intro x r h
    rw [h]
    exact ⟨List.nodup_nil, by simp⟩
  cases x with
  | fetching poll =>
    cases r with
    | answered results =>
      by_cases hcid : poll.chat.id = cid
      · subst hcid
        cases hcollect : poll.collect p.app results with
        | none => exact hnil (by simp [Execution.takes, hcollect])
        | some c =>
          obtain ⟨loop, pending⟩ := c
          have hlen : results.length = poll.servers.length := by
            by_contra hne
            simp [Execution.resume, hne] at hresume
          obtain ⟨-, hnodup, hpending⟩ := poll.collect_spec hlen hcollect
          have htakes : (Execution.fetching poll).takes p.app poll.chat.id (.answered results) =
              pending.map PendingMessage.id := by
            simp [Execution.takes, hcollect]
          rw [htakes]
          refine ⟨hnodup, fun m hm => ?_⟩
          obtain ⟨q, hq, rfl⟩ := List.mem_map.mp hm
          obtain ⟨hnew, hall⟩ := hpending q hq
          simp only [Timely, hx] at htimely
          rw [Page.ids, List.mem_append, not_or]
          refine ⟨hnew, fun howed => ?_⟩
          -- A message that is owed is missing from some answer, so it is not complete.
          obtain ⟨frags, hfrags, hnone⟩ := htimely (poll.names_of_collect hcollect) q.id howed
          obtain ⟨f, hf, hid⟩ := hall frags hfrags
          exact hnone f hf hid
      · exact hnil (by simp [Execution.takes, hcid])
    | _ => exact hnil rfl
  | _ => exact hnil rfl

/-- The messages of every chat, and those taken up for it, stay distinct. -/
theorem nodup_ids_step (h : ∀ cid, (p.ids cid).Nodup) (hfresh : p.Fresh e) (htimely : p.Timely e)
    (cid : JsString) : ((p.step W e).ids cid).Nodup := by
  rcases p.ids_step W e cid with hsub | ⟨text, ttl, rand, o, rfl, hsend, hperm⟩ |
    ⟨k, r, x, rfl, hx, hresume, hperm⟩
  · exact (h cid).sublist hsub
  · obtain ⟨hchat, -, hid⟩ := fields_of_sendMessage hsend
    rw [hperm.nodup_iff, List.nodup_append]
    by_cases hcid : o.chat.id = cid
    · subst hcid
      refine ⟨h _, by simp [Execution.owes], ?_⟩
      rintro m hm _ hm' rfl
      rw [Execution.owes, if_pos rfl, List.mem_singleton] at hm'
      exact hfresh _ hchat (hid ▸ hm' ▸ hm)
    · simp [Execution.owes, hcid, h cid]
  · obtain ⟨hnodup, hnew⟩ := takes_disjoint hx hresume htimely cid
    rw [hperm.nodup_iff, List.nodup_append]
    refine ⟨h cid, hnodup, ?_⟩
    rintro m hm _ hm' rfl
    exact hnew m hm' hm

end Page

/-- **No message is shown twice** on a page whose executions are interleaved in any way,
    unless a poll takes up what another execution has yet to add. -/
theorem no_message_shown_twice (W : WebCrypto) (storage : LocalStorage) (identity : JsString)
    {es : List PageEvent}
    (hes : Along (Page.step W) (fun p e => p.Fresh e ∧ p.Timely e) (Page.load storage identity) es)
    (cid : JsString) :
    (((run (Page.step W) (Page.load storage identity) es).app.messagesOf cid).map
      Message.id).Nodup := by
  have hinv : ∀ cid, ((run (Page.step W) (Page.load storage identity) es).ids cid).Nodup := by
    refine hes.invariant (fun p => ∀ cid, (p.ids cid).Nodup) (fun cid => ?_)
      fun p e hok h => Page.nodup_ids_step h hok.1 hok.2
    simp [Page.ids, Page.load, App.messagesOf_init]
  exact (hinv cid).sublist (List.sublist_append_left _ _)

/-- A page on which the chat was set up earlier. -/
def samplePage : Page :=
  .load ⟨some (List.replicate 64 0x62), some Sample.servers, some [Sample.chat]⟩ []

/-- What the servers of the chat answer once a message of another client is stored. -/
def sampleAnswers : List (List (Fragment JsString)) :=
  pollResults samplePage.app Sample.chat ((run (World.step Sample.env) Sample.world
    [Sample.say true 1, .post 0 0 100, .post 0 1 100]).answer Sample.env fun _ => true)

/-- The poll of an interval starts and its servers answer. -/
def answeredPoll : List PageEvent :=
  [.poll Sample.id, .resume 0 .imported, .resume 0 (.answered sampleAnswers)]

/-- Opening the chat polls it while the poll of the interval awaits its answers. -/
def doublePoll : List PageEvent :=
  [.poll Sample.id, .resume 0 .imported, .act (.setActiveChat (some Sample.id)), .poll Sample.id,
    .resume 0 .imported, .resume 0 (.answered sampleAnswers), .resume 1 (.answered sampleAnswers),
    .resume 0 .decrypted, .resume 0 .decrypted]

theorem overlapping_polls_show_a_message_twice :
    Along (Page.step sampleCrypto) (fun p e => p.Fresh e) samplePage doublePoll ∧
      ((run (Page.step sampleCrypto) samplePage doublePoll).app.messagesOf Sample.id).map
        Message.id = [(Sample.messageId 1).val, (Sample.messageId 1).val] := by
  decide +kernel

/-- The second poll takes its snapshot when the first one has ended, and a message is
    sent meanwhile. -/
def interleavedPolls : List PageEvent :=
  [.poll Sample.id, .resume 0 .imported, .act (.setActiveChat (some Sample.id)), .poll Sample.id,
    .resume 0 .imported, .send (js "abc") (some 0) (Sample.draw 2),
    .resume 1 (.answered sampleAnswers), .resume 0 .decrypted,
    .resume 1 (.answered sampleAnswers), .resume 0 (.posted [true, true])]

theorem interleaved_polls_show_messages_once :
    (((run (Page.step sampleCrypto) samplePage interleavedPolls).app.messagesOf Sample.id).map
      Message.id).Nodup :=
  no_message_shown_twice sampleCrypto _ [] (by decide +kernel) Sample.id

end Frag
