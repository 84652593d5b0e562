import Frag.Client.Network
import Frag.Client.Send
import Frag.System.Reader

/-!
# What a Fragment Tells Its Server

The fields `fragment_index` and `total_fragments` are left out of a fragment, so that no
server learns its position or the number of servers. The number of servers is indeed in no
field but the payload. The position is: it is the number at the end of the fragment id.

## Main results

- `metadata_hides_position_iff`: two runs of one message over different server lists post
  the same metadata to a server iff its position in both lists is the same.
-/

namespace Frag

/-- The fragments agree in every field other than the payload. -/
def SameMetadata (f f' : FragmentPost JsString) : Prop := { f with payload := f'.payload } = f'

instance (f f' : FragmentPost JsString) : Decidable (SameMetadata f f') :=
  inferInstanceAs (Decidable (_ = _))

/-- The fragments that a message posts to a server. -/
def Outgoing.fragmentsAt (o : Outgoing) (server : Server) : List (FragmentPost JsString) :=
  (o.posts.filter fun p => p.1 = server).map Prod.snd

theorem Outgoing.mem_fragmentsAt {o : Outgoing} {server : Server} {f : FragmentPost JsString} :
    f ∈ o.fragmentsAt server ↔ ∃ i : Nat, o.posts[i]? = some (server, f) := by
  constructor
  · intro h
    obtain ⟨⟨s, f'⟩, hp, rfl⟩ := List.mem_map.mp h
    obtain ⟨hmem, hs⟩ := List.mem_filter.mp hp
    obtain rfl : s = server := of_decide_eq_true hs
    exact List.mem_iff_getElem?.mp hmem
  · rintro ⟨i, hi⟩
    have hmem : (server, f) ∈ o.posts := List.mem_of_getElem? hi
    exact List.mem_map.mpr ⟨(server, f), List.mem_filter.mpr ⟨hmem, by simp⟩, rfl⟩

section TwoRuns

variable {W : WebCrypto} {app app' : App} {text text' : JsString} {ttl : Option Rat}
  {rand rand' : SendRandom} {o o' : Outgoing} {i j : Nat} {s s' : Server}
  {f f' : FragmentPost JsString}

/-- The fragments of two runs of a message differ in the payload, and in the id as their
    positions do. -/
theorem sameMetadata_iff (h : sendMessage W app text ttl rand = .ok o)
    (h' : sendMessage W app' text' ttl rand' = .ok o') (hchat : o.chat.chatId = o'.chat.chatId)
    (hmessage : rand.messageId = rand'.messageId)
    (hidentity : app.state.identity = app'.state.identity)
    (hf : o.posts[i]? = some (s, f)) (hf' : o'.posts[j]? = some (s', f')) :
    SameMetadata f f' ↔ i = j := by
  obtain ⟨hsender, -, -, hfields⟩ := post_of_sendMessage h hf
  obtain ⟨hsender', -, -, hfields'⟩ := post_of_sendMessage h' hf'
  have hid : o.messageId = o'.messageId := by
    rw [(fields_of_sendMessage h).2.2, (fields_of_sendMessage h').2.2, hmessage]
  have hsame : f.senderHash = f'.senderHash :=
    Option.some.inj (hsender.symm.trans (hidentity.trans hsender'))
  simp only at hfields hfields'
  constructor
  · intro hmeta
    -- The ids are the same, and they end with the positions.
    have hupdate : { f with payload := f'.payload } = f' := hmeta
    have hids : f.id = f'.id := by rw [← hupdate]
    rw [hfields, hfields', hid] at hids
    exact fragmentId_inj.mp hids
  · rintro rfl
    rw [SameMetadata, hfields, hfields', hid, hchat, hsame]

/-- **When the metadata hides the position.** Let a message be sent in two runs, with the
    same message id, chat id, identity and ttl, over two server lists. What is posted to a
    server is the same in every field other than the payload just in case the server has the
    same position in both lists. -/
theorem metadata_hides_position_iff (h : sendMessage W app text ttl rand = .ok o)
    (h' : sendMessage W app' text' ttl rand' = .ok o') (hchat : o.chat.chatId = o'.chat.chatId)
    (hmessage : rand.messageId = rand'.messageId)
    (hidentity : app.state.identity = app'.state.identity) (server : Server) :
    (∀ f ∈ o.fragmentsAt server, ∀ f' ∈ o'.fragmentsAt server, SameMetadata f f') ↔
      ∀ i j : Nat, (app.resolveServers o.chat.serverIds)[i]? = some server →
        (app'.resolveServers o'.chat.serverIds)[j]? = some server → i = j := by
  rw [← servers_of_sendMessage h, ← servers_of_sendMessage h']
  -- A server has a fragment for each of its positions in the list.
  have hpost : ∀ {o : Outgoing} {i : Nat}, o.servers[i]? = some server →
      ∃ f, o.posts[i]? = some (server, f) := by
    intro o i hi
    obtain ⟨⟨s, f⟩, hp, rfl⟩ := Option.map_eq_some_iff.mp (List.getElem?_map.symm.trans hi)
    exact ⟨f, hp⟩
  constructor
  · intro hsame i j hi hj
    obtain ⟨f, hf⟩ := hpost hi
    obtain ⟨f', hf'⟩ := hpost hj
    exact (sameMetadata_iff h h' hchat hmessage hidentity hf hf').mp
      (hsame f (Outgoing.mem_fragmentsAt.mpr ⟨i, hf⟩) f' (Outgoing.mem_fragmentsAt.mpr ⟨j, hf'⟩))
  · intro hposition f hf f' hf'
    obtain ⟨i, hi⟩ := Outgoing.mem_fragmentsAt.mp hf
    obtain ⟨j, hj⟩ := Outgoing.mem_fragmentsAt.mp hf'
    have hi' := (post_of_sendMessage h hi).2.1
    have hj' := (post_of_sendMessage h' hj).2.1
    exact (sameMetadata_iff h h' hchat hmessage hidentity hi hj).mpr (hposition i j hi' hj')

end TwoRuns

/-! ## One message over two lists -/

/-- The chat goes over the given servers. -/
def chatOver (serverIds : List JsString) : App :=
  let app := Sample.app (List.replicate 64 0x61)
  { app with state := { app.state with chats := [{ Sample.chat with serverIds }] } }

/-- The message `hi` over the given servers. -/
def sentOver (serverIds : List JsString) : Option Outgoing :=
  (sendMessage sampleCrypto (chatOver serverIds) (js "hi") (some 0) (Sample.draw 1)).toOption

theorem sendMessage_of_sentOver {serverIds : List JsString} {o : Outgoing}
    (h : o ∈ sentOver serverIds) :
    sendMessage sampleCrypto (chatOver serverIds) (js "hi") (some 0) (Sample.draw 1) = .ok o := by
  unfold sentOver at h
  cases hsend : sendMessage sampleCrypto (chatOver serverIds) (js "hi") (some 0)
    (Sample.draw 1) with
  | error e => rw [hsend] at h; cases h
  | ok o' => rw [hsend] at h; cases h; rfl

/-- The first server does not see whether there is a second. -/
theorem one_or_two_servers_look_the_same :
    ∃ o ∈ sentOver (Sample.serverIds.take 1), ∃ o' ∈ sentOver Sample.serverIds,
      ∃ server ∈ Sample.servers.head?, o.fragmentsAt server ≠ [] ∧
        o'.fragmentsAt server ≠ [] ∧
        ∀ f ∈ o.fragmentsAt server, ∀ f' ∈ o'.fragmentsAt server, SameMetadata f f' := by
  obtain ⟨o, ho, o', ho', server, hserver, hposted, hposted', hchat, hservers, hservers'⟩ :
      ∃ o ∈ sentOver (Sample.serverIds.take 1), ∃ o' ∈ sentOver Sample.serverIds,
        ∃ server ∈ Sample.servers.head?, o.fragmentsAt server ≠ [] ∧
          o'.fragmentsAt server ≠ [] ∧ o.chat.chatId = o'.chat.chatId ∧
          (chatOver (Sample.serverIds.take 1)).resolveServers o.chat.serverIds = [server] ∧
          (chatOver Sample.serverIds).resolveServers o'.chat.serverIds = Sample.servers := by
    decide +kernel
  refine ⟨o, ho, o', ho', server, hserver, hposted, hposted', ?_⟩
  refine (metadata_hides_position_iff (sendMessage_of_sentOver ho) (sendMessage_of_sentOver ho')
    hchat rfl rfl server).mpr fun i j hi hj => ?_
  rw [hservers] at hi
  rw [hservers'] at hj
  -- The server is first in both lists, and not named again.
  have hi : i = 0 := by
    have hlt := (List.getElem?_eq_some_iff.mp hi).1
    rw [List.length_singleton] at hlt
    omega
  have hnodup : Sample.servers.Nodup := by decide
  have hhead : Sample.servers[0]? = some server := List.head?_eq_getElem?.symm.trans hserver
  rw [hi]
  exact (List.getElem?_inj (by decide) hnodup).mp (hhead.trans hj.symm)

/-- In the other order of the list the server sees the other position. -/
theorem reordered_list_shows_position :
    ∃ o ∈ sentOver Sample.serverIds, ∃ o' ∈ sentOver Sample.serverIds.reverse,
      ∃ server ∈ Sample.servers.head?,
        ∃ f ∈ o.fragmentsAt server, ∃ f' ∈ o'.fragmentsAt server,
          o.chat.chatId = o'.chat.chatId ∧ f.senderHash = f'.senderHash ∧
          f.id = js "00000000-0000-4000-8000-000000000001-0" ∧
          f'.id = js "00000000-0000-4000-8000-000000000001-1" ∧ ¬ SameMetadata f f' := by
  decide +kernel

end Frag
