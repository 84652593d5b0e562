import Frag.System.Channel

/-!
# A Reader in the System

One client follows one chat while the other parties do as they please. `ChannelStep`
says which events belong to the life of a chat held with one configuration; each of
them is a step of the reader's board (`view_step`): a poll that all servers answer is
a fetch, a POST of the chat may list a message, and everything else is quiet.

## Main results

- `Reading.step`: honesty, agreement and the reader's configuration are invariant;
- `view_step`: what an event does to the board of the reader.
-/

namespace Frag

variable {B ι : Type} [DecidableEq B] [DecidableEq ι]

namespace World

/-! ## Events of a chat -/

/-- A condition on the client, the chat, the text and the ttl of a send. -/
def OnSend (w : World B ι) (P : ι → Chat → JsString → Option Rat → Prop) : Event B ι → Prop
  | .send i text ttl _ => ∀ chat ∈ (w.apps i).getActiveChat, P i chat text ttl
  | _ => True

instance (w : World B ι) (P : ι → Chat → JsString → Option Rat → Prop)
    [∀ i chat text ttl, Decidable (P i chat text ttl)] : ∀ e : Event B ι, Decidable (w.OnSend P e)
  | .send i _ _ _ => inferInstanceAs (Decidable (∀ chat ∈ (w.apps i).getActiveChat, _))
  | .act _ _ | .share _ _ | .post _ _ _ | .settle _ _ | .poll _ _ _ | .purge _ _ => .isTrue trivial

/-- Whoever sends in the chat holds its configuration. Other chats are not restricted. -/
def SendStep (E : Env B) (cfg : ChatConfig B) (w : World B ι) (e : Event B ι) : Prop :=
  w.CleanSend e ∧
    w.OnSend (fun i chat _ _ => chat.chatId = cfg.chatId → Holds E cfg (w.apps i) chat) e

instance (E : Env B) (cfg : ChatConfig B) (w : World B ι) (e : Event B ι) :
    Decidable (SendStep E cfg w e) :=
  inferInstanceAs (Decidable (_ ∧ w.OnSend _ e))

/-- The event is not a call by the reader. -/
def LeavesSetup (reader : ι) : Event B ι → Prop
  | .act i _ => i ≠ reader
  | _ => True

instance (reader : ι) : ∀ e : Event B ι, Decidable (LeavesSetup reader e)
  | .act i _ => inferInstanceAs (Decidable (i ≠ reader))
  | .share _ _ | .send _ _ _ _ | .post _ _ _ | .settle _ _ | .poll _ _ _ | .purge _ _ =>
    .isTrue trivial

/-- The events of runs in which a reader follows a chat. -/
def ChannelStep (E : Env B) (cfg : ChatConfig B) (reader : ι) (w : World B ι)
    (e : Event B ι) : Prop :=
  SendStep E cfg w e ∧ LeavesSetup reader e

instance (E : Env B) (cfg : ChatConfig B) (reader : ι) (w : World B ι) (e : Event B ι) :
    Decidable (ChannelStep E cfg reader w e) :=
  inferInstanceAs (Decidable (_ ∧ _))

/-- A condition on the POST that an event handles, if it handles one. -/
def OnPost (w : World B ι) (P : Sent ι → Server × FragmentPost JsString → Int → Prop) :
    Event B ι → Prop
  | .post k j now => ∀ sp ∈ w.request k j, P sp.1 sp.2 now
  | _ => True

/-- A condition on the polls of one chat by one client. -/
def OnPoll (reader : ι) (id : JsString) (P : (Server → Bool) → Prop) : Event B ι → Prop
  | .poll i id' up => i = reader → id' = id → P up
  | _ => True

omit [DecidableEq B] [DecidableEq ι] in
theorem OnPoll.mono {reader : ι} {id : JsString} {P Q : (Server → Bool) → Prop} {e : Event B ι}
    (h : OnPoll reader id P e) (himp : ∀ up, P up → Q up) : OnPoll reader id Q e := by
  cases e with
  | poll i id' up => exact fun hi hid => himp up (h hi hid)
  | _ => trivial

instance (w : World B ι) (P : Sent ι → Server × FragmentPost JsString → Int → Prop)
    [∀ s p now, Decidable (P s p now)] : ∀ e : Event B ι, Decidable (w.OnPost P e)
  | .post k j _ => inferInstanceAs (Decidable (∀ sp ∈ w.request k j, _))
  | .act _ _ | .share _ _ | .send _ _ _ _ | .settle _ _ | .poll _ _ _ | .purge _ _ =>
    .isTrue trivial

instance (reader : ι) (id : JsString) (P : (Server → Bool) → Prop) [∀ up, Decidable (P up)] :
    ∀ e : Event B ι, Decidable (OnPoll reader id P e)
  | .poll i id' up => inferInstanceAs (Decidable (i = reader → id' = id → P up))
  | .act _ _ | .share _ _ | .send _ _ _ _ | .post _ _ _ | .settle _ _ | .purge _ _ =>
    .isTrue trivial

/-- What `ChannelStep` keeps: the world is honest, the chat's messages were sent with
    the configuration, and the reader holds it. -/
structure Reading (E : Env B) (cfg : ChatConfig B) (reader : ι) (id : JsString)
    (w : World B ι) : Prop where
  honest : w.Honest E
  agreed : w.Agreed E cfg
  holds : ∃ chat, w.chat? reader id = some chat ∧ Holds E cfg (w.apps reader) chat

variable {E : Env B} {cfg : ChatConfig B} {reader : ι} {id : JsString} {w : World B ι}
  {e : Event B ι}

omit [DecidableEq B] [DecidableEq ι] in
theorem chat?_some {i : ι} {chat : Chat} (h : w.chat? i id = some chat) :
    chat.id = id ∧ ((w.apps i).chat? id).isSome := by
  refine ⟨by simpa using List.find?_some h, ?_⟩
  rw [App.chat?, List.find?_append, show (w.apps i).state.chats.find? _ = some chat from h]
  rfl

omit [DecidableEq B] in
/-- A poll or the end of a send leaves the setup of the reader, up to cursors. -/
private theorem holds_of_chats {app app' : App} (id' : JsString) (since : Int)
    (hservers : app'.state.servers = app.state.servers)
    (hchats : app'.state.chats = app.state.chats ∨
      app'.state.chats = app.state.chats.map (App.withLastSince id' since))
    {chat : Chat} (hfind : app.state.chats.find? (fun c => c.id = id) = some chat)
    (hc : Holds E cfg app chat) :
    ∃ chat', app'.state.chats.find? (fun c => c.id = id) = some chat' ∧
      Holds E cfg app' chat' := by
  have hresolve := App.resolveServers_congr hservers
  rcases hchats with heq | heq
  · exact ⟨chat, heq ▸ hfind, hc.chatId, hc.keyB64, by rw [hresolve, hc.backends]⟩
  · -- The moved cursor is no part of the configuration.
    refine ⟨App.withLastSince id' since chat, ?_, ?_⟩
    · rw [heq, App.find?_map_withLastSince, hfind, Option.map_some]
    · have hsame : (App.withLastSince id' since chat).chatId = chat.chatId ∧
          (App.withLastSince id' since chat).keyB64 = chat.keyB64 ∧
          (App.withLastSince id' since chat).serverIds = chat.serverIds := by
        unfold App.withLastSince
        split <;> exact ⟨rfl, rfl, rfl⟩
      refine ⟨hsame.1.trans hc.chatId, hsame.2.1.trans hc.keyB64, ?_⟩
      rw [hresolve, hsame.2.2, hc.backends]

/-- What an event of the chat can do to the reader: nothing, add a message of its own,
    or a poll. -/
theorem apps_step (hok : ChannelStep E cfg reader w e) :
    (w.step E e).apps reader = w.apps reader ∨
      (∃ s ∈ w.sent, ∃ accepted : List Bool, s.client = reader ∧
        (w.step E e).apps reader = (s.outgoing.settle (w.apps reader) accepted).1) ∨
      ∃ id' up chat, e = .poll reader id' up ∧ w.chat? reader id' = some chat ∧
        (w.step E e).apps reader = pollChat E.crypto (w.apps reader) chat (w.answer E up) := by
  rcases app_step E w e reader with heq | ⟨a, rfl, -⟩ | hsettle | hpoll
  · exact .inl heq
  · -- The reader calls nothing.
    exact absurd rfl hok.2
  · exact .inr (.inl hsettle)
  · exact .inr (.inr hpoll)

theorem Agreed.step (ha : w.Agreed E cfg) (hok : SendStep E cfg w e) :
    (w.step E e).Agreed E cfg := by
  rcases sent_step E w e with heq | ⟨i, text, ttl, rand, o, rfl, ho, heq⟩
  · rw [Agreed, heq]
    exact ha
  · intro s hs
    rw [heq, List.mem_append, List.mem_singleton] at hs
    rcases hs with hs | rfl
    · exact ha s hs
    · intro hin
      have hc := hok.2 _ (fields_of_sendMessage ho).1 hin
      exact ⟨hc.keyB64, by rw [servers_of_sendMessage ho, hc.backends]⟩

/-- **The setting is invariant.** -/
theorem Reading.step (h : Reading E cfg reader id w) (hok : ChannelStep E cfg reader w e) :
    Reading E cfg reader id (w.step E e) := by
  refine ⟨h.honest.step hok.1.1, h.agreed.step hok.1, ?_⟩
  obtain ⟨chat, hfind, hc⟩ := h.holds
  rcases apps_step hok with heq | ⟨s, -, accepted, -, heq⟩ | ⟨id', up, chat', -, -, heq⟩
  · exact ⟨chat, by rw [chat?, heq]; exact hfind, heq ▸ hc⟩
  · rw [chat?, heq, Outgoing.settle_fst]
    exact ⟨chat, hfind, hc.chatId, hc.keyB64, hc.backends⟩
  · rw [chat?, heq]
    refine holds_of_chats chat'.id (newest ((w.apps reader).lastSince chat'.id)
      (pendingOf (w.apps reader) chat' (w.answer E up))) ?_ ?_ hfind hc
    · rcases pollChat_cases E.crypto (w.apps reader) chat' (w.answer E up) with ⟨-, hs⟩ | ⟨-, hs⟩
      · exact hs.servers
      · exact hs.servers
    · rcases pollChat_cases E.crypto (w.apps reader) chat' (w.answer E up) with ⟨-, hs⟩ | ⟨-, hs⟩
      · exact .inr hs.chats
      · exact .inl hs.chats

/-! ## Events as steps of the board -/

/-- The board of the reader. -/
def view (cfg : ChatConfig B) (reader : ι) (id : JsString) (w : World B ι) :
    HighWater.Board Uuid B Int :=
  w.board cfg (w.apps reader) id

/-- All servers of the reader's chat answer. -/
def AllUp (reader : ι) (id : JsString) (w : World B ι) (up : Server → Bool) : Prop :=
  ∀ chat ∈ w.chat? reader id, ∀ server ∈ (w.apps reader).resolveServers chat.serverIds,
    up server = true

instance (up : Server → Bool) : Decidable (AllUp reader id w up) :=
  inferInstanceAs (Decidable (∀ chat ∈ w.chat? reader id, _))

/-- A new listing comes from the POST that is handled. -/
theorem stamp_step (h : Reading E cfg reader id w) (hok : ChannelStep E cfg reader w e)
    {m : Uuid} {b : B} {t : Int} (ht : (w.step E e).stamp cfg m b = some t) :
    w.stamp cfg m b = some t ∨ ∃ s j p, w.Handles E e b s j p t ∧ s ∈ w.sent ∧
      s.InChat cfg ∧ cStr (toWire p.2.id) ∉ (w.stores b).rows.map Fragment.id ∧
      s.messageId = m := by
  have h' := h.step hok
  obtain ⟨r, hr, hchat, hm, rfl⟩ := (stamp_eq_some h'.honest h'.agreed).mp ht
  rcases mem_rows_step hr with hold | ⟨s, j, p, now, hhandles, hmembers, hnew, rfl, hacc⟩
  · exact .inl ((stamp_eq_some h.honest h.agreed).mpr ⟨r, hold, hchat, hm, rfl⟩)
  · obtain ⟨k, -, hreq⟩ := hhandles.event
    obtain ⟨hs, hp⟩ := request_eq_some.mp hreq
    have hs := List.mem_of_getElem? hs
    have horigin : (w.step E e).Origin E b (rowOf p.2 now) s j p :=
      ⟨mem_sent_step hs, hp, hhandles.backend, hmembers, rfl, hacc⟩
    exact .inr ⟨s, j, p, hhandles, hs, horigin.inChat h'.honest hchat, hnew,
      horigin.messageId_eq h'.honest hm⟩

/-- Except for a poll that all its servers answer, the cursor of the reader stays and
    its messages are kept. -/
theorem view_quiet (h : Reading E cfg reader id w) (hok : ChannelStep E cfg reader w e)
    (hpoll : ∀ up, e = .poll reader id up → ¬ AllUp reader id w up) :
    (view cfg reader id w).shown ⊆ (view cfg reader id (w.step E e)).shown ∧
      (view cfg reader id (w.step E e)).cursor = (view cfg reader id w).cursor := by
  simp only [view, board]
  rcases apps_step hok with heq | ⟨s, -, accepted, -, heq⟩ | ⟨id', up, chat, rfl, hfind, heq⟩
  · rw [heq]
    exact ⟨fun m hm => hm, rfl⟩
  · -- A message of its own is added, and the cursor stays.
    rw [heq, Outgoing.settle_fst]
    refine ⟨fun m hm => ?_, rfl⟩
    rw [App.messagesOf_emit, App.pushMessage, App.messagesOf_setMessages]
    split
    · rename_i hid
      rw [List.map_append]
      exact List.mem_append_left _ (hid ▸ hm)
    · exact hm
  · obtain ⟨hid, -⟩ := chat?_some hfind
    by_cases hsame : id' = id
    · -- A server of the chat does not answer, so no message is complete.
      subst hsame
      have hdown := hpoll up rfl
      simp only [AllUp, Option.mem_def, not_forall] at hdown
      obtain ⟨chat', hfind', server, hserver, hup⟩ := hdown
      obtain rfl : chat = chat' := Option.some.inj (hfind.symm.trans hfind')
      obtain ⟨hmsgs, hsetup⟩ := pollChat_of_pendingOf_eq_nil (W := E.crypto)
        (h.honest.pendingOf_eq_nil hserver (by simpa using hup))
      rw [heq, hmsgs, hsetup.lastSince]
      exact ⟨fun m hm => hm, rfl⟩
    · have hne : id ≠ chat.id := fun he => hsame (hid.symm.trans he.symm)
      rw [heq, messagesOf_pollChat_ne hne]
      refine ⟨fun m hm => hm, ?_⟩
      rcases pollChat_cases E.crypto (w.apps reader) chat (w.answer E up) with
        ⟨-, hs⟩ | ⟨-, hs⟩
      · rw [hs.lastSince]
        exact App.lastSince_setLastSince_ne _ hne
      · exact hs.lastSince id

/-- A message is shown after an event if it was shown before, if the reader sent it, or
    if it could be fetched. -/
theorem shown_step (h : Reading E cfg reader id w) (hok : ChannelStep E cfg reader w e)
    {m : Uuid} (hm : m ∈ (view cfg reader id (w.step E e)).shown) :
    m ∈ (view cfg reader id w).shown ∨ (∃ s ∈ w.sent, s.client = reader ∧ s.messageId = m) ∨
      HighWater.Fetchable cfg.sources (view cfg reader id w) m := by
  have hm : m.val ∈ (((w.step E e).apps reader).messagesOf id).map Message.id := hm
  show m.val ∈ ((w.apps reader).messagesOf id).map Message.id ∨ _
  rcases apps_step hok with heq | ⟨s, hs, accepted, hclient, heq⟩ | ⟨id', up, chat, -, hfind, heq⟩
  · exact .inl (heq ▸ hm)
  · rw [heq, Outgoing.settle_fst, App.messagesOf_emit, App.pushMessage,
      App.messagesOf_setMessages] at hm
    split at hm
    · rename_i hid
      rw [List.map_append, List.mem_append, List.map_singleton, List.mem_singleton] at hm
      rcases hm with hold | hnew
      · exact .inl (hid ▸ hold)
      · exact .inr (.inl ⟨s, hs, hclient, Uuid.ext hnew.symm⟩)
    · exact .inl hm
  · obtain ⟨hid, -⟩ := chat?_some hfind
    by_cases hsame : id' = id
    · subst hsame hid
      obtain ⟨chat', hfind', hc⟩ := h.holds
      obtain rfl : chat = chat' := Option.some.inj (hfind.symm.trans hfind')
      rw [heq, ids_pollChat, List.mem_append] at hm
      rcases hm with hold | hnew
      · exact .inl hold
      · -- Nothing is pending unless all servers answer.
        by_cases hup : ∀ server ∈ (w.apps reader).resolveServers chat.serverIds,
            up server = true
        · obtain ⟨m', hm', -, hfetch⟩ := (mem_ids_pendingOf h.honest h.agreed hc hup).mp hnew
          exact .inr (.inr (Uuid.ext hm' ▸ hfetch))
        · simp only [not_forall] at hup
          obtain ⟨server, hserver, hdown⟩ := hup
          rw [h.honest.pendingOf_eq_nil hserver (by simpa using hdown)] at hnew
          cases hnew
    · have hne : id ≠ chat.id := fun he => hsame (hid.symm.trans he.symm)
      rw [heq, messagesOf_pollChat_ne hne] at hm
      exact .inl hm

/-- A poll that all servers answer is a fetch of the reader's board. -/
theorem view_poll (h : Reading E cfg reader id w) {up : Server → Bool}
    (hup : AllUp reader id w up) :
    HighWater.Fetch cfg.sources (view cfg reader id w)
      (view cfg reader id (w.step E (.poll reader id up))) := by
  obtain ⟨chat, hfind, hc⟩ := h.holds
  obtain ⟨rfl, hsome⟩ := chat?_some hfind
  have hfetch := board_poll h.honest h.agreed hc (hup chat hfind) hsome
  have hstep : w.step E (.poll reader chat.id up) = { w with
      apps := Function.update w.apps reader
        (pollChat E.crypto (w.apps reader) chat (w.answer E up)) } := by
    simp only [step, hfind]
  simp only [hstep, view, Function.update_self]
  exact hfetch

/-- **Every event is a step of the reader's board.** -/
theorem view_step (h : Reading E cfg reader id w) (hok : ChannelStep E cfg reader w e) :
    HighWater.Quiet (view cfg reader id w) (view cfg reader id (w.step E e)) ∨
      (∃ b s j p now, w.Handles E e b s j p now ∧ s ∈ w.sent ∧ s.InChat cfg ∧
        cStr (toWire p.2.id) ∉ (w.stores b).rows.map Fragment.id ∧
        HighWater.Listing s.messageId b now (view cfg reader id w)
          (view cfg reader id (w.step E e))) ∨
      ∃ up, e = .poll reader id up ∧ AllUp reader id w up ∧
        HighWater.Fetch cfg.sources (view cfg reader id w) (view cfg reader id (w.step E e)) := by
  by_cases hpoll : ∃ up, e = .poll reader id up ∧ AllUp reader id w up
  · obtain ⟨up, rfl, hup⟩ := hpoll
    exact .inr (.inr ⟨up, rfl, hup, view_poll h hup⟩)
  have hnot : ∀ up, e = .poll reader id up → ¬ AllUp reader id w up :=
    fun up he hup => hpoll ⟨up, he, hup⟩
  obtain ⟨hshown, hcursor⟩ := view_quiet h hok hnot
  by_cases hpost : ∃ b s j p now, w.Handles E e b s j p now ∧ s ∈ w.sent ∧ s.InChat cfg ∧
      cStr (toWire p.2.id) ∉ (w.stores b).rows.map Fragment.id
  · obtain ⟨b, s, j, p, now, hhandles, hs, hin, hnew⟩ := hpost
    refine .inr (.inl ⟨b, s, j, p, now, hhandles, hs, hin, hnew, ?_, hshown, hcursor⟩)
    intro m b' t ht
    rcases stamp_step h hok ht with hold | ⟨s', j', p', hhandles', -, -, -, hm⟩
    · exact .inl hold
    · -- Both are the one POST that the event handles.
      obtain ⟨⟨k, rfl, hreq⟩, rfl⟩ := hhandles
      obtain ⟨⟨k', hevent, hreq'⟩, rfl⟩ := hhandles'
      cases hevent
      rw [hreq] at hreq'
      cases hreq'
      exact .inr ⟨hm.symm, rfl, rfl⟩
  · refine .inl ⟨fun m b t ht => ?_, hshown, hcursor⟩
    rcases stamp_step h hok ht with hold | ⟨s, j, p, hhandles, hs, hin, hnew, -⟩
    · exact hold
    · exact absurd ⟨b, s, j, p, t, hhandles, hs, hin, hnew⟩ hpost

end World

/-! ## A concrete chat

Two clients and two backends, for runs on fixed inputs: backends are named by their
URLs, and both clients hold a chat over `https://a` and `https://b`. -/

namespace Sample

def env : Env JsString where
  crypto := sampleCrypto
  backendOf := fun url => url

def urls : List JsString := [js "https://a", js "https://b"]

def chatId : Uuid := ⟨js "00000000-0000-4000-8000-00000000c4a7", by decide⟩

def keyB64 : JsString := js "AAAAAAAAAAAAAAAAAAAAAAAAAAAAAAAAAAAAAAAAAAA="

def config : ChatConfig JsString where
  chatId := chatId.val
  transparent := by decide
  chatId_ne := by decide
  keyB64 := keyB64
  backends := urls
  distinct := by decide
  backends_ne := by decide

def serverIds : List JsString :=
  [js "00000000-0000-4000-8000-00000000000a", js "00000000-0000-4000-8000-00000000000b"]

/-- The internal id of the chat. -/
def id : JsString := js "00000000-0000-4000-8000-000000000001"

def chat : Chat where
  id := id
  name := js "c"
  serverIds := serverIds
  chatId := chatId.val
  keyB64 := keyB64
  lastSince := 0

def servers : List Server :=
  (serverIds.zip urls).map fun (id, url) => { id, url, token := js "t", label := url }

/-- A client that has just set up the chat. -/
def app (identity : JsString) : App where
  state := { App.initialState with
    identity := some identity
    servers := servers
    chats := [chat]
    activeChatId := some id }
  storage := ⟨some identity, some servers, some [chat]⟩

/-- Two clients at fresh backends; `false` is the reader of the runs. -/
def world : World JsString Bool where
  stores _ := .empty
  apps i := app (List.replicate 64 (if i then 0x61 else 0x62))
  sent := []
  accepted := []
  exports := []

theorem blank : world.Blank := ⟨fun _ => rfl, rfl, rfl, rfl⟩

def messageId (k : Nat) : Uuid where
  val := js "00000000-0000-4000-8000-00000000000" ++ [.ofNat (0x30 + k % 10)]
  shape := by
    have hlt : k % 10 < 10 := Nat.mod_lt _ (by decide)
    generalize k % 10 = d at hlt
    revert d
    decide

/-- What the `k`-th send draws. -/
def draw (k : Nat) : SendRandom where
  iv := zeroIv
  messageId := messageId k
  now := 100

/-- A client sends `hi`. -/
def say (i : Bool) (k : Nat) : Event JsString Bool := .send i (js "hi") (some 0) (draw k)

/-- The reader polls, and all servers answer. -/
def look : Event JsString Bool := .poll false id fun _ => true

/-- Two clients that have just been started, at fresh backends. -/
def start : World JsString Bool where
  stores _ := .empty
  apps i := App.init ⟨none, none, none⟩ (List.replicate 64 (if i then 0x61 else 0x62))
  sent := []
  accepted := []
  exports := []

theorem blank_start : start.Blank := ⟨fun _ => rfl, rfl, rfl, rfl⟩

/-- The internal ids of the chat, at the reader and at the other client. -/
def chatObject (i : Bool) : Uuid :=
  if i then ⟨js "00000000-0000-4000-8000-000000000002", by decide⟩ else ⟨id, by decide⟩

/-- What a client draws for its chat. -/
def chatDraw (i : Bool) : App.ChatRandom where
  id := chatObject i
  chatId := chatId
  key := zeroKey

def exported : App.ExportedChat where
  name := js "c"
  chatId := chatId.val
  keyB64 := keyB64
  servers := urls.map fun url => { url, token := js "t", label := url }

/-- One client creates the chat and exports it, the reader imports it. -/
def setup : List (Event JsString Bool) :=
  (serverIds.zip urls).map (fun (id, url) => .act true (.addServer url (js "t") url id)) ++
    [.act true (.createChat (js "c") serverIds [] [] (chatDraw true)),
      .act true (.setActiveChat (some (chatObject true).val)),
      .share true (chatObject true).val,
      .act false (.importChat exported (fun i => serverIds.getD i []) (chatDraw false))]

end Sample

end Frag
