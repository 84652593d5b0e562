import Frag.Library.Simulation
import Frag.System.Reader

/-!
# What the Servers Learn

Two systems side by side, with the same clients at the same backends, that differ in the keys of
their chats and in the texts of their messages. Of a key only its `KeyKind` matters to what a
client does, and of a text only the blob that it is encrypted to. As long as the sends on either
side produce the same blobs, the tables, the requests and the answers are the same.

The browsers may encrypt differently on either side, and every other choice of the environment is
the same.

## Main results

- `App.Alike.apply`, `App.Alike.pollChat`: what clients do depends on neither keys nor texts;
- `World.Alike.step`;
- `servers_learn_ciphertexts_only`
-/

namespace Frag

open Runs

/-! ## What is not secret -/

/-- What matters of a key. -/
inductive KeyKind where
  | absent
  | usable
  | unusable
  deriving DecidableEq, Repr

def keyKind (keyB64 : JsString) : KeyKind :=
  if keyB64 = [] then .absent
  else if (importKey keyB64).isSome then .usable
  else .unusable

/-- A chat but for its key. -/
structure ChatOutline where
  id : JsString
  name : JsString
  serverIds : List JsString
  chatId : JsString
  key : KeyKind
  lastSince : Int
  deriving DecidableEq, Repr

def Chat.outline (c : Chat) : ChatOutline where
  id := c.id
  name := c.name
  serverIds := c.serverIds
  chatId := c.chatId
  key := keyKind c.keyB64
  lastSince := c.lastSince

/-- A message but for its text. -/
structure MessageOutline where
  id : JsString
  chatId : JsString
  senderHash : JsString
  timestamp : Int
  status : MessageStatus
  deriving DecidableEq, Repr

def Message.outline (m : Message) : MessageOutline where
  id := m.id
  chatId := m.chatId
  senderHash := m.senderHash
  timestamp := m.timestamp
  status := m.status

/-- An exported chat but for its key. -/
structure ExportOutline where
  name : JsString
  chatId : JsString
  key : KeyKind
  servers : List App.ExportedServer
  deriving DecidableEq, Repr

def App.ExportedChat.outline (data : App.ExportedChat) : ExportOutline where
  name := data.name
  chatId := data.chatId
  key := keyKind data.keyB64
  servers := data.servers

/-- A message on its way but for key and text. -/
structure SentOutline (ι : Type) where
  client : ι
  senderHash : JsString
  chat : ChatOutline
  messageId : Uuid
  now : Int
  posts : List (Server × FragmentPost JsString)

def Sent.outline {ι : Type} (s : Sent ι) : SentOutline ι where
  client := s.client
  senderHash := s.senderHash
  chat := s.outgoing.chat.outline
  messageId := s.outgoing.messageId
  now := s.outgoing.now
  posts := s.outgoing.posts

/-- Two optional values that look the same are both there or both absent. -/
theorem present_or_absent {α α' β : Type} {f : α → β} {f' : α' → β} {o : Option α} {o' : Option α'}
    (h : o.map f = o'.map f') :
    (o = none ∧ o' = none) ∨ ∃ a a', o = some a ∧ o' = some a' ∧ f a = f' a' := by
  cases o with
  | none => exact .inl ⟨rfl, Option.map_eq_none_iff.mp h.symm⟩
  | some a =>
    obtain ⟨a', ha', heq⟩ := Option.map_eq_some_iff.mp h.symm
    exact .inr ⟨a, a', rfl, ha', heq.symm⟩

theorem keyKind_eq_absent {keyB64 : JsString} : keyKind keyB64 = .absent ↔ keyB64 = [] := by
  unfold keyKind
  split
  · rename_i h
    exact iff_of_true rfl h
  · rename_i h
    refine iff_of_false ?_ h
    split <;> exact KeyKind.noConfusion

theorem eq_nil_congr {keyB64 keyB64' : JsString} (h : keyKind keyB64 = keyKind keyB64') :
    keyB64 = [] ↔ keyB64' = [] := by
  rw [← keyKind_eq_absent, h, keyKind_eq_absent]

/-- A key can be imported iff its kind says so. -/
theorem isSome_importKey (keyB64 : JsString) : (importKey keyB64).isSome = true ↔ keyKind keyB64 = .usable := by
  unfold keyKind
  split
  · rename_i h
    refine iff_of_false ?_ KeyKind.noConfusion
    rw [h]
    decide
  · split
    · rename_i h
      exact iff_of_true h rfl
    · rename_i h
      exact iff_of_false h KeyKind.noConfusion

/-- A key that is generated can be imported. -/
theorem keyKind_btoa (key : AesKey) : keyKind (Base64.btoa key.raw) = .usable := by
  rw [← isSome_importKey, importKey, Base64.atob_btoa, Option.bind_some, dif_pos key.length_raw]
  rfl

/-- The key of a new chat. -/
theorem keyKind_created {keyB64 keyB64' : JsString} (h : keyKind keyB64 = keyKind keyB64') (key key' : AesKey) :
    keyKind (if keyB64 = [] then Base64.btoa key.raw else keyB64) =
      keyKind (if keyB64' = [] then Base64.btoa key'.raw else keyB64') := by
  by_cases hnil : keyB64 = []
  · rw [if_pos hnil, if_pos ((eq_nil_congr h).mp hnil), keyKind_btoa, keyKind_btoa]
  · rw [if_neg hnil, if_neg fun h' => hnil ((eq_nil_congr h).mpr h'), h]

/-- Only the kind of a key matters. -/
theorem Chat.outline_of_keyKind (c : Chat) {keyB64 : JsString} (h : keyKind c.keyB64 = keyKind keyB64) :
    c.outline = ({ c with keyB64 } : Chat).outline := by
  simp only [Chat.outline, h]

/-! ## Applications -/

/-- Two applications that differ in keys and texts, and in what was emitted. -/
structure App.Alike (app app' : App) : Prop where
  identity : app.state.identity = app'.state.identity
  servers : app.state.servers = app'.state.servers
  chats : app.state.chats.map Chat.outline = app'.state.chats.map Chat.outline
  removedChats : app.state.removedChats.map Chat.outline = app'.state.removedChats.map Chat.outline
  messages : ∀ id, (app.state.messages.get? id).map (List.map Message.outline) =
    (app'.state.messages.get? id).map (List.map Message.outline)
  activeChatId : app.state.activeChatId = app'.state.activeChatId
  unreadCounts : ∀ id, app.state.unreadCounts.get? id = app'.state.unreadCounts.get? id
  savedIdentity : app.storage.identity = app'.storage.identity
  savedServers : app.storage.servers = app'.storage.servers
  savedChats : app.storage.chats.map (List.map Chat.outline) = app'.storage.chats.map (List.map Chat.outline)

namespace App

variable {app app' : App}

/-! ### What is read -/

theorem Alike.messagesOf (h : app.Alike app') (id : JsString) :
    (app.messagesOf id).map Message.outline = (app'.messagesOf id).map Message.outline := by
  have hget := congrArg (Option.getD · []) (h.messages id)
  simp only [App.messagesOf]
  cases hm : app.state.messages.get? id <;> cases hm' : app'.state.messages.get? id <;>
    simp only [hm, hm', Option.map_some, Option.map_none, Option.getD_some, Option.getD_none] at hget ⊢ <;>
    simpa using hget

theorem Alike.ids (h : app.Alike app') (id : JsString) :
    (app.messagesOf id).map Message.id = (app'.messagesOf id).map Message.id := by
  have hids := congrArg (List.map MessageOutline.id) (h.messagesOf id)
  rwa [List.map_map, List.map_map] at hids

theorem Alike.unreadOf (h : app.Alike app') (id : JsString) : app.unreadOf id = app'.unreadOf id := by
  rw [App.unreadOf, h.unreadCounts, App.unreadOf]

theorem Alike.resolveServers (h : app.Alike app') (serverIds : List JsString) :
    app.resolveServers serverIds = app'.resolveServers serverIds :=
  resolveServers_congr h.servers serverIds

/-- A chat that is looked up by what is not secret. -/
theorem outline_find? (chats : List Chat) (p : ChatOutline → Bool) :
    (chats.find? fun c => p c.outline).map Chat.outline = (chats.map Chat.outline).find? p :=
  (List.find?_map ..).symm

theorem Alike.getActiveChat (h : app.Alike app') :
    app.getActiveChat.map Chat.outline = app'.getActiveChat.map Chat.outline := by
  have hfind := fun a : App => outline_find? a.state.chats fun c => some c.id = a.state.activeChatId
  rw [App.getActiveChat, App.getActiveChat]
  refine (hfind app).trans (Eq.trans ?_ (hfind app').symm)
  rw [h.chats, h.activeChatId]

theorem Alike.find? (h : app.Alike app') (id : JsString) :
    (app.state.chats.find? fun c => c.id = id).map Chat.outline =
      (app'.state.chats.find? fun c => c.id = id).map Chat.outline := by
  have hfind := fun chats => outline_find? chats fun c => c.id = id
  exact (hfind app.state.chats).trans (h.chats ▸ (hfind app'.state.chats).symm)

theorem Alike.lastSince (h : app.Alike app') (id : JsString) : app.lastSince id = app'.lastSince id := by
  have hfind := fun chats => outline_find? chats fun c => c.id = id
  have hall : (app.state.chats ++ app.state.removedChats).map Chat.outline =
      (app'.state.chats ++ app'.state.removedChats).map Chat.outline := by
    rw [List.map_append, List.map_append, h.chats, h.removedChats]
  have hchat : (app.chat? id).map Chat.outline = (app'.chat? id).map Chat.outline :=
    (hfind _).trans (hall ▸ (hfind _).symm)
  have hsince : ∀ o : Option Chat, o.elim 0 Chat.lastSince = (o.map Chat.outline).elim 0 ChatOutline.lastSince :=
    fun o => by cases o <;> rfl
  rw [App.lastSince, App.lastSince, hsince, hsince, hchat]

/-! ### What is written -/

theorem Alike.emit (h : app.Alike app') (event event' : AppEvent) : (app.emit event).Alike (app'.emit event') :=
  ⟨h.identity, h.servers, h.chats, h.removedChats, h.messages, h.activeChatId, h.unreadCounts, h.savedIdentity,
    h.savedServers, h.savedChats⟩

theorem Alike.setMessages (h : app.Alike app') (id : JsString) {msgs msgs' : List Message}
    (hmsgs : msgs.map Message.outline = msgs'.map Message.outline) :
    (app.setMessages id msgs).Alike (app'.setMessages id msgs') := by
  refine ⟨h.identity, h.servers, h.chats, h.removedChats, fun id' => ?_, h.activeChatId, h.unreadCounts,
    h.savedIdentity, h.savedServers, h.savedChats⟩
  simp only [App.setMessages, OrderedMap.get?_set]
  split
  · rw [Option.map_some, Option.map_some, hmsgs]
  · exact h.messages id'

theorem Alike.pushMessage (h : app.Alike app') (id : JsString) {msg msg' : Message}
    (hmsg : msg.outline = msg'.outline) : (app.pushMessage id msg).Alike (app'.pushMessage id msg') := by
  apply h.setMessages
  rw [List.map_append, List.map_append, h.messagesOf, List.map_singleton, List.map_singleton, hmsg]

theorem Alike.setUnread (h : app.Alike app') (id : JsString) (count : Nat) :
    (app.setUnread id count).Alike (app'.setUnread id count) := by
  refine ⟨h.identity, h.servers, h.chats, h.removedChats, h.messages, h.activeChatId, fun id' => ?_,
    h.savedIdentity, h.savedServers, h.savedChats⟩
  simp only [App.setUnread, App.emit, OrderedMap.get?_set]
  split
  · rfl
  · exact h.unreadCounts id'

/-- The counter of a chat is cleared. -/
theorem Alike.read (h : app.Alike app') (id : JsString) :
    (if 0 < app.unreadOf id then app.setUnread id 0 else app).Alike
      (if 0 < app'.unreadOf id then app'.setUnread id 0 else app') := by
  rw [h.unreadOf]
  split
  · exact h.setUnread id 0
  · exact h

theorem Alike.setServers (h : app.Alike app') {servers servers' : List Server} (hservers : servers = servers') :
    (({ app with state := { app.state with servers } } : App).saveServers.emit .serverUpdate).Alike
      (({ app' with state := { app'.state with servers := servers' } } : App).saveServers.emit .serverUpdate) :=
  ⟨h.identity, hservers, h.chats, h.removedChats, h.messages, h.activeChatId, h.unreadCounts, h.savedIdentity,
    congrArg some hservers, h.savedChats⟩

theorem Alike.saveChats (h : app.Alike app') : app.saveChats.Alike app'.saveChats :=
  ⟨h.identity, h.servers, h.chats, h.removedChats, h.messages, h.activeChatId, h.unreadCounts, h.savedIdentity,
    h.savedServers, congrArg some h.chats⟩

theorem Alike.setLastSince (h : app.Alike app') (id : JsString) (since : Int) :
    (app.setLastSince id since).Alike (app'.setLastSince id since) := by
  have houtline : ∀ c : Chat, (withLastSince id since c).outline =
      if c.outline.id = id then { c.outline with lastSince := since } else c.outline := by
    intro c
    unfold withLastSince
    show Chat.outline (if c.id = id then _ else _) = if c.id = id then _ else _
    split <;> rfl
  have hmap : ∀ {l l' : List Chat}, l.map Chat.outline = l'.map Chat.outline →
      (l.map (withLastSince id since)).map Chat.outline = (l'.map (withLastSince id since)).map Chat.outline := by
    intro l l' hl
    have hcomp : Chat.outline ∘ withLastSince id since =
        (fun o => if o.id = id then { o with lastSince := since } else o) ∘ Chat.outline := funext houtline
    rw [List.map_map, List.map_map, hcomp, ← List.map_map, hl, List.map_map]
  exact ⟨h.identity, h.servers, hmap h.chats, hmap h.removedChats, h.messages, h.activeChatId, h.unreadCounts,
    h.savedIdentity, h.savedServers, h.savedChats⟩

/-! ### Calls -/

theorem Alike.createChat (h : app.Alike app') (name : JsString) (serverIds : List JsString) (chatId : JsString)
    {keyB64 keyB64' : JsString} (hkey : keyKind keyB64 = keyKind keyB64') {rand rand' : ChatRandom}
    (hid : rand.id = rand'.id) (hchatId : rand.chatId = rand'.chatId) :
    (∃ e, app.createChat name serverIds chatId keyB64 rand = .error e ∧
        app'.createChat name serverIds chatId keyB64' rand' = .error e) ∨
      ∃ c c' new new', app.createChat name serverIds chatId keyB64 rand = .ok (c, new) ∧
        app'.createChat name serverIds chatId keyB64' rand' = .ok (c', new') ∧ new.Alike new' := by
  unfold App.createChat
  by_cases hname : name = []
  · exact .inl ⟨_, if_pos hname, if_pos hname⟩
  by_cases hservers : serverIds = []
  · exact .inl ⟨_, (if_neg hname).trans (if_pos hservers), (if_neg hname).trans (if_pos hservers)⟩
  refine .inr ⟨_, _, _, _, (if_neg hname).trans (if_neg hservers), (if_neg hname).trans (if_neg hservers), ?_⟩
  refine Alike.emit (Alike.saveChats ?_) _ _
  -- The new chat is alike, and so is the list that it is added to.
  have hnew := keyKind_created hkey rand.key rand'.key
  rw [hid]
  refine Alike.setMessages ?_ _ rfl
  refine ⟨h.identity, h.servers, ?_, h.removedChats, h.messages, h.activeChatId, h.unreadCounts, h.savedIdentity,
    h.savedServers, h.savedChats⟩
  simp only [List.map_append, h.chats, List.map_singleton, Chat.outline, hnew, hchatId]

theorem Alike.importServers (h : app.Alike app') (fresh : Nat → JsString) (servers : List ExportedServer) :
    (app.importServers fresh servers).1.Alike (app'.importServers fresh servers).1 ∧
      (app.importServers fresh servers).2 = (app'.importServers fresh servers).2 := by
  induction servers generalizing app app' fresh with
  | nil => exact ⟨h, rfl⟩
  | cons s rest ih =>
    have hknown : app.knownServer? s = app'.knownServer? s := by
      rw [knownServer?, h.servers, knownServer?]
    unfold App.importServers
    rw [hknown]
    -- Both know the server, or both add it under the same id.
    cases app'.knownServer? s with
    | some existing =>
      obtain ⟨halike, hids⟩ := ih h fun i => fresh (i + 1)
      exact ⟨halike, congrArg (Except.map (existing.id :: ·)) hids⟩
    | none =>
      unfold App.addServer
      by_cases hvalid : s.url = [] ∨ s.token = []
      · rw [if_pos hvalid, if_pos hvalid]
        exact ⟨h, rfl⟩
      · rw [if_neg hvalid, if_neg hvalid]
        obtain ⟨halike, hids⟩ := ih (h.setServers (congrArg (· ++ _) h.servers)) fun i => fresh (i + 1)
        exact ⟨halike, congrArg (Except.map (fresh 0 :: ·)) hids⟩

theorem Alike.importChat (h : app.Alike app') {data data' : ExportedChat} (hdata : data.outline = data'.outline)
    (fresh : Nat → JsString) {rand rand' : ChatRandom} (hid : rand.id = rand'.id)
    (hchatId : rand.chatId = rand'.chatId) :
    (app.importChat data fresh rand).1.Alike (app'.importChat data' fresh rand').1 := by
  obtain ⟨name, chatId, keyB64, servers⟩ := data
  obtain ⟨name', chatId', keyB64', servers'⟩ := data'
  simp only [ExportedChat.outline, ExportOutline.mk.injEq] at hdata
  obtain ⟨rfl, rfl, hkey, rfl⟩ := hdata
  unfold App.importChat
  -- A key is missing in both texts or in none.
  by_cases hmissing : name = [] ∨ chatId = [] ∨ keyB64 = []
  · have hmissing' := hmissing.imp_right (Or.imp_right (eq_nil_congr hkey).mp)
    rw [if_pos hmissing, if_pos hmissing']
    exact h
  · have hmissing' := fun h' => hmissing (Or.imp_right (Or.imp_right (eq_nil_congr hkey).mpr) h')
    rw [if_neg hmissing, if_neg hmissing']
    obtain ⟨halike, hids⟩ := h.importServers fresh servers
    cases hservers : app.importServers fresh servers with
    | mk new result =>
      cases hservers' : app'.importServers fresh servers with
      | mk new' result' =>
        rw [hservers, hservers'] at halike hids
        obtain rfl : result = result' := hids
        cases result with
        | error e => exact halike
        | ok serverIds =>
          rcases halike.createChat name serverIds chatId hkey hid hchatId with
            ⟨e, hcreate, hcreate'⟩ | ⟨c, c', made, made', hcreate, hcreate', hmade⟩
          · simp only [hcreate, hcreate']
            exact halike
          · simp only [hcreate, hcreate']
            exact hmade

theorem Alike.removeChat (h : app.Alike app') (id : JsString) : (app.removeChat id).Alike (app'.removeChat id) := by
  have hfilter : ∀ (p : ChatOutline → Bool) {l l' : List Chat}, l.map Chat.outline = l'.map Chat.outline →
      (l.filter fun c => p c.outline).map Chat.outline = (l'.filter fun c => p c.outline).map Chat.outline := by
    intro p l l' hl
    have hcomp : ∀ l : List Chat, (l.filter fun c => p c.outline).map Chat.outline = (l.map Chat.outline).filter p :=
      fun l => (List.filter_map ..).symm
    rw [hcomp, hl, hcomp]
  refine Alike.emit (Alike.saveChats ?_) _ _
  refine ⟨h.identity, h.servers, hfilter (fun c => c.id ≠ id) h.chats, ?_, fun id' => ?_, ?_, h.unreadCounts,
    h.savedIdentity, h.savedServers, h.savedChats⟩
  · simp only [List.map_append, h.removedChats]
    exact congrArg _ (hfilter (fun c => c.id = id) h.chats)
  · simp only [OrderedMap.get?_delete]
    split
    · rfl
    · exact h.messages id'
  · simp only [h.activeChatId]

theorem Alike.setActiveChat (h : app.Alike app') (id : Option JsString) :
    (app.setActiveChat id).Alike (app'.setActiveChat id) := by
  have hactive : ∀ id : Option JsString, ({ app with state := { app.state with activeChatId := id } } : App).Alike
      { app' with state := { app'.state with activeChatId := id } } := fun id =>
    ⟨h.identity, h.servers, h.chats, h.removedChats, h.messages, rfl, h.unreadCounts, h.savedIdentity,
      h.savedServers, h.savedChats⟩
  unfold App.setActiveChat
  split
  · exact hactive none
  · exact hactive (some [])
  · rename_i id _
    -- A chat that was never opened gets its empty list in both.
    have hnone : (app.state.messages.get? id).isNone = (app'.state.messages.get? id).isNone := by
      have hget := congrArg Option.isNone (h.messages id)
      rwa [Option.isNone_map, Option.isNone_map] at hget
    have hopened : (if (app.state.messages.get? id).isNone then
          ({ app with state := { app.state with activeChatId := some id } } : App).setMessages id []
        else { app with state := { app.state with activeChatId := some id } }).Alike
        (if (app'.state.messages.get? id).isNone then
          ({ app' with state := { app'.state with activeChatId := some id } } : App).setMessages id []
        else { app' with state := { app'.state with activeChatId := some id } }) := by
      rw [hnone]
      split
      · exact (hactive (some id)).setMessages id rfl
      · exact hactive (some id)
    exact hopened.read id

theorem Alike.init (h : app.Alike app') (identity : JsString) :
    (App.init app.storage identity).Alike (App.init app'.storage identity) := by
  have hchats : (app.storage.chats.getD []).map Chat.outline = (app'.storage.chats.getD []).map Chat.outline := by
    have hget := congrArg (Option.getD · []) h.savedChats
    cases hs : app.storage.chats <;> cases hs' : app'.storage.chats <;>
      simp only [hs, hs', Option.map_some, Option.map_none, Option.getD_some, Option.getD_none] at hget ⊢ <;>
      simpa using hget
  -- The message lists are made for the ids.
  have hfold : ∀ chats : List Chat, chats.foldl
      (fun (m : OrderedMap JsString (List Message)) c => if (m.get? c.id).isNone then m.set c.id [] else m) .empty =
        ((chats.map Chat.outline).map ChatOutline.id).foldl
          (fun m id => if (m.get? id).isNone then m.set id [] else m) .empty := by
    intro chats
    rw [List.map_map, List.foldl_map]
    rfl
  have hidentity : (App.init app.storage identity).state.identity = (App.init app'.storage identity).state.identity := by
    simp only [App.init, h.savedIdentity]
  refine ⟨hidentity, congrArg (Option.getD · []) h.savedServers, hchats, rfl, fun id => ?_, rfl, fun _ => rfl,
    hidentity, h.savedServers, h.savedChats⟩
  simp only [App.init, hfold, hchats]

end App

/-- Two calls that differ in keys only. -/
inductive Action.Alike : Action → Action → Prop
  | same (a : Action) : Alike a a
  | createChat (name : JsString) (serverIds : List JsString) (chatId : JsString) {keyB64 keyB64' : JsString}
      (hkey : keyKind keyB64 = keyKind keyB64') {rand rand' : App.ChatRandom} (hid : rand.id = rand'.id)
      (hchatId : rand.chatId = rand'.chatId) :
      Alike (.createChat name serverIds chatId keyB64 rand) (.createChat name serverIds chatId keyB64' rand')
  | importChat {data data' : App.ExportedChat} (hdata : data.outline = data'.outline) (fresh : Nat → JsString)
      {rand rand' : App.ChatRandom} (hid : rand.id = rand'.id) (hchatId : rand.chatId = rand'.chatId) :
      Alike (.importChat data fresh rand) (.importChat data' fresh rand')

/-- **Calls do not depend on keys.** -/
theorem App.Alike.apply {app app' : App} (h : app.Alike app') {a a' : Action} (ha : a.Alike a') :
    (a.apply app).Alike (a'.apply app') := by
  have hcreate : ∀ (name : JsString) (serverIds : List JsString) (chatId : JsString) {keyB64 keyB64' : JsString}
      (_ : keyKind keyB64 = keyKind keyB64') {rand rand' : App.ChatRandom} (_ : rand.id = rand'.id)
      (_ : rand.chatId = rand'.chatId),
      (Action.apply app (.createChat name serverIds chatId keyB64 rand)).Alike
        (Action.apply app' (.createChat name serverIds chatId keyB64' rand')) := by
    intro name serverIds chatId keyB64 keyB64' hkey rand rand' hid hchatId
    simp only [Action.apply]
    rcases h.createChat name serverIds chatId hkey hid hchatId with
      ⟨e, hcreate, hcreate'⟩ | ⟨c, c', new, new', hcreate, hcreate', hnew⟩
    · rw [hcreate, hcreate']
      exact h
    · rw [hcreate, hcreate']
      exact hnew
  -- The calls that are given a key, and the same call in both.
  cases ha with
  | createChat name serverIds chatId hkey hid hchatId => exact hcreate name serverIds chatId hkey hid hchatId
  | importChat hdata fresh hid hchatId => exact h.importChat hdata fresh hid hchatId
  | same =>
    cases a with
    | addServer url token label id =>
      simp only [Action.apply, App.addServer]
      by_cases hvalid : url = [] ∨ token = []
      · rw [if_pos hvalid, if_pos hvalid]
        exact h
      · rw [if_neg hvalid, if_neg hvalid]
        exact h.setServers (congrArg (· ++ _) h.servers)
    | removeServer id => exact h.setServers (congrArg (List.filter _) h.servers)
    | createChat name serverIds chatId keyB64 rand => exact hcreate name serverIds chatId rfl rfl rfl
    | importChat data fresh rand => exact h.importChat rfl fresh rfl rfl
    | removeChat id => exact h.removeChat id
    | setActiveChat id => exact h.setActiveChat id
    | reload identity => exact h.init identity

/-! ### Polls -/

/-- Two loops of `pollChat` that differ in the key. -/
structure PollLoop.Alike (loop loop' : PollLoop) : Prop where
  chat : loop.chat.outline = loop'.chat.outline
  isActive : loop.isActive = loop'.isActive
  newCount : loop.newCount = loop'.newCount
  maxTimestamp : loop.maxTimestamp = loop'.maxTimestamp

section Poll

variable {app app' : App} {loop loop' : PollLoop}

theorem PollLoop.Alike.id (hloop : loop.Alike loop') : loop.chat.id = loop'.chat.id :=
  congrArg ChatOutline.id hloop.chat

theorem PollLoop.Alike.deliver (hloop : loop.Alike loop') (h : app.Alike app') (W W' : WebCrypto)
    (p : PendingMessage) : (loop.deliver W app p).1.Alike (loop'.deliver W' app' p).1 ∧
      (loop.deliver W app p).2.Alike (loop'.deliver W' app' p).2 := by
  have hmsg : (loop.received W p).outline = (loop'.received W' p).outline := by
    simp only [PollLoop.received, Message.outline]
    rw [show loop.chat.chatId = loop'.chat.chatId from congrArg ChatOutline.chatId hloop.chat]
  have hpush := h.pushMessage loop.chat.id hmsg
  unfold PollLoop.deliver
  rw [hloop.isActive, hloop.newCount, hloop.maxTimestamp]
  rw [hloop.id] at hpush ⊢
  refine ⟨?_, hloop.chat, rfl, rfl, rfl⟩
  cases loop'.isActive with
  | false => exact hpush
  | true => exact hpush.emit _ _

theorem PollLoop.Alike.finish (hloop : loop.Alike loop') (h : app.Alike app') :
    (loop.finish app).Alike (loop'.finish app') := by
  unfold PollLoop.finish
  rw [hloop.isActive, hloop.newCount, hloop.maxTimestamp, hloop.id, h.lastSince]
  have hcursor : (if app'.lastSince loop'.chat.id < loop'.maxTimestamp then
        (app.setLastSince loop'.chat.id loop'.maxTimestamp).saveChats else app).Alike
      (if app'.lastSince loop'.chat.id < loop'.maxTimestamp then
        (app'.setLastSince loop'.chat.id loop'.maxTimestamp).saveChats else app') := by
    split
    · exact (h.setLastSince _ _).saveChats
    · exact h
  simp only [hcursor.unreadOf]
  split
  · exact hcursor.setUnread _ _
  · exact hcursor

theorem PollLoop.Alike.run (hloop : loop.Alike loop') (h : app.Alike app') (W W' : WebCrypto)
    (pending : List PendingMessage) : (loop.run W app pending).Alike (loop'.run W' app' pending) := by
  induction pending generalizing app app' loop loop' with
  | nil => exact hloop.finish h
  | cons p rest ih =>
    obtain ⟨happ, hnext⟩ := hloop.deliver h W W' p
    exact ih hnext happ

/-- What the GETs of a poll ask for, and whom, unless no poll gets so far. -/
def App.query (app : App) (chat : Chat) : Option (JsString × Int × List Server) :=
  ((pollStart app chat).bind (PollStart.fetch app)).map fun p => (p.chat.chatId, p.since, p.servers)

/-- Both get as far as asking, or neither does. -/
theorem App.Alike.fetch (h : app.Alike app') {chat chat' : Chat} (hchat : chat.outline = chat'.outline) :
    ((pollStart app chat).bind (PollStart.fetch app) = none ∧
        (pollStart app' chat').bind (PollStart.fetch app') = none) ∨
      ∃ key key', (pollStart app chat).bind (PollStart.fetch app) =
          some ⟨chat, app'.resolveServers chat'.serverIds, key, app'.lastSince chat'.id⟩ ∧
        (pollStart app' chat').bind (PollStart.fetch app') =
          some ⟨chat', app'.resolveServers chat'.serverIds, key', app'.lastSince chat'.id⟩ := by
  have hservers : app.resolveServers chat.serverIds = app'.resolveServers chat'.serverIds := by
    rw [h.resolveServers, show chat.serverIds = chat'.serverIds from congrArg ChatOutline.serverIds hchat]
  have hsince : app.lastSince chat.id = app'.lastSince chat'.id := by
    rw [h.lastSince, show chat.id = chat'.id from congrArg ChatOutline.id hchat]
  have hkind : keyKind chat.keyB64 = keyKind chat'.keyB64 := congrArg ChatOutline.key hchat
  rw [← hservers, ← hsince]
  unfold pollStart
  simp only [← hservers]
  by_cases hnone : app.resolveServers chat.serverIds = []
  · rw [if_pos hnone, if_pos hnone]
    exact .inl ⟨rfl, rfl⟩
  · rw [if_neg hnone, if_neg hnone]
    simp only [Option.bind_some, PollStart.fetch]
    -- One key can be imported iff the other one can.
    have hsome := (isSome_importKey chat.keyB64).trans (hkind ▸ (isSome_importKey chat'.keyB64).symm)
    cases hkey : importKey chat.keyB64 with
    | none =>
      have hkey' : importKey chat'.keyB64 = none := by
        rw [← Option.not_isSome_iff_eq_none, ← hsome, hkey]
        exact Bool.false_ne_true
      rw [hkey']
      exact .inl ⟨rfl, rfl⟩
    | some key =>
      obtain ⟨key', hkey'⟩ := Option.isSome_iff_exists.mp (hsome.mp (hkey ▸ rfl))
      rw [hkey', hsince]
      exact .inr ⟨key, key', rfl, rfl⟩

/-- **Polls do not depend on keys.** -/
theorem App.Alike.pollChat (h : app.Alike app') {chat chat' : Chat} (hchat : chat.outline = chat'.outline)
    (W W' : WebCrypto) (answer : Answer) :
    (Frag.pollChat W app chat answer).Alike (Frag.pollChat W' app' chat' answer) := by
  have hid : chat.id = chat'.id := congrArg ChatOutline.id hchat
  unfold Frag.pollChat
  rcases h.fetch hchat with ⟨hnone, hnone'⟩ | ⟨key, key', hfetch, hfetch'⟩
  · rw [hnone, hnone']
    exact h
  · rw [hfetch, hfetch']
    -- From the answers on, the polls differ in what `decrypt` makes of a message.
    have hresults : PollFetch.results ⟨chat, app'.resolveServers chat'.serverIds, key, app'.lastSince chat'.id⟩ answer =
        PollFetch.results ⟨chat', app'.resolveServers chat'.serverIds, key', app'.lastSince chat'.id⟩ answer := by
      simp only [PollFetch.results]
      rw [show chat.chatId = chat'.chatId from congrArg ChatOutline.chatId hchat]
    simp only [PollFetch.collect, hresults, hid, h.ids, h.lastSince, h.activeChatId]
    cases byMessage _ with
    | none => exact h
    | some m =>
      refine PollLoop.Alike.run ?_ h W W' _
      exact ⟨hchat, rfl, rfl, rfl⟩

end Poll

/-! ### Exports and sends -/

section Send

variable {app app' : App}

theorem App.Alike.exportServers (h : app.Alike app') (serverIds : List JsString) :
    app.exportServers serverIds = app'.exportServers serverIds := by
  have hserver : app.server? = app'.server? := by
    funext sid
    rw [App.server?, h.servers, App.server?]
  induction serverIds with
  | nil => rfl
  | cons sid rest ih => rw [App.exportServers, App.exportServers, hserver, ih]

theorem App.Alike.exportChat (h : app.Alike app') (id : JsString) :
    (app.exportChat id).map App.ExportedChat.outline = (app'.exportChat id).map App.ExportedChat.outline := by
  unfold App.exportChat
  rcases present_or_absent (h.find? id) with ⟨hnone, hnone'⟩ | ⟨chat, chat', hchat, hchat', houtline⟩
  · rw [hnone, hnone']
  · rw [hchat, hchat']
    simp only [show chat.serverIds = chat'.serverIds from congrArg ChatOutline.serverIds houtline,
      h.exportServers]
    cases app'.exportServers chat'.serverIds with
    | error e => rfl
    | ok servers =>
      simp only [Except.map, App.ExportedChat.outline, Except.ok.injEq, ExportOutline.mk.injEq]
      exact ⟨congrArg ChatOutline.name houtline, congrArg ChatOutline.chatId houtline,
        congrArg ChatOutline.key houtline, trivial⟩

/-- **A send depends on the blob only.** -/
theorem App.Alike.sendMessage (h : app.Alike app') {W W' : WebCrypto} {text text' : JsString} (ttl : Option Rat)
    {rand rand' : SendRandom} (hid : rand.messageId = rand'.messageId) (hnow : rand.now = rand'.now)
    (hblob : (app.getActiveChat.bind fun chat => (importKey chat.keyB64).map fun key =>
        encrypt W key rand.iv text) =
      app'.getActiveChat.bind fun chat => (importKey chat.keyB64).map fun key => encrypt W' key rand'.iv text') :
    (∃ e, Frag.sendMessage W app text ttl rand = .error e ∧ Frag.sendMessage W' app' text' ttl rand' = .error e) ∨
      ∃ o o', Frag.sendMessage W app text ttl rand = .ok o ∧ Frag.sendMessage W' app' text' ttl rand' = .ok o' ∧
        o.chat.outline = o'.chat.outline ∧ o.messageId = o'.messageId ∧ o.now = o'.now ∧ o.posts = o'.posts := by
  unfold Frag.sendMessage
  rw [h.identity]
  rcases present_or_absent h.getActiveChat with ⟨hnone, hnone'⟩ | ⟨chat, chat', hchat, hchat', houtline⟩
  · rw [hnone, hnone']
    exact .inl ⟨_, rfl, rfl⟩
  · have hservers : app.resolveServers chat.serverIds = app'.resolveServers chat'.serverIds := by
      rw [h.resolveServers, show chat.serverIds = chat'.serverIds from congrArg ChatOutline.serverIds houtline]
    rw [hchat, hchat', Option.bind_some, Option.bind_some] at hblob
    rw [hchat, hchat']
    cases app'.state.identity with
    | none => exact .inl ⟨_, rfl, rfl⟩
    | some senderHash =>
      simp only [hservers]
      split
      · exact .inl ⟨_, rfl, rfl⟩
      · -- The keys are two, and the blob is one.
        rcases present_or_absent hblob with ⟨hkey, hkey'⟩ | ⟨key, key', hkey, hkey', hsame⟩
        · rw [hkey, hkey']
          exact .inl ⟨_, rfl, rfl⟩
        · rw [hkey, hkey']
          refine .inr ⟨_, _, rfl, rfl, houtline, hid, hnow, ?_⟩
          simp only [hsame, hid, fragmentFor,
            show chat.chatId = chat'.chatId from congrArg ChatOutline.chatId houtline]

theorem App.Alike.settle (h : app.Alike app') {o o' : Outgoing} (hchat : o.chat.outline = o'.chat.outline)
    (hid : o.messageId = o'.messageId) (hnow : o.now = o'.now) (accepted : List Bool) :
    (o.settle app accepted).1.Alike (o'.settle app' accepted).1 := by
  rw [Outgoing.settle_fst, Outgoing.settle_fst]
  refine App.Alike.emit ?_ _ _
  rw [show o.chat.id = o'.chat.id from congrArg ChatOutline.id hchat]
  apply h.pushMessage
  simp only [Outgoing.message, Message.outline, hid, hnow, h.identity,
    show o.chat.chatId = o'.chat.chatId from congrArg ChatOutline.chatId hchat]

end Send

/-! ## Systems -/

variable {B ι : Type} [DecidableEq B] [DecidableEq ι]

/-- Two events that differ in keys, texts and what browsers draw for the encryption. -/
inductive Event.Alike : Event B ι → Event B ι → Prop
  | same (e : Event B ι) : Alike e e
  | act (i : ι) {a a' : Action} (ha : a.Alike a') : Alike (.act i a) (.act i a')
  | send (i : ι) (text text' : JsString) (ttl : Option Rat) {rand rand' : SendRandom}
      (hid : rand.messageId = rand'.messageId) (hnow : rand.now = rand'.now) :
      Alike (.send i text ttl rand) (.send i text' ttl rand')

/-- Two systems that differ in keys and texts. -/
structure World.Alike (w w' : World B ι) : Prop where
  stores : w.stores = w'.stores
  apps : ∀ i, (w.apps i).Alike (w'.apps i)
  sent : w.sent.map Sent.outline = w'.sent.map Sent.outline
  accepted : w.accepted = w'.accepted
  exports : w.exports.map App.ExportedChat.outline = w'.exports.map App.ExportedChat.outline

namespace World

/-- The blob that a send encrypts its text to. -/
def blob (E : Env B) (w : World B ι) : Event B ι → Option JsString
  | .send i text _ rand => (w.apps i).getActiveChat.bind fun chat =>
      (importKey chat.keyB64).map fun key => encrypt E.crypto key rand.iv text
  | _ => none

/-- What the GETs of a poll ask for, and whom. -/
def query (w : World B ι) (i : ι) (id : JsString) : Option (JsString × Int × List Server) :=
  (w.chat? i id).bind (w.apps i).query

/-- Two events that produce the same blob, if any. -/
structure SameBlob (E E' : Env B) (w : World B ι × World B ι) (e : Event B ι × Event B ι) : Prop where
  alike : e.1.Alike e.2
  blob : w.1.blob E e.1 = w.2.blob E' e.2

variable {E E' : Env B} {w w' : World B ι} {e e' : Event B ι}

omit [DecidableEq B] [DecidableEq ι] in
theorem Alike.sent? (h : w.Alike w') (k : Nat) :
    w.sent[k]?.map Sent.outline = w'.sent[k]?.map Sent.outline := by
  rw [← List.getElem?_map, h.sent, List.getElem?_map]

omit [DecidableEq B] [DecidableEq ι] in
/-- The requests that are on their way are the same. -/
theorem Alike.request (h : w.Alike w') (k j : Nat) :
    (w.request k j).map (fun q => (q.1.messageId, q.2)) = (w'.request k j).map fun q => (q.1.messageId, q.2) := by
  have hsent := h.sent? k
  have hout : ∀ o : Option (Sent ι), ((o.bind fun s => s.posts[j]?.map fun p => (s, p)).map
      fun q => (q.1.messageId, q.2)) =
        (o.map Sent.outline).bind fun s => s.posts[j]?.map fun p => (s.messageId, p) := by
    intro o
    cases o with
    | none => rfl
    | some s =>
      simp only [Option.bind_some, Option.map_some, Option.map_map]
      rfl
  rw [World.request, World.request, hout, hsent, hout]

omit [DecidableEq B] [DecidableEq ι] in
theorem Alike.chat? (h : w.Alike w') (i : ι) (id : JsString) :
    (w.chat? i id).map Chat.outline = (w'.chat? i id).map Chat.outline := (h.apps i).find? id

omit [DecidableEq B] [DecidableEq ι] in
theorem Alike.query (h : w.Alike w') (i : ι) (id : JsString) : w.query i id = w'.query i id := by
  unfold World.query
  rcases present_or_absent (h.chat? i id) with ⟨hnone, hnone'⟩ | ⟨chat, chat', hchat, hchat', houtline⟩
  · rw [hnone, hnone']
    rfl
  · rw [hchat, hchat', Option.bind_some, Option.bind_some, App.query, App.query]
    rcases (h.apps i).fetch houtline with ⟨hnone, hnone'⟩ | ⟨key, key', hfetch, hfetch'⟩
    · rw [hnone, hnone']
    · rw [hfetch, hfetch']
      simp only [Option.map_some, show chat.chatId = chat'.chatId from congrArg ChatOutline.chatId houtline]

omit [DecidableEq B] in
/-- A client is replaced by one that is alike. -/
theorem Alike.update (h : w.Alike w') (i : ι) {app app' : App} (happ : app.Alike app') (j : ι) :
    (Function.update w.apps i app j).Alike (Function.update w'.apps i app' j) := by
  by_cases hj : j = i
  · subst hj
    rw [Function.update_self, Function.update_self]
    exact happ
  · rw [Function.update_of_ne hj, Function.update_of_ne hj]
    exact h.apps j

/-! ### One event -/

theorem Alike.act (h : w.Alike w') (i : ι) {a a' : Action} (ha : a.Alike a') :
    (w.step E (.act i a)).Alike (w'.step E' (.act i a')) :=
  ⟨h.stores, h.update i ((h.apps i).apply ha), h.sent, h.accepted, h.exports⟩

/-- A send leaves the same fragments on their way, if it encrypts to the same blob. -/
theorem Alike.send (h : w.Alike w') (i : ι) (text text' : JsString) (ttl : Option Rat)
    {rand rand' : SendRandom} (hid : rand.messageId = rand'.messageId) (hnow : rand.now = rand'.now)
    (hblob : w.blob E (.send i text ttl rand) = w'.blob E' (.send i text' ttl rand')) :
    (w.step E (.send i text ttl rand)).Alike (w'.step E' (.send i text' ttl rand')) := by
  simp only [World.step]
  rcases (h.apps i).sendMessage ttl hid hnow hblob with
    ⟨e, hsend, hsend'⟩ | ⟨o, o', hsend, hsend', hchat, hmid, hnow, hposts⟩
  · rw [hsend, hsend']
    exact h
  · rw [hsend, hsend']
    refine ⟨h.stores, h.apps, ?_, h.accepted, h.exports⟩
    simp only [List.map_append, h.sent, List.map_singleton, Sent.outline, hchat, hmid, hnow, hposts,
      (h.apps i).identity]

theorem Alike.share (h : w.Alike w') (i : ι) (id : JsString) :
    (w.step E (.share i id)).Alike (w'.step E' (.share i id)) := by
  have hexport := (h.apps i).exportChat id
  simp only [World.step]
  cases hw : (w.apps i).exportChat id with
  | error e =>
    cases hw' : (w'.apps i).exportChat id with
    | error e' => exact h
    | ok data' =>
      rw [hw, hw'] at hexport
      cases hexport
  | ok data =>
    cases hw' : (w'.apps i).exportChat id with
    | error e' =>
      rw [hw, hw'] at hexport
      cases hexport
    | ok data' =>
      -- The data differ in the key.
      rw [hw, hw'] at hexport
      refine ⟨h.stores, h.apps, h.sent, h.accepted, ?_⟩
      simp only [List.map_append, h.exports, List.map_singleton, Except.ok.inj hexport]

/-- The same fragments go to the same backends. -/
theorem Alike.post (hE : E.backend = E'.backend) (h : w.Alike w') (k j : Nat) (now : Int) :
    (w.step E (.post k j now)).Alike (w'.step E' (.post k j now)) := by
  simp only [World.step]
  rcases present_or_absent (h.request k j) with
    ⟨hnone, hnone'⟩ | ⟨⟨s, p⟩, ⟨s', p'⟩, hrequest, hrequest', hsame⟩
  · rw [hnone, hnone']
    exact h
  · obtain ⟨hid, rfl⟩ := Prod.mk.inj hsame
    rw [hrequest, hrequest']
    simp only [h.stores, hE, h.accepted, show s.messageId = s'.messageId from hid]
    exact ⟨rfl, h.apps, h.sent, rfl, h.exports⟩

theorem Alike.settle (h : w.Alike w') (k : Nat) (accepted : List Bool) :
    (w.step E (.settle k accepted)).Alike (w'.step E' (.settle k accepted)) := by
  simp only [World.step]
  rcases present_or_absent (h.sent? k) with ⟨hnone, hnone'⟩ | ⟨s, s', hs, hs', houtline⟩
  · rw [hnone, hnone']
    exact h
  · rw [hs, hs']
    have hclient : s.client = s'.client := congrArg SentOutline.client houtline
    have hsettled := (h.apps s'.client).settle (congrArg SentOutline.chat houtline)
      (congrArg SentOutline.messageId houtline) (congrArg SentOutline.now houtline) accepted
    simp only [hclient]
    exact ⟨h.stores, h.update s'.client hsettled, h.sent, h.accepted, h.exports⟩

/-- The answers are the same, and so is what a client makes of them, up to texts. -/
theorem Alike.poll (hE : E.backend = E'.backend) (h : w.Alike w') (i : ι) (id : JsString)
    (up : Server → Bool) : (w.step E (.poll i id up)).Alike (w'.step E' (.poll i id up)) := by
  have hanswer : w.answer E up = w'.answer E' up := by
    funext server chatId since
    rw [World.answer, World.answer, h.stores, hE]
  simp only [World.step]
  rcases present_or_absent (h.chat? i id) with ⟨hnone, hnone'⟩ | ⟨chat, chat', hchat, hchat', houtline⟩
  · rw [hnone, hnone']
    exact h
  · rw [hchat, hchat']
    simp only [hanswer]
    exact ⟨h.stores, h.update i ((h.apps i).pollChat houtline E.crypto E'.crypto _), h.sent, h.accepted,
      h.exports⟩

/-- **The systems stay alike.** -/
theorem Alike.step (hE : E.backendOf = E'.backendOf) (h : w.Alike w') (he : SameBlob E E' (w, w') (e, e')) :
    (w.step E e).Alike (w'.step E' e') := by
  have hbackend : E.backend = E'.backend := by
    funext server
    rw [Env.backend, hE, Env.backend]
  obtain ⟨halike, hblob⟩ := he
  cases halike with
  | act i ha => exact h.act i ha
  | send i text text' ttl hid hnow => exact h.send i text text' ttl hid hnow hblob
  | same =>
    cases e with
    | act i a => exact h.act i (.same a)
    | send i text ttl rand => exact h.send i text text ttl rfl rfl hblob
    | share i id => exact h.share i id
    | post k j now => exact h.post hbackend k j now
    | settle k accepted => exact h.settle k accepted
    | poll i id up => exact h.poll hbackend i id up
    | purge b now =>
      simp only [World.step, h.stores]
      exact ⟨rfl, h.apps, h.sent, h.accepted, h.exports⟩

variable (E E') in
/-- **Backends and network learn the ciphertexts only**: after the same events, up to keys and texts,
    with sends that produce the same blobs, all tables and all requests are the same. -/
theorem servers_learn_ciphertexts_only (hE : E.backendOf = E'.backendOf) (h : w.Alike w')
    {es : List (Event B ι × Event B ι)} (hes : Along (both (step E) (step E')) (SameBlob E E') (w, w') es) :
    let v := run (step E) w (es.map Prod.fst)
    let v' := run (step E') w' (es.map Prod.snd)
    v.stores = v'.stores ∧ v.accepted = v'.accepted ∧
      (∀ k j, (v.request k j).map Prod.snd = (v'.request k j).map Prod.snd) ∧
      ∀ i id, v.query i id = v'.query i id := by
  intro v v'
  have halike : v.Alike v' := by
    have hboth := hes.invariant (fun p => p.1.Alike p.2) h fun p e hok hp => hp.step hE hok
    rwa [run_both] at hboth
  refine ⟨halike.stores, halike.accepted, fun k j => ?_, halike.query⟩
  have hrequest := congrArg (Option.map Prod.snd) (halike.request k j)
  rwa [Option.map_map, Option.map_map] at hrequest

end World

/-! ## Two systems to compare -/

namespace Sample

/-- A browser that encrypts `no` as the other one encrypts `hi`. -/
def otherCrypto : WebCrypto where
  encrypt _ iv plaintext :=
    sampleCrypto.encrypt zeroKey iv (if plaintext = Unicode.textEncode (js "no") then Unicode.textEncode (js "hi") else plaintext)
  decrypt _ iv ciphertext := (sampleCrypto.decrypt zeroKey iv ciphertext).map fun plaintext =>
    if plaintext = Unicode.textEncode (js "hi") then Unicode.textEncode (js "no") else plaintext

def otherEnv : Env JsString where
  crypto := otherCrypto
  backendOf := fun url => url

/-- The chat with another key. -/
def otherChat : Chat := { chat with keyB64 := js "AQEBAQEBAQEBAQEBAQEBAQEBAQEBAQEBAQEBAQEBAQE=" }

/-- The application with other chats, which are saved. -/
def withChats (app : App) (chats : List Chat) : App where
  state := { app.state with chats }
  storage := { app.storage with chats := some chats }

def otherWorld : World JsString Bool := { world with apps := fun i => withChats (world.apps i) [otherChat] }

theorem alike_withChats {app : App} {chats : List Chat} (hsaved : app.storage.chats = some app.state.chats)
    (hchats : app.state.chats.map Chat.outline = chats.map Chat.outline) : app.Alike (withChats app chats) :=
  ⟨rfl, rfl, hchats, rfl, fun _ => rfl, rfl, fun _ => rfl, rfl, rfl, hsaved ▸ congrArg some hchats⟩

theorem alike_otherWorld : world.Alike otherWorld where
  stores := rfl
  apps _ := by
    have hkind : keyKind chat.keyB64 = keyKind otherChat.keyB64 :=
      ((isSome_importKey _).mp (by decide +kernel)).trans ((isSome_importKey _).mp (by decide +kernel)).symm
    exact alike_withChats rfl (congrArg (fun c => [c]) (chat.outline_of_keyKind hkind))
  sent := rfl
  accepted := rfl
  exports := rfl

/-- `hi` on one side and `no` on the other, sent and read. -/
def sideBySide : List (Event JsString Bool × Event JsString Bool) :=
  [(say true 1, .send true (js "no") (some 0) (draw 1)), (.post 0 0 100, .post 0 0 100),
    (.post 0 1 100, .post 0 1 100), (look, look)]

/-- Both sides send the same blob. -/
theorem blob_sideBySide : world.blob env (say true 1) =
    otherWorld.blob otherEnv (.send true (js "no") (some 0) (draw 1)) := by
  have hraw : (importKey chat.keyB64).map AesKey.raw = some zeroKey.raw := by decide +kernel
  have hsome : (importKey otherChat.keyB64).isSome = true := by decide +kernel
  obtain ⟨⟨_, _⟩, hkey, rfl⟩ := Option.map_eq_some_iff.mp hraw
  obtain ⟨key', hkey'⟩ := Option.isSome_iff_exists.mp hsome
  have hblob : (importKey chat.keyB64).map (fun key => encrypt sampleCrypto key zeroIv (js "hi")) =
      (importKey otherChat.keyB64).map fun key => encrypt otherCrypto key zeroIv (js "no") := by
    rw [hkey, hkey', Option.map_some, Option.map_some]
    have hswap : otherCrypto.encrypt key' zeroIv (Unicode.textEncode (js "no")) =
        sampleCrypto.encrypt zeroKey zeroIv (Unicode.textEncode (js "hi")) := by
      simp only [otherCrypto, if_true]
    rw [encrypt, encrypt, hswap]
  exact hblob

end Sample

open Sample in
theorem sample_servers_learn_ciphertexts_only :
    let v := run (World.step env) world (sideBySide.map Prod.fst)
    let v' := run (World.step otherEnv) otherWorld (sideBySide.map Prod.snd)
    v.stores = v'.stores ∧ v.accepted = v'.accepted ∧
      (∀ k j, (v.request k j).map Prod.snd = (v'.request k j).map Prod.snd) ∧
      ∀ i id, v.query i id = v'.query i id :=
  World.servers_learn_ciphertexts_only env otherEnv rfl alike_otherWorld
    ⟨⟨.send true _ _ _ rfl rfl, blob_sideBySide⟩, ⟨.same _, rfl⟩, ⟨.same _, rfl⟩, ⟨.same _, rfl⟩, trivial⟩

end Frag
