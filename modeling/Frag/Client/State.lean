import Frag.Client.Crypto
import Frag.Library.OrderedMap

/-!
# Application State

The state object of `app.js`, its persisted part, and the operations on servers
and chats. Only what the modelled functions read is kept: the `online` flags and
labels of the health dashboard and the poll timer are left out, and the nicknames,
which nothing here reads, are in a module of their own.

`App` pairs the in-memory state with the `localStorage` of its origin. Values
written with `Store.set` are plain data, so `JSON.parse` reads them back as they
were; the storage holds them directly.

`generateId()` and the random bytes of a generated key are inputs of the
operations that draw them.
-/

namespace Frag

/-! ## Records -/

/-- An entry of `state.servers`. -/
structure Server where
  id : JsString
  url : JsString
  token : JsString
  label : JsString
  deriving DecidableEq, Repr

/-- An entry of `state.chats`. -/
structure Chat where
  id : JsString
  name : JsString
  serverIds : List JsString
  chatId : JsString
  keyB64 : JsString
  lastSince : Int
  deriving DecidableEq, Repr

/-- What the members of a chat share: its id and its key. -/
def Chat.shared (c : Chat) : JsString × JsString := (c.chatId, c.keyB64)

/-- `status` of a message: `'sent'`, `'partial'` or `'received'`. -/
inductive MessageStatus where
  | sent
  | inPart
  | received
  deriving DecidableEq, Repr

/-- An entry of `state.messages[chat.id]`. -/
structure Message where
  id : JsString
  chatId : JsString
  senderHash : JsString
  text : JsString
  timestamp : Int
  status : MessageStatus
  deriving DecidableEq, Repr

/-- What a function throws: an `Error` with its message, or an exception of the
    platform (a rejected `crypto.subtle` promise, an `atob` error). -/
inductive Failure where
  | error (message : JsString)
  | domException
  deriving DecidableEq, Repr

/-- `new Error(message)` -/
def Failure.of (message : String) : Failure := .error (js message)

/-- An `emit(event, data)` call; listeners of the UI layer observe these. -/
inductive AppEvent where
  | message (chatId : JsString) (message : Message)
  | chatUpdate
  | serverUpdate
  | identityReady
  | unread (chatId : JsString) (count : Nat)
  deriving DecidableEq, Repr

/-- The state object. `removedChats` keeps the chat objects that `removeChat` took
    out of `chats`: a suspended execution may still hold a reference to one. -/
structure State where
  identity : Option JsString
  servers : List Server
  chats : List Chat
  removedChats : List Chat
  messages : OrderedMap JsString (List Message)
  activeChatId : Option JsString
  unreadCounts : OrderedMap JsString Nat
  emitted : List AppEvent

/-- The keys `identity`, `servers` and `chats` of `localStorage`. -/
structure LocalStorage where
  identity : Option JsString
  servers : Option (List Server)
  chats : Option (List Chat)

/-- An instance of the application and the storage it persists to. -/
structure App where
  state : State
  storage : LocalStorage

namespace App

/-- `state` before `init`. -/
def initialState : State where
  identity := none
  servers := []
  chats := []
  removedChats := []
  messages := .empty
  activeChatId := none
  unreadCounts := .empty
  emitted := []

def emit (app : App) (event : AppEvent) : App :=
  { app with state := { app.state with emitted := app.state.emitted ++ [event] } }

/-! ## Persistence -/

/-- `saveServers()` -/
def saveServers (app : App) : App :=
  { app with storage := { app.storage with servers := some app.state.servers } }

/-- `saveChats()` -/
def saveChats (app : App) : App :=
  { app with storage := { app.storage with chats := some app.state.chats } }

/-- `state.messages[chatId] || []` -/
def messagesOf (app : App) (chatId : JsString) : List Message :=
  (app.state.messages.get? chatId).getD []

/-- `state.messages[chatId] = msgs` -/
def setMessages (app : App) (chatId : JsString) (msgs : List Message) : App :=
  { app with state := { app.state with messages := app.state.messages.set chatId msgs } }

/-- `(state.messages[chatId] || (state.messages[chatId] = [])).push(msg)` -/
def pushMessage (app : App) (chatId : JsString) (msg : Message) : App :=
  app.setMessages chatId (app.messagesOf chatId ++ [msg])

/-! ## Servers -/

/-- `url.replace(/\/$/, '')` -/
def stripSlash (url : JsString) : JsString :=
  if url.getLast? = some 0x2F then url.dropLast else url

/-- `state.servers.find(s => s.id === id)` -/
def server? (app : App) (id : JsString) : Option Server :=
  app.state.servers.find? fun s => s.id = id

/-- `addServer({ url, token, label })`, with the drawn id. -/
def addServer (app : App) (url token label id : JsString) : Except Failure (Server × App) :=
  if url = [] ∨ token = [] then .error (.of "URL and token are required")
  else
    let server : Server :=
      { id, url := stripSlash url, token, label := if label = [] then url else label }
    let app : App :=
      { app with state := { app.state with servers := app.state.servers ++ [server] } }
    .ok (server, app.saveServers.emit .serverUpdate)

/-- `removeServer(id)` -/
def removeServer (app : App) (id : JsString) : App :=
  let servers := app.state.servers.filter fun s => s.id ≠ id
  ({ app with state := { app.state with servers := servers } } : App).saveServers.emit .serverUpdate

/-- `chat.serverIds.map(sid => state.servers.find(s => s.id === sid)).filter(Boolean)` -/
def resolveServers (app : App) (serverIds : List JsString) : List Server :=
  serverIds.filterMap app.server?

/-! ## Chats -/

/-- What `createChat` draws when it needs to: an internal id, a chat id and a key. -/
structure ChatRandom where
  id : Uuid
  chatId : Uuid
  key : AesKey

/-- `createChat({ name, serverIds, chatId, keyB64 })`; an empty `chatId` or `keyB64`
    stands for one that is not given. -/
def createChat (app : App) (name : JsString) (serverIds : List JsString)
    (chatId keyB64 : JsString) (rand : ChatRandom) : Except Failure (Chat × App) :=
  if name = [] then .error (.of "Chat name required")
  else if serverIds = [] then .error (.of "Select at least one server")
  else
    let chat : Chat :=
      { id := rand.id.val
        name, serverIds
        chatId := if chatId = [] then rand.chatId.val else chatId
        keyB64 := if keyB64 = [] then Base64.btoa rand.key.raw else keyB64
        lastSince := 0 }
    let app : App :=
      { app with state := { app.state with chats := app.state.chats ++ [chat] } }
    .ok (chat, ((app.setMessages chat.id []).saveChats).emit .chatUpdate)

/-- `removeChat(id)` -/
def removeChat (app : App) (id : JsString) : App :=
  let app : App :=
    { app with
      state := { app.state with
        chats := app.state.chats.filter fun c => c.id ≠ id
        removedChats := app.state.removedChats ++ app.state.chats.filter fun c => c.id = id
        messages := app.state.messages.delete id
        activeChatId := if app.state.activeChatId = some id then none else app.state.activeChatId } }
  app.saveChats.emit .chatUpdate

/-- `state.unreadCounts[chatId] || 0` -/
def unreadOf (app : App) (chatId : JsString) : Nat :=
  (app.state.unreadCounts.get? chatId).getD 0

/-- `state.unreadCounts[chatId] = count; emit('unread', { chatId, count })` -/
def setUnread (app : App) (chatId : JsString) (count : Nat) : App :=
  ({ app with state :=
    { app.state with unreadCounts := app.state.unreadCounts.set chatId count } } : App).emit
      (.unread chatId count)

/-- `setActiveChat(chatId)`; `null` and `''` are no chat. -/
def setActiveChat (app : App) (chatId : Option JsString) : App :=
  let app : App := { app with state := { app.state with activeChatId := chatId } }
  match chatId with
  | none | some [] => app
  | some id =>
    let app := if (app.state.messages.get? id).isNone then app.setMessages id [] else app
    if 0 < app.unreadOf id then app.setUnread id 0 else app

/-- `getActiveChat()` -/
def getActiveChat (app : App) : Option Chat :=
  app.state.chats.find? fun c => some c.id = app.state.activeChatId

/-- The chat object a suspended execution refers to. -/
def chat? (app : App) (id : JsString) : Option Chat :=
  (app.state.chats ++ app.state.removedChats).find? fun c => c.id = id

/-- `chat.lastSince` of the chat object with this id. -/
def lastSince (app : App) (id : JsString) : Int :=
  (app.chat? id).elim 0 Chat.lastSince

/-- `c.lastSince = since` if `c` is the chat object with this id. -/
def withLastSince (id : JsString) (since : Int) (c : Chat) : Chat :=
  if c.id = id then { c with lastSince := since } else c

/-- `chat.lastSince = since` on the chat object with this id. -/
def setLastSince (app : App) (id : JsString) (since : Int) : App :=
  { app with state := { app.state with
    chats := app.state.chats.map (withLastSince id since)
    removedChats := app.state.removedChats.map (withLastSince id since) } }

/-! ## Export and import -/

/-- An entry of `servers` in an exported chat. -/
structure ExportedServer where
  url : JsString
  token : JsString
  label : JsString
  deriving DecidableEq, Repr

/-- The data of an exported chat, with texts for its values; `Book` has other values as well. -/
structure ExportedChat where
  name : JsString
  chatId : JsString
  keyB64 : JsString
  servers : List ExportedServer
  deriving DecidableEq, Repr

/-- The id and the key of the exported chat. -/
def ExportedChat.shared (data : ExportedChat) : JsString × JsString := (data.chatId, data.keyB64)

/-- The servers of an export; the first id that does not resolve is an error. -/
def exportServers (app : App) : List JsString → Except Failure (List ExportedServer)
  | [] => .ok []
  | sid :: rest =>
    match app.server? sid with
    | none => .error (.error (js "Server " ++ sid ++ js " not found"))
    | some s => (app.exportServers rest).map ({ url := s.url, token := s.token, label := s.label } :: ·)

/-- `exportChat(chatId)`, up to `JSON.stringify`. -/
def exportChat (app : App) (id : JsString) : Except Failure ExportedChat :=
  match app.state.chats.find? fun c => c.id = id with
  | none => .error (.of "Chat not found")
  | some chat => (app.exportServers chat.serverIds).map fun servers =>
    { name := chat.name, chatId := chat.chatId, keyB64 := chat.keyB64, servers }

/-- `state.servers.find(sv => sv.url === s.url && sv.token === s.token)` -/
def knownServer? (app : App) (s : ExportedServer) : Option Server :=
  app.state.servers.find? fun sv => sv.url = s.url ∧ sv.token = s.token

/-- The loop of `importChat`: every entry is found or added, with the ids drawn for
    the added ones taken from `fresh`. Servers added before an error stay. -/
def importServers (app : App) (fresh : Nat → JsString) :
    List ExportedServer → App × Except Failure (List JsString)
  | [] => (app, .ok [])
  | s :: rest =>
    match app.knownServer? s with
    | some existing =>
      let (app, ids) := importServers app (fun i => fresh (i + 1)) rest
      (app, ids.map (existing.id :: ·))
    | none =>
      match app.addServer s.url s.token s.label (fresh 0) with
      | .error e => (app, .error e)
      | .ok (added, app) =>
        let (app, ids) := importServers app (fun i => fresh (i + 1)) rest
        (app, ids.map (added.id :: ·))

/-- `importChat(jsonStr)` on parsed data. -/
def importChat (app : App) (data : ExportedChat) (fresh : Nat → JsString) (rand : ChatRandom) :
    App × Except Failure Chat :=
  if data.name = [] ∨ data.chatId = [] ∨ data.keyB64 = [] then (app, .error (.of "Missing required fields"))
  else
    match app.importServers fresh data.servers with
    | (app, .error e) => (app, .error e)
    | (app, .ok serverIds) =>
      match app.createChat data.name serverIds data.chatId data.keyB64 rand with
      | .error e => (app, .error e)
      | .ok (chat, app) => (app, .ok chat)

/-! ## Start-up -/

/-- `init()` on a freshly loaded page: everything in memory is rebuilt from the
    storage. `identity` is the hash that is generated when none is stored. -/
def init (storage : LocalStorage) (identity : JsString) : App :=
  let hash := match storage.identity with
    | some saved => if saved = [] then identity else saved
    | none => identity
  let chats := storage.chats.getD []
  let state : State :=
    { initialState with
      servers := storage.servers.getD []
      chats := chats
      identity := some hash
      messages := chats.foldl (fun m c => if (m.get? c.id).isNone then m.set c.id [] else m) .empty
      emitted := [.identityReady] }
  { state, storage := { storage with identity := some hash } }

/-! ## Frame lemmas

What the updates leave alone, one lemma per field and update. -/

section Frame

variable (app : App) (event : AppEvent) (id id' : JsString) (msgs : List Message) (msg : Message)
  (since : Int)

@[simp] theorem servers_emit : (app.emit event).state.servers = app.state.servers := rfl
@[simp] theorem chats_emit : (app.emit event).state.chats = app.state.chats := rfl
@[simp] theorem messages_emit : (app.emit event).state.messages = app.state.messages := rfl
@[simp] theorem identity_emit : (app.emit event).state.identity = app.state.identity := rfl
@[simp] theorem storage_emit : (app.emit event).storage = app.storage := rfl
@[simp] theorem chat?_emit : (app.emit event).chat? id = app.chat? id := rfl
@[simp] theorem messagesOf_emit : (app.emit event).messagesOf id = app.messagesOf id := rfl

@[simp] theorem servers_saveChats : app.saveChats.state = app.state := rfl
@[simp] theorem chat?_saveChats : app.saveChats.chat? id = app.chat? id := rfl
@[simp] theorem messagesOf_saveChats : app.saveChats.messagesOf id = app.messagesOf id := rfl

@[simp] theorem servers_setMessages :
    (app.setMessages id msgs).state.servers = app.state.servers := rfl
@[simp] theorem chats_setMessages :
    (app.setMessages id msgs).state.chats = app.state.chats := rfl
@[simp] theorem chat?_setMessages : (app.setMessages id msgs).chat? id' = app.chat? id' := rfl

theorem messagesOf_setMessages :
    (app.setMessages id msgs).messagesOf id' = if id' = id then msgs else app.messagesOf id' := by
  simp only [messagesOf, setMessages, OrderedMap.get?_set]
  split <;> rfl

@[simp] theorem servers_pushMessage :
    (app.pushMessage id msg).state.servers = app.state.servers := rfl
@[simp] theorem chats_pushMessage :
    (app.pushMessage id msg).state.chats = app.state.chats := rfl
@[simp] theorem storage_pushMessage : (app.pushMessage id msg).storage = app.storage := rfl
@[simp] theorem chat?_pushMessage : (app.pushMessage id msg).chat? id' = app.chat? id' := rfl

@[simp] theorem messagesOf_pushMessage_self :
    (app.pushMessage id msg).messagesOf id = app.messagesOf id ++ [msg] := by
  simp [pushMessage, messagesOf_setMessages]

@[simp] theorem servers_setUnread (count : Nat) :
    (app.setUnread id count).state.servers = app.state.servers := rfl
@[simp] theorem chats_setUnread (count : Nat) :
    (app.setUnread id count).state.chats = app.state.chats := rfl
@[simp] theorem storage_setUnread (count : Nat) :
    (app.setUnread id count).storage = app.storage := rfl
@[simp] theorem chat?_setUnread (count : Nat) :
    (app.setUnread id count).chat? id' = app.chat? id' := rfl
@[simp] theorem messagesOf_setUnread (count : Nat) :
    (app.setUnread id count).messagesOf id' = app.messagesOf id' := rfl

@[simp] theorem servers_setLastSince :
    (app.setLastSince id since).state.servers = app.state.servers := rfl
@[simp] theorem messagesOf_setLastSince :
    (app.setLastSince id since).messagesOf id' = app.messagesOf id' := rfl

end Frame

@[simp] theorem id_withLastSince (id : JsString) (since : Int) (c : Chat) :
    (withLastSince id since c).id = c.id := by
  unfold withLastSince
  split <;> rfl

@[simp] theorem shared_withLastSince (id : JsString) (since : Int) (c : Chat) :
    (withLastSince id since c).shared = c.shared := by
  unfold withLastSince
  split <;> rfl

/-- A chat is exported with its own id and key. -/
theorem shared_of_exportChat {app : App} {id : JsString} {data : ExportedChat}
    (h : app.exportChat id = .ok data) : ∃ c ∈ app.state.chats, c.shared = data.shared := by
  unfold exportChat at h
  split at h
  · cases h
  · rename_i chat hfind
    cases hservers : app.exportServers chat.serverIds with
    | error e =>
      rw [hservers] at h
      cases h
    | ok servers =>
      rw [hservers] at h
      cases h
      exact ⟨chat, List.mem_of_find?_eq_some hfind, rfl⟩

theorem resolveServers_congr {app app' : App} (h : app'.state.servers = app.state.servers)
    (serverIds : List JsString) : app'.resolveServers serverIds = app.resolveServers serverIds := by
  have hserver : app'.server? = app.server? := by
    funext sid
    simp only [server?, h]
  rw [resolveServers, hserver, resolveServers]

theorem find?_map_withLastSince (chats : List Chat) (id id' : JsString) (since : Int) :
    (chats.map (withLastSince id since)).find? (fun c => c.id = id') =
      (chats.find? fun c => c.id = id').map (withLastSince id since) := by
  rw [List.find?_map]
  congr 2
  funext c
  simp

theorem chat?_setLastSince (app : App) (id id' : JsString) (since : Int) :
    (app.setLastSince id since).chat? id' = (app.chat? id').map (withLastSince id since) := by
  rw [chat?, setLastSince, ← List.map_append, find?_map_withLastSince, chat?]

theorem id_of_chat? {app : App} {id : JsString} {c : Chat} (h : app.chat? id = some c) :
    c.id = id := by
  simpa using List.find?_some h

/-- The cursor reads back as it was set. -/
theorem lastSince_setLastSince_self {app : App} {id : JsString} (since : Int)
    (h : (app.chat? id).isSome) : (app.setLastSince id since).lastSince id = since := by
  obtain ⟨c, hc⟩ := Option.isSome_iff_exists.mp h
  simp [lastSince, chat?_setLastSince, hc, withLastSince, id_of_chat? hc]

theorem lastSince_setLastSince_ne {app : App} {id id' : JsString} (since : Int) (h : id' ≠ id) :
    (app.setLastSince id since).lastSince id' = app.lastSince id' := by
  rw [lastSince, chat?_setLastSince, lastSince]
  cases hc : app.chat? id' with
  | none => rfl
  | some c =>
    have hne : c.id ≠ id := fun he => h ((id_of_chat? hc).symm.trans he)
    simp [withLastSince, hne]

end App

end Frag
