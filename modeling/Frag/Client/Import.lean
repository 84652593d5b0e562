import Frag.Client.State
import Frag.Library.Intern
import Mathlib.Data.Rat.Defs

/-!
# Importing Any Text

`importChat` of `app.js` on any text that is pasted, and `exportChat` of what it leaves. `App.importChat` takes exported data, in
which every member is a text; `JSON.parse` also returns other values, and the import checks
little more than that they are there.

`Book` is the part of the state that an import touches: the servers, the chats, and what was
last stored of both. `JSON.parse` is a parameter.

## Main results

- `importServers_eq`: the loop of `importChat` finds or adds servers;
- `importChat_ofApp`: on exported data this is `App.importChat`;
- `exportChat_ofApp`: as long as all values are texts, the export is `App.exportChat`.
-/

namespace Frag

/-! ## Values -/

/-- A number of a JSON text, as a double; the two zeros are one. -/
inductive JsNumber where
  | finite (q : Rat)
  | infinite (negative : Bool)
  deriving DecidableEq

/-- A value that `JSON.parse` returns. -/
inductive JsValue where
  | null
  | bool (b : Bool)
  | number (n : JsNumber)
  | string (s : JsString)
  | array (items : List JsValue)
  | object (members : List (JsString × JsValue))

namespace JsValue

def isNull : JsValue → Bool
  | null => true
  | _ => false

/-- `Boolean(v)` -/
def truthy : JsValue → Bool
  | null => false
  | bool b => b
  | number n => n ≠ .finite 0
  | string s => s ≠ []
  | array _ | object _ => true

/-- `v === w` for values of different texts, or of different places of one: no two arrays and
    no two objects of them are the same. -/
def strictEq : JsValue → JsValue → Bool
  | null, null => true
  | bool b, bool c => b = c
  | number m, number n => m = n
  | string s, string t => s = t
  | _, _ => false

/-- `v.name`, where `none` is `undefined`; of the members of that name the last one counts. Not
    for `null`, where it throws. -/
def property (v : JsValue) (name : String) : Option JsValue :=
  match v with
  | object members => (members.reverse.find? fun m => m.1 = js name).map Prod.snd
  | _ => none

/-- Neither an array nor an object. -/
def isPrimitive : JsValue → Bool
  | array _ | object _ => false
  | _ => true

theorem strictEq_iff {v w : JsValue} : v.strictEq w = true ↔ v = w ∧ v.isPrimitive = true := by
  cases v <;> cases w <;> simp [strictEq, isPrimitive]

end JsValue

/-! ## Records -/

/-- An entry of `state.servers`. Only texts have `replace`, so a URL is one. -/
structure JsServer where
  id : JsString
  url : JsString
  token : JsValue
  label : JsValue

/-- An entry of `state.chats`. -/
structure JsChat where
  id : JsString
  name : JsValue
  serverIds : List JsString
  chatId : JsValue
  keyB64 : JsValue
  lastSince : Int

/-- What an import throws: an exception of the program, or of the interpreter. -/
inductive ImportFailure where
  | thrown (e : Failure)
  | typeError
  deriving DecidableEq

/-- The servers and chats, and what was last stored of them. -/
structure Book where
  servers : List JsServer
  chats : List JsChat
  savedServers : Option (List JsServer)
  savedChats : Option (List JsChat)

/-- `sv.url === s.url && sv.token === s.token` -/
def JsServer.answers (sv : JsServer) (s : JsValue) : Bool :=
  (s.property "url").any (JsValue.string sv.url).strictEq && (s.property "token").any sv.token.strictEq

/-- The server object of `addServer`, if it does not throw. -/
def newServer (url token label : Option JsValue) (id : JsString) : Except ImportFailure JsServer :=
  match url, token with
  | some url, some token =>
    if !url.truthy || !token.truthy then .error (.thrown (.of "URL and token are required"))
    else
      match url with
      | .string u =>
        .ok { id, url := App.stripSlash u, token, label := (label.filter JsValue.truthy).getD url }
      -- `url.replace` is not a function.
      | _ => .error .typeError
  | _, _ => .error (.thrown (.of "URL and token are required"))

/-- The members of imported data that are required. -/
structure ImportData where
  name : JsValue
  chatId : JsValue
  keyB64 : JsValue
  servers : List JsValue

/-- The check of `importChat`. -/
def requiredFields (data : JsValue) : Option ImportData :=
  match data.property "name", data.property "chatId", data.property "keyB64", data.property "servers" with
  | some name, some chatId, some keyB64, some (.array servers) =>
    if name.truthy && chatId.truthy && keyB64.truthy then some ⟨name, chatId, keyB64, servers⟩
    else none
  | _, _, _, _ => none

namespace Book

/-- `saveServers()` -/
def saveServers (book : Book) : Book := { book with savedServers := some book.servers }

/-- `saveChats()` -/
def saveChats (book : Book) : Book := { book with savedChats := some book.chats }

/-- `addServer({ url, token, label })`, with the drawn id. -/
def addServer (book : Book) (url token label : Option JsValue) (id : JsString) :
    Except ImportFailure (JsServer × Book) :=
  (newServer url token label id).map fun server =>
    (server, ({ book with servers := book.servers ++ [server] } : Book).saveServers)

/-- `createChat({ name, serverIds, chatId, keyB64 })` -/
def createChat (book : Book) (name : JsValue) (serverIds : List JsString) (chatId keyB64 : JsValue)
    (rand : App.ChatRandom) : Except ImportFailure (JsChat × Book) :=
  if !name.truthy then .error (.thrown (.of "Chat name required"))
  else if serverIds = [] then .error (.thrown (.of "Select at least one server"))
  else
    let chat : JsChat :=
      { id := rand.id.val
        name, serverIds
        chatId := if chatId.truthy then chatId else .string rand.chatId.val
        keyB64 := if keyB64.truthy then keyB64 else .string (Base64.btoa rand.key.raw)
        lastSince := 0 }
    .ok (chat, ({ book with chats := book.chats ++ [chat] } : Book).saveChats)

/-- The loop of `importChat`. Servers added before an error stay. -/
def importServers (book : Book) (fresh : Nat → JsString) :
    List JsValue → Book × Except ImportFailure (List JsString)
  | [] => (book, .ok [])
  | s :: rest =>
    -- `s.url` throws, while looking for a server or after that.
    if s.isNull then (book, .error .typeError)
    else
      match book.servers.find? (·.answers s) with
      | some existing =>
        let (book, ids) := importServers book (fun i => fresh (i + 1)) rest
        (book, ids.map (existing.id :: ·))
      | none =>
        match book.addServer (s.property "url") (s.property "token") (s.property "label") (fresh 0) with
        | .error e => (book, .error e)
        | .ok (added, book) =>
          let (book, ids) := importServers book (fun i => fresh (i + 1)) rest
          (book, ids.map (added.id :: ·))

/-- `importChat(jsonStr)` -/
def importChat (parse : JsString → Option JsValue) (book : Book) (jsonStr : JsString)
    (fresh : Nat → JsString) (rand : App.ChatRandom) : Book × Except ImportFailure JsChat :=
  match parse jsonStr with
  | none => (book, .error (.thrown (.of "Invalid JSON")))
  | some data =>
    if data.isNull then (book, .error .typeError)  -- destructuring
    else
      match requiredFields data with
      | none => (book, .error (.thrown (.of "Missing required fields")))
      | some data =>
        match book.importServers fresh data.servers with
        | (book, .error e) => (book, .error e)
        | (book, .ok serverIds) =>
          match book.createChat data.name serverIds data.chatId data.keyB64 rand with
          | .error e => (book, .error e)
          | .ok (chat, book) => (book, .ok chat)

/-- The entries of an export. -/
def exportServers (book : Book) : List JsString → Except ImportFailure (List JsValue)
  | [] => .ok []
  | sid :: rest =>
    match book.servers.find? fun sv => sv.id = sid with
    | none => .error (.thrown (.error (js "Server " ++ sid ++ js " not found")))
    | some s =>
      (book.exportServers rest).map
        (.object [(js "url", .string s.url), (js "token", s.token), (js "label", s.label)] :: ·)

/-- `exportChat(chatId)`, up to `JSON.stringify`. -/
def exportChat (book : Book) (id : JsString) : Except ImportFailure JsValue :=
  match book.chats.find? fun c => c.id = id with
  | none => .error (.thrown (.of "Chat not found"))
  | some chat => (book.exportServers chat.serverIds).map fun servers =>
    .object [(js "name", chat.name), (js "chatId", chat.chatId), (js "keyB64", chat.keyB64),
      (js "servers", .array servers)]

end Book

/-! ## The loop -/

open Intern

/-- The server that is added for an entry, if it can be. -/
def serverFor (id : JsString) (s : JsValue) : Option JsServer :=
  (newServer (s.property "url") (s.property "token") (s.property "label") id).toOption

theorem newServer_eq_ok {url token label : Option JsValue} {id : JsString} {server : JsServer} :
    newServer url token label id = .ok server ↔
      ∃ u t, url = some (.string u) ∧ token = some t ∧ u ≠ [] ∧ t.truthy = true ∧
        server = ⟨id, App.stripSlash u, t, (label.filter JsValue.truthy).getD (.string u)⟩ := by
  unfold newServer
  constructor
  · intro h
    split at h
    · rename_i url' token'
      split at h
      · cases h
      · rename_i htruthy
        split at h
        · rename_i u
          refine ⟨u, token', rfl, rfl, ?_, ?_, (Except.ok.inj h).symm⟩
          · rintro rfl
            exact htruthy rfl
          · by_contra hfalsy
            exact htruthy (by simp [hfalsy])
        · -- A URL that is no text has no `replace`.
          cases h
    · cases h
  · rintro ⟨u, t, rfl, rfl, hu, ht, rfl⟩
    have hpass : (!(JsValue.string u).truthy || !t.truthy) = false := by
      have htext : (JsValue.string u).truthy = true := decide_eq_true hu
      rw [htext, ht]
      rfl
    simp only [hpass, Bool.false_eq_true, if_false]

/-- The server for an entry: its URL is a text without one slash at the end. -/
theorem serverFor_eq_some {id : JsString} {s : JsValue} {server : JsServer} :
    serverFor id s = some server ↔ ∃ u t, s.property "url" = some (.string u) ∧
      s.property "token" = some t ∧ u ≠ [] ∧ t.truthy = true ∧
      server = ⟨id, App.stripSlash u, t,
        ((s.property "label").filter JsValue.truthy).getD (.string u)⟩ := by
  rw [← newServer_eq_ok, serverFor]
  cases newServer (s.property "url") (s.property "token") (s.property "label") id with
  | error e => exact ⟨fun h => (nomatch h), fun h => (nomatch h)⟩
  | ok server' => simp [Except.toOption]

/-- Nothing is found or added for `null`. -/
theorem serverFor_of_isNull {s : JsValue} (h : s.isNull = true) (id : JsString) :
    serverFor id s = none ∧ ∀ sv : JsServer, sv.answers s = false := by
  cases s with
  | null => exact ⟨rfl, fun _ => rfl⟩
  | _ => cases h

theorem toOption_map {ε α β : Type} (f : α → β) (x : Except ε α) :
    (x.map f).toOption = x.toOption.map f := by
  cases x <;> rfl

namespace Book

variable {book : Book} {fresh : Nat → JsString} {entries : List JsValue}

/-- The servers that are found or added. -/
abbrev resolved (book : Book) (fresh : Nat → JsString) (entries : List JsValue) :
    List JsServer × Option (List JsServer) :=
  resolveAll JsServer.answers serverFor fresh book.servers entries

/-- A server is added for an entry if one can be made of it. -/
theorem addServer_cases (book : Book) (s : JsValue) (id : JsString) :
    (serverFor id s = none ∧
        ∃ e, book.addServer (s.property "url") (s.property "token") (s.property "label") id = .error e) ∨
      ∃ server, serverFor id s = some server ∧
        book.addServer (s.property "url") (s.property "token") (s.property "label") id =
          .ok (server, ({ book with servers := book.servers ++ [server] } : Book).saveServers) := by
  rw [serverFor, addServer]
  cases newServer (s.property "url") (s.property "token") (s.property "label") id with
  | error e => exact .inl ⟨rfl, e, rfl⟩
  | ok server => exact .inr ⟨server, rfl, rfl⟩

/-- **The loop finds or adds servers**: the servers and their ids are those of the resolution,
    what is stored is the list of servers if one was added, and nothing else changes. -/
theorem importServers_eq (book : Book) (fresh : Nat → JsString) (entries : List JsValue) :
    let result := book.importServers fresh entries
    result.1.servers = (book.resolved fresh entries).1 ∧
      result.2.toOption = (book.resolved fresh entries).2.map (List.map JsServer.id) ∧
      result.1.chats = book.chats ∧ result.1.savedChats = book.savedChats ∧
      (result.1.servers = book.servers → result.1 = book) := by
  induction entries generalizing book fresh with
  | nil => exact ⟨rfl, rfl, rfl, rfl, fun _ => rfl⟩
  | cons s rest ih =>
    simp only [importServers, resolved]
    by_cases hnull : s.isNull = true
    · -- `null` ends the loop, and is not answered by any server.
      obtain ⟨hmake, hanswers⟩ := serverFor_of_isNull hnull (fresh 0)
      have hfind : book.servers.find? (·.answers s) = none := by
        rw [List.find?_eq_none]
        intro sv _
        simp [hanswers sv]
      rw [if_pos hnull, resolveAll_failed hfind hmake]
      exact ⟨rfl, rfl, rfl, rfl, fun _ => rfl⟩
    · rw [if_neg hnull]
      cases hfind : book.servers.find? (·.answers s) with
      | some existing =>
        obtain ⟨hservers, hids, hrest⟩ := ih book (fun i => fresh (i + 1))
        rw [resolveAll_found hfind]
        refine ⟨hservers, ?_, hrest⟩
        simp only [toOption_map, hids, Option.map_map]
        rfl
      | none =>
        rcases book.addServer_cases s (fresh 0) with ⟨hmake, e, hadd⟩ | ⟨server, hmake, hadd⟩
        · rw [resolveAll_failed hfind hmake, hadd]
          exact ⟨rfl, rfl, rfl, rfl, fun _ => rfl⟩
        · obtain ⟨hservers, hids, hchats, hsaved, -⟩ :=
            ih ({ book with servers := book.servers ++ [server] } : Book).saveServers
              (fun i => fresh (i + 1))
          rw [resolveAll_made hfind hmake, hadd]
          refine ⟨hservers, ?_, hchats, hsaved, ?_⟩
          · simp only [toOption_map, hids, Option.map_map]
            rfl
          · -- The list of servers has grown.
            intro hsame
            have hlonger := (prefix_resolveAll JsServer.answers serverFor
              (fun i => fresh (i + 1)) (book.servers ++ [server]) rest).length_le
            have hlength := hlonger.trans (Nat.le_of_eq (congrArg List.length (hservers.symm.trans hsame)))
            rw [List.length_append, List.length_singleton] at hlength
            omega

end Book

/-! ## Exported data -/

/-- The server with texts. -/
def Server.toJs (s : Server) : JsServer := ⟨s.id, s.url, .string s.token, .string s.label⟩

/-- The chat with texts. -/
def Chat.toJs (c : Chat) : JsChat :=
  ⟨c.id, .string c.name, c.serverIds, .string c.chatId, .string c.keyB64, c.lastSince⟩

/-- An entry of exported data as a value. -/
def App.ExportedServer.toJs (s : App.ExportedServer) : JsValue :=
  .object [(js "url", .string s.url), (js "token", .string s.token), (js "label", .string s.label)]

/-- Exported data as a value. -/
def App.ExportedChat.toJs (data : App.ExportedChat) : JsValue :=
  .object [(js "name", .string data.name), (js "chatId", .string data.chatId),
    (js "keyB64", .string data.keyB64), (js "servers", .array (data.servers.map App.ExportedServer.toJs))]

/-- The part of the state that an import touches. -/
def App.book (app : App) : Book where
  servers := app.state.servers.map Server.toJs
  chats := app.state.chats.map Chat.toJs
  savedServers := app.storage.servers.map (List.map Server.toJs)
  savedChats := app.storage.chats.map (List.map Chat.toJs)

theorem property_toJs (s : App.ExportedServer) : s.toJs.property "url" = some (.string s.url) ∧
    s.toJs.property "token" = some (.string s.token) ∧
    s.toJs.property "label" = some (.string s.label) := ⟨rfl, rfl, rfl⟩

theorem answers_toJs (sv : Server) (s : App.ExportedServer) :
    sv.toJs.answers s.toJs = decide (sv.url = s.url ∧ sv.token = s.token) := by
  obtain ⟨hurl, htoken, -⟩ := property_toJs s
  rw [JsServer.answers, hurl, htoken, Option.any_some, Option.any_some, Bool.eq_iff_iff]
  rw [Bool.and_eq_true, JsValue.strictEq_iff, JsValue.strictEq_iff]
  simp [Server.toJs, JsValue.isPrimitive]

theorem find?_toJs (app : App) (s : App.ExportedServer) :
    app.book.servers.find? (·.answers s.toJs) = (app.knownServer? s).map Server.toJs := by
  rw [App.book, App.knownServer?, List.find?_map]
  congr 2
  funext sv
  exact answers_toJs sv s

theorem addServer_book (app : App) (s : App.ExportedServer) (id : JsString) :
    app.book.addServer (some (.string s.url)) (some (.string s.token)) (some (.string s.label)) id =
      ((app.addServer s.url s.token s.label id).map fun r => (r.1.toJs, r.2.book)).mapError .thrown := by
  by_cases hempty : s.url = [] ∨ s.token = []
  · have hfalsy : (!(JsValue.string s.url).truthy || !(JsValue.string s.token).truthy) = true := by
      rcases hempty with h | h <;> simp [JsValue.truthy, h]
    rw [App.addServer, if_pos hempty, Book.addServer, newServer]
    simp only [hfalsy, if_true]
    rfl
  · have hpass : (!(JsValue.string s.url).truthy || !(JsValue.string s.token).truthy) = false := by
      rw [not_or] at hempty
      simp [JsValue.truthy, hempty]
    -- `label || url`
    have hlabel : ((some (JsValue.string s.label)).filter JsValue.truthy).getD (.string s.url) =
        .string (if s.label = [] then s.url else s.label) := by
      by_cases hlabel : s.label = []
      · rw [if_pos hlabel, hlabel]
        rfl
      · have htruthy : (JsValue.string s.label).truthy = true := decide_eq_true hlabel
        rw [if_neg hlabel, Option.filter_some, if_pos htruthy, Option.getD_some]
    rw [App.addServer, if_neg hempty, Book.addServer, newServer]
    simp only [hpass, Bool.false_eq_true, if_false, hlabel]
    simp [Except.map, Except.mapError, App.book, App.saveServers, App.emit, Book.saveServers, Server.toJs]

/-- The loop on exported entries. -/
theorem importServers_book (app : App) (fresh : Nat → JsString) (entries : List App.ExportedServer) :
    app.book.importServers fresh (entries.map App.ExportedServer.toJs) =
      ((app.importServers fresh entries).1.book,
        (app.importServers fresh entries).2.mapError .thrown) := by
  induction entries generalizing app fresh with
  | nil => rfl
  | cons s rest ih =>
    obtain ⟨hurl, htoken, hlabel⟩ := property_toJs s
    have hnull : s.toJs.isNull = false := rfl
    rw [List.map_cons, Book.importServers, if_neg (by simp [hnull]), App.importServers, find?_toJs,
      hurl, htoken, hlabel, addServer_book]
    cases app.knownServer? s with
    | some existing =>
      simp only [Option.map_some, ih]
      cases (app.importServers (fun i => fresh (i + 1)) rest).2 <;> rfl
    | none =>
      simp only [Option.map_none]
      cases app.addServer s.url s.token s.label (fresh 0) with
      | error e => rfl
      | ok added =>
        simp only [Except.map, Except.mapError, ih]
        cases (added.2.importServers (fun i => fresh (i + 1)) rest).2 <;> rfl

theorem createChat_book (app : App) (name : JsString) (serverIds : List JsString)
    (chatId keyB64 : JsString) (rand : App.ChatRandom) :
    app.book.createChat (.string name) serverIds (.string chatId) (.string keyB64) rand =
      ((app.createChat name serverIds chatId keyB64 rand).map fun r => (r.1.toJs, r.2.book)).mapError
        .thrown := by
  have htruthy : ∀ s : JsString, (JsValue.string s).truthy = decide (s ≠ []) := fun _ => rfl
  rw [Book.createChat, App.createChat, htruthy, htruthy, htruthy]
  by_cases hname : name = []
  · rw [if_pos hname, if_pos (by simp [hname])]
    rfl
  · by_cases hservers : serverIds = []
    · rw [if_neg hname, if_neg (by simp [hname]), if_pos hservers, if_pos hservers]
      rfl
    · rw [if_neg hname, if_neg (by simp [hname]), if_neg hservers, if_neg hservers]
      by_cases hchat : chatId = [] <;> by_cases hkey : keyB64 = [] <;>
        simp [Except.map, Except.mapError, App.book, App.saveChats, App.emit, App.setMessages,
          Book.saveChats, Chat.toJs, hchat, hkey]

theorem exportServers_book (app : App) (serverIds : List JsString) :
    app.book.exportServers serverIds =
      ((app.exportServers serverIds).map (List.map App.ExportedServer.toJs)).mapError .thrown := by
  induction serverIds with
  | nil => rfl
  | cons sid rest ih =>
    have hfind : app.book.servers.find? (fun sv => sv.id = sid) = (app.server? sid).map Server.toJs := by
      rw [App.book, App.server?, List.find?_map]
      rfl
    rw [Book.exportServers, App.exportServers, hfind]
    cases app.server? sid with
    | none => rfl
    | some server =>
      simp only [Option.map_some, ih]
      cases app.exportServers rest <;> rfl

/-- The export of a client whose records hold texts is `App.exportChat`. -/
theorem exportChat_ofApp (app : App) (id : JsString) : app.book.exportChat id =
    ((app.exportChat id).map App.ExportedChat.toJs).mapError .thrown := by
  have hfind : app.book.chats.find? (fun c => c.id = id) =
      (app.state.chats.find? fun c => c.id = id).map Chat.toJs := by
    rw [App.book, List.find?_map]
    rfl
  rw [Book.exportChat, App.exportChat, hfind]
  cases app.state.chats.find? fun c => c.id = id with
  | none => rfl
  | some chat =>
    simp only [Option.map_some, Chat.toJs, exportServers_book]
    cases app.exportServers chat.serverIds <;> rfl

/-- **On exported data the import is `App.importChat`.** -/
theorem importChat_ofApp {parse : JsString → Option JsValue} {jsonStr : JsString}
    {data : App.ExportedChat} (hparse : parse jsonStr = some data.toJs) (app : App)
    (fresh : Nat → JsString) (rand : App.ChatRandom) :
    app.book.importChat parse jsonStr fresh rand = ((app.importChat data fresh rand).1.book,
      ((app.importChat data fresh rand).2.map Chat.toJs).mapError .thrown) := by
  have hnull : data.toJs.isNull = false := rfl
  have hfields : requiredFields data.toJs =
      if data.name = [] ∨ data.chatId = [] ∨ data.keyB64 = [] then none
      else some ⟨.string data.name, .string data.chatId, .string data.keyB64,
        data.servers.map App.ExportedServer.toJs⟩ := by
    have hproperties : data.toJs.property "name" = some (.string data.name) ∧
        data.toJs.property "chatId" = some (.string data.chatId) ∧
        data.toJs.property "keyB64" = some (.string data.keyB64) ∧
        data.toJs.property "servers" = some (.array (data.servers.map App.ExportedServer.toJs)) :=
      ⟨rfl, rfl, rfl, rfl⟩
    obtain ⟨hname, hchatId, hkeyB64, hservers⟩ := hproperties
    rw [requiredFields, hname, hchatId, hkeyB64, hservers]
    by_cases hempty : data.name = [] ∨ data.chatId = [] ∨ data.keyB64 = []
    · rw [if_pos hempty]
      rcases hempty with h | h | h <;> simp [JsValue.truthy, h]
    · rw [if_neg hempty]
      simp only [not_or] at hempty
      simp [JsValue.truthy, hempty]
  -- The members are texts, so they are missing if and only if they are empty.
  rw [Book.importChat, hparse]
  simp only [hnull, Bool.false_eq_true, if_false, hfields]
  rw [App.importChat]
  by_cases hempty : data.name = [] ∨ data.chatId = [] ∨ data.keyB64 = []
  · simp only [if_pos hempty]
    rfl
  · simp only [if_neg hempty, importServers_book]
    rcases app.importServers fresh data.servers with ⟨app', e | serverIds⟩
    · rfl
    · simp only [Except.mapError, createChat_book]
      cases app'.createChat data.name serverIds data.chatId data.keyB64 rand <;> rfl

end Frag
