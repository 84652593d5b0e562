import Frag.Client.Serialization
import Frag.Guarantees.Importing
import Frag.Guarantees.Overlap
import Frag.System.Tabs

/-!
# Export and Import

`exportChat` writes down the servers of a chat in the order of its list; `importChat` finds each
of them among the importer's servers, or adds it, and creates a chat with the ids in that order.
The order decides how payloads are put together, so the new chat has to have the same server at
every position.

The export is text between the two. What a client exports are strings as long as strings are what
it was given, and `JSON.parse` reads strings back as `JSON.stringify` has written them. The
importer can be any client: other values among its records answer no exported entry.

## Main results

- `Page.complete_run`: the chats of an application have all that an import asks for;
- `Book.importServers_spec`: what the loop of `importChat` does with exported entries;
- `import_reproduces_export`
-/

namespace Frag

open Runs

/-- The URL is not empty and does not end in `/`, and the token is not empty. -/
def Server.Usable (s : Server) : Prop := s.url ≠ [] ∧ s.url.getLast? ≠ some 0x2F ∧ s.token ≠ []

instance (s : Server) : Decidable s.Usable := inferInstanceAs (Decidable (_ ∧ _ ∧ _))

/-! ## The chats of an application -/

/-- A chat has a name, servers, an id and a key. -/
structure Chat.Complete (c : Chat) : Prop where
  name : c.name ≠ []
  serverIds : c.serverIds ≠ []
  chatId : c.chatId ≠ []
  keyB64 : c.keyB64 ≠ []

/-- The chats in memory and in the storage are complete. -/
structure App.Complete (app : App) : Prop where
  chats : ∀ c ∈ app.state.chats, c.Complete
  stored : ∀ c ∈ app.storage.chats.getD [], c.Complete

section Complete

variable {W : WebCrypto} {app app' : App} {p : Page}

theorem Chat.Complete.of_hasChat {chats : List Chat} {c : Chat} (h : HasChat chats c)
    (hchats : ∀ c ∈ chats, c.Complete) : c.Complete := by
  obtain ⟨c', hc', heq⟩ := List.mem_map.mp h
  have hc := hchats c' hc'
  refine ⟨?_, ?_, ?_, ?_⟩
  · exact congrArg Chat.name heq ▸ hc.name
  · exact congrArg Chat.serverIds heq ▸ hc.serverIds
  · exact congrArg Chat.chatId heq ▸ hc.chatId
  · exact congrArg Chat.keyB64 heq ▸ hc.keyB64

theorem AesKey.btoa_ne_nil (key : AesKey) : Base64.btoa key.raw ≠ [] := by
  have hlength := Base64.length_btoa key.raw
  have hraw := key.length_raw
  intro h
  rw [h, List.length_nil] at hlength
  simp only [List.mem_cons, List.not_mem_nil, or_false] at hraw
  omega

/-- A chat that is created is complete, whatever it is created with. -/
theorem App.complete_of_createChat {name : JsString} {serverIds : List JsString}
    {chatId keyB64 : JsString} {rand : App.ChatRandom} {c : Chat}
    (h : app.createChat name serverIds chatId keyB64 rand = .ok (c, app')) : c.Complete := by
  obtain ⟨⟨hname, hservers⟩, rfl, -⟩ := createChat_eq_ok h
  refine ⟨hname, hservers, ?_, ?_⟩
  · change (if chatId = [] then rand.chatId.val else chatId) ≠ []
    split
    · exact rand.chatId.ne_nil
    · assumption
  · change (if keyB64 = [] then Base64.btoa rand.key.raw else keyB64) ≠ []
    split
    · exact rand.key.btoa_ne_nil
    · assumption

theorem App.complete_of_importChat {data : ExportedChat} {fresh : Nat → JsString}
    {rand : App.ChatRandom} {c : Chat} (h : (app.importChat data fresh rand).2 = .ok c) :
    c.Complete := by
  rcases app.importChat_cases data fresh rand with ⟨e, heq | heq⟩ | ⟨serverIds, c', app', hcreate, -, heq⟩
  · rw [heq] at h
    cases h
  · rw [heq] at h
    cases h
  · rw [heq] at h
    cases h
    exact complete_of_createChat hcreate

/-- What one event preserves. -/
theorem App.Complete.step {e : PageEvent} (h : p.app.Complete) : (p.step W e).app.Complete := by
  have hlists := p.lists W e
  have hchats : ∀ c ∈ (p.step W e).app.state.chats, c.Complete := by
    -- Chats that the event neither creates nor loads were there before.
    have hold : ∀ c ∈ (p.step W e).app.state.chats, e.Spares c →
        (∀ identity, e ≠ .act (.reload identity)) → c.Complete := by
      intro c hc hspares hload
      have hhas : HasChat (p.step W e).app.state.chats c := List.mem_map_of_mem hc
      exact .of_hasChat ((hlists.has c hspares hload).mp hhas) h.chats
    intro c hc
    cases e with
    | act a =>
      cases a with
      | createChat name serverIds chatId keyB64 rand =>
        simp only [Page.step, Action.apply] at hc
        split at hc
        · rename_i c' app' hcreate
          obtain ⟨-, happend, -⟩ := App.createChat_lists hcreate
          rw [happend, List.mem_append, List.mem_singleton] at hc
          rcases hc with hc | rfl
          · exact h.chats c hc
          · exact App.complete_of_createChat hcreate
        · exact h.chats c hc
      | importChat data fresh rand =>
        rcases p.app.importChat_lists data fresh rand with ⟨c', hok, -, happend, -⟩ | ⟨-, hsame, -⟩
        · change c ∈ (p.app.importChat data fresh rand).1.state.chats at hc
          rw [happend, List.mem_append, List.mem_singleton] at hc
          rcases hc with hc | rfl
          · exact h.chats c hc
          · exact App.complete_of_importChat hok
        · change c ∈ (p.app.importChat data fresh rand).1.state.chats at hc
          exact h.chats c (hsame ▸ hc)
      | removeChat id => exact h.chats c (List.mem_of_mem_filter hc)
      | reload identity => exact h.stored c hc
      | _ => exact hold c hc trivial (by simp)
    | _ => exact hold c hc trivial (by simp)
  -- What is stored is the list in memory, or what was stored before.
  refine ⟨hchats, ?_⟩
  by_cases hsaves : p.Saves e
  · rw [hlists.saved hsaves]
    exact hchats
  · rw [hlists.unsaved hsaves]
    exact h.stored

/-- **The chats of an application are complete** in every state it reaches from an empty
    storage. -/
theorem Page.complete_run (W : WebCrypto) (identity : JsString) (es : List PageEvent) :
    (run (Page.step W) (Page.load ⟨none, none, none⟩ identity) es).app.Complete := by
  have hes : Along (Page.step W) (fun _ _ => True) (Page.load ⟨none, none, none⟩ identity) es :=
    along_of_forall fun _ _ => trivial
  refine hes.invariant (fun p => p.app.Complete) ⟨?_, ?_⟩ fun p e _ h => h.step
  · exact fun c hc => absurd hc List.not_mem_nil
  · exact fun c hc => absurd hc List.not_mem_nil

end Complete

/-! ## The servers of an export -/

/-- What requests to a server are sent with. -/
def JsServer.address (s : JsServer) : JsString × JsValue := (s.url, s.token)

def App.ExportedServer.address (s : App.ExportedServer) : JsString × JsValue := (s.url, .string s.token)

/-- The server an id resolves to, as requests see it. -/
def Book.addressOf (book : Book) (sid : JsString) : Option (JsString × JsValue) :=
  (book.servers.find? fun sv => sv.id = sid).map JsServer.address

section Servers

theorem addressOf_book (app : App) (sid : JsString) :
    app.book.addressOf sid = (app.server? sid).map fun s => s.toJs.address := by
  rw [Book.addressOf, App.book, List.find?_map, Option.map_map]
  rfl

/-- An export has the servers of the chat in their order. -/
theorem App.map_address_exportServers {app : App} {serverIds : List JsString}
    {servers : List ExportedServer} (h : app.exportServers serverIds = .ok servers) :
    servers.map (fun s => some s.address) = serverIds.map app.book.addressOf ∧
      ∀ s ∈ servers, ∃ server ∈ app.resolveServers serverIds,
        server.url = s.url ∧ server.token = s.token := by
  induction serverIds generalizing servers with
  | nil =>
    cases h
    exact ⟨rfl, fun s hs => absurd hs List.not_mem_nil⟩
  | cons sid rest ih =>
    rw [App.exportServers] at h
    -- An id without a server ends the export.
    cases hserver : app.server? sid with
    | none =>
      rw [hserver] at h
      cases h
    | some server =>
      rw [hserver] at h
      cases hrest : app.exportServers rest with
      | error e =>
        rw [hrest] at h
        cases h
      | ok exported =>
        rw [hrest] at h
        cases h
        obtain ⟨haddress, hmem⟩ := ih hrest
        have hresolve : app.resolveServers (sid :: rest) = server :: app.resolveServers rest := by
          rw [App.resolveServers, List.filterMap_cons, hserver, App.resolveServers]
        constructor
        · rw [List.map_cons, List.map_cons, haddress, addressOf_book, hserver]
          rfl
        · intro s hs
          rw [hresolve]
          rcases List.mem_cons.mp hs with rfl | hs
          · exact ⟨server, List.mem_cons_self, rfl, rfl⟩
          · obtain ⟨server', hserver', heq⟩ := hmem s hs
            exact ⟨server', List.mem_cons_of_mem _ hserver', heq⟩

variable {book book' : Book}

/-- An id of the list resolves to its server, also after more servers were added. -/
theorem Book.addressOf_of_mem {more : List JsServer} {s : JsServer}
    (hservers : book'.servers = book.servers ++ more)
    (hids : (book.servers.map JsServer.id).Nodup) (hs : s ∈ book.servers) :
    book'.addressOf s.id = some s.address := by
  have hfind : book.servers.find? (fun s' => s'.id = s.id) = some s := by
    cases hfound : book.servers.find? (fun s' => s'.id = s.id) with
    | none =>
      have hnone := List.find?_eq_none.mp hfound s hs
      simp at hnone
    | some s' =>
      have hid : s'.id = s.id := by simpa using List.find?_some hfound
      have hmem := List.mem_of_find?_eq_some hfound
      rw [List.inj_on_of_nodup_map hids hmem hs hid]
  rw [Book.addressOf, hservers, List.find?_append, hfind]
  rfl

/-- A server answers an exported entry if it has the URL and the token, which is a text. -/
theorem answers_exported_iff {sv : JsServer} {s : App.ExportedServer} :
    sv.answers s.toJs = true ↔ sv.address = s.address := by
  obtain ⟨hurl, htoken, -⟩ := property_toJs s
  rw [answers_iff, hurl, htoken]
  constructor
  · rintro ⟨hu, ht, -⟩
    exact Prod.ext (JsValue.string.inj (Option.some.inj hu)).symm (Option.some.inj ht).symm
  · intro h
    have hsameUrl : sv.url = s.url := congrArg Prod.fst h
    have hsameToken : sv.token = .string s.token := congrArg Prod.snd h
    rw [hsameUrl, hsameToken]
    exact ⟨rfl, rfl, rfl⟩

/-- A server can be added for an entry with a URL and a token. -/
theorem Book.addServer_exported {s : App.ExportedServer} (hurl : s.url ≠ [])
    (hslash : s.url.getLast? ≠ some 0x2F) (htoken : s.token ≠ []) (book : Book) (id : JsString) :
    ∃ server, server.id = id ∧ server.address = s.address ∧
      book.addServer (s.toJs.property "url") (s.toJs.property "token") (s.toJs.property "label") id =
        .ok (server, ({ book with servers := book.servers ++ [server] } : Book).saveServers) := by
  obtain ⟨hurl', htoken', -⟩ := property_toJs s
  rcases book.addServer_cases s.toJs id with ⟨hnone, -⟩ | ⟨server, hserver, hadd⟩
  · have hsome : serverFor id s.toJs = some _ := serverFor_eq_some.mpr
      ⟨s.url, .string s.token, hurl', htoken', hurl, decide_eq_true htoken, rfl⟩
    rw [hnone] at hsome
    cases hsome
  · -- The slash at the end would be stripped; there is none.
    obtain ⟨u, t, hu, ht, -, -, rfl⟩ := serverFor_eq_some.mp hserver
    refine ⟨_, rfl, Prod.ext ?_ ?_, hadd⟩
    · rw [hurl', Option.some.injEq, JsValue.string.injEq] at hu
      change App.stripSlash u = s.url
      rw [← hu, App.stripSlash, if_neg hslash]
    · rw [htoken', Option.some.injEq] at ht
      exact ht.symm

/-- What `importServers` leaves: the ids it returns resolve to the exported servers, position by
    position, and the servers that were added are new, each once. -/
structure Book.Imported (book book' : Book) (exported : List App.ExportedServer)
    (ids : List JsString) (added : List JsServer) : Prop where
  servers : book'.servers = book.servers ++ added
  chats : book'.chats = book.chats
  resolved : ids.map book'.addressOf = exported.map fun s => some s.address
  new : ∀ s ∈ added, s.address ∉ book.servers.map JsServer.address
  once : (added.map JsServer.address).Nodup

/-- **The loop of `importChat`**: every server is found or added. The ids drawn for the added
    ones are new. -/
theorem Book.importServers_spec (book : Book) (fresh : Nat → JsString)
    {servers : List App.ExportedServer}
    (husable : ∀ s ∈ servers, s.url ≠ [] ∧ s.url.getLast? ≠ some 0x2F ∧ s.token ≠ [])
    (hids : (book.servers.map JsServer.id ++ (List.range servers.length).map fresh).Nodup) :
    ∃ ids added book', book.importServers fresh (servers.map App.ExportedServer.toJs) =
        (book', .ok ids) ∧ book.Imported book' servers ids added := by
  induction servers generalizing book fresh with
  | nil =>
    exact ⟨[], [], book, rfl, (List.append_nil _).symm, rfl, rfl,
      fun s hs => absurd hs List.not_mem_nil, List.nodup_nil⟩
  | cons s rest ih =>
    obtain ⟨hurl, hslash, htoken⟩ := husable s List.mem_cons_self
    have hrest := fun s' hs' => husable s' (List.mem_cons_of_mem _ hs')
    have hnull : ¬ s.toJs.isNull = true := nofun
    -- The first id is drawn for `s`, if it is drawn at all.
    have hrange : (List.range (s :: rest).length).map fresh =
        fresh 0 :: (List.range rest.length).map fun i => fresh (i + 1) := by
      rw [List.length_cons, List.range_succ_eq_map, List.map_cons, List.map_map]
      rfl
    rw [hrange] at hids
    rw [List.map_cons, Book.importServers, if_neg hnull]
    cases hknown : book.servers.find? (·.answers s.toJs) with
    | some existing =>
      have hsub : (book.servers.map JsServer.id ++
          (List.range rest.length).map fun i => fresh (i + 1)).Nodup :=
        hids.sublist (List.Sublist.append_left (List.sublist_cons_self _ _) _)
      obtain ⟨ids, added, book', hok, himported⟩ := ih book (fun i => fresh (i + 1)) hrest hsub
      refine ⟨existing.id :: ids, added, book', by simp only [hok]; rfl, himported.servers,
        himported.chats, ?_, himported.new, himported.once⟩
      have hmem := List.mem_of_find?_eq_some hknown
      have hanswers : existing.answers s.toJs = true := by
        simpa only using List.find?_some hknown
      have haddress : existing.address = s.address := answers_exported_iff.mp hanswers
      rw [List.map_cons, List.map_cons, himported.resolved,
        Book.addressOf_of_mem himported.servers (List.Nodup.of_append_left hids) hmem, haddress]
    | none =>
      have hnew : s.address ∉ book.servers.map JsServer.address := by
        intro hmem
        obtain ⟨server, hserver, heq⟩ := List.mem_map.mp hmem
        exact List.find?_eq_none.mp hknown server hserver (answers_exported_iff.mpr heq)
      obtain ⟨server, hid, haddress, hadd⟩ := book.addServer_exported hurl hslash htoken (fresh 0)
      have hids' : (({ book with servers := book.servers ++ [server] } : Book).saveServers.servers.map
          JsServer.id ++ (List.range rest.length).map fun i => fresh (i + 1)).Nodup := by
        change ((book.servers ++ [server]).map JsServer.id ++ _).Nodup
        rw [List.map_append, List.append_assoc, List.map_singleton, hid]
        exact hids
      obtain ⟨ids, added, book', hok, himported⟩ := ih _ (fun i => fresh (i + 1)) hrest hids'
      have hservers : book'.servers = (book.servers ++ [server]) ++ added := himported.servers
      have hlater : ∀ s' ∈ added, s'.address ≠ s.address ∧
          s'.address ∉ book.servers.map JsServer.address := by
        intro s' hs'
        have hnot : s'.address ∉ (book.servers ++ [server]).map JsServer.address :=
          himported.new s' hs'
        rw [List.map_append, List.mem_append, List.map_singleton, List.mem_singleton, not_or,
          haddress] at hnot
        exact ⟨hnot.2, hnot.1⟩
      refine ⟨server.id :: ids, server :: added, book', by simp only [hadd, hok]; rfl, ?_,
        himported.chats, ?_, ?_, ?_⟩
      · rw [hservers, List.append_assoc]
        rfl
      · have hmem : server ∈ book.servers ++ [server] := List.mem_append_right _ List.mem_cons_self
        rw [List.map_cons, List.map_cons, himported.resolved,
          Book.addressOf_of_mem himported.servers (List.Nodup.of_append_left hids') hmem, haddress]
      · intro s' hs'
        rcases List.mem_cons.mp hs' with rfl | hs'
        · rwa [haddress]
        · exact (hlater s' hs').2
      · rw [List.map_cons, List.nodup_cons]
        refine ⟨fun hmem => ?_, himported.once⟩
        obtain ⟨s', hs', heq⟩ := List.mem_map.mp hmem
        exact (hlater s' hs').1 (heq.trans haddress)

/-- When its servers are there, a complete chat is created. -/
theorem Book.importChat_of_importServers {data : App.ExportedChat} {jsonStr : JsString}
    (hparse : jsonParse jsonStr = some data.toJs) {fresh : Nat → JsString} {ids : List JsString}
    (hname : data.name ≠ []) (hchatId : data.chatId ≠ []) (hkey : data.keyB64 ≠ []) (hids : ids ≠ [])
    (h : book.importServers fresh (data.servers.map App.ExportedServer.toJs) = (book', .ok ids))
    (rand : App.ChatRandom) :
    ∃ c book₁, book.importChat jsonParse jsonStr fresh rand = (book₁, .ok c) ∧
      c.name = .string data.name ∧ c.chatId = .string data.chatId ∧ c.keyB64 = .string data.keyB64 ∧
      c.lastSince = 0 ∧ c.serverIds = ids ∧ book₁.chats = book'.chats ++ [c] ∧
      book₁.servers = book'.servers := by
  have htruthy : ∀ {t : JsString}, t ≠ [] → (JsValue.string t).truthy = true := decide_eq_true
  have hfields : requiredFields data.toJs = some ⟨.string data.name, .string data.chatId,
      .string data.keyB64, data.servers.map App.ExportedServer.toJs⟩ := by
    have hall : ((JsValue.string data.name).truthy && (JsValue.string data.chatId).truthy &&
        (JsValue.string data.keyB64).truthy) = true := by
      rw [htruthy hname, htruthy hchatId, htruthy hkey]
      rfl
    exact if_pos hall
  -- Every check of `importChat` and `createChat` is passed.
  have hnull : ¬ data.toJs.isNull = true := nofun
  have hname' : ¬ (!(JsValue.string data.name).truthy) = true := by simp [htruthy hname]
  rw [Book.importChat, hparse]
  simp only [if_neg hnull, hfields, h, Book.createChat, if_neg hname', if_neg hids,
    if_pos (htruthy hchatId), if_pos (htruthy hkey)]
  exact ⟨_, _, rfl, rfl, rfl, rfl, rfl, rfl, rfl, rfl⟩

end Servers

/-! ## Export and import -/

/-- **Export then import reproduces the chat**: what a client with texts exports has a text, and any
    client imports it as a chat with the same name, id, key and servers at all positions; its own
    servers and chats stay, and a server it has is not added again. The ids that it draws are new. -/
theorem import_reproduces_export (W : WebCrypto) (identity : JsString) (es : List PageEvent)
    {app : App} (happ : app = (run (Page.step W) (Page.load ⟨none, none, none⟩ identity) es).app)
    {id : JsString} {chat : Chat} (hchat : app.state.chats.find? (fun c => c.id = id) = some chat)
    {data : JsValue} (hexport : app.book.exportChat id = .ok data)
    (husable : ∀ s ∈ app.resolveServers chat.serverIds, s.Usable)
    (importer : Book) {fresh : Nat → JsString}
    (hids : (importer.servers.map JsServer.id ++
      (List.range chat.serverIds.length).map fresh).Nodup) (rand : App.ChatRandom) :
    ∃ text, jsonStringify data = some text ∧
      ∃ imported added book, importer.importChat jsonParse text fresh rand = (book, .ok imported) ∧
        imported.name = .string chat.name ∧ imported.chatId = .string chat.chatId ∧
        imported.keyB64 = .string chat.keyB64 ∧ imported.lastSince = 0 ∧
        imported.serverIds.map book.addressOf = chat.serverIds.map app.book.addressOf ∧
        book.chats = importer.chats ++ [imported] ∧ book.servers = importer.servers ++ added ∧
        (∀ s ∈ added, s.address ∉ importer.servers.map JsServer.address) ∧
        (added.map JsServer.address).Nodup := by
  have hcomplete : chat.Complete := by
    have hrun := Page.complete_run W identity es
    rw [← happ] at hrun
    exact hrun.chats chat (List.mem_of_find?_eq_some hchat)
  -- What was exported.
  obtain ⟨servers, hservers, rfl⟩ : ∃ servers, app.exportServers chat.serverIds = .ok servers ∧
      data = App.ExportedChat.toJs
        { name := chat.name, chatId := chat.chatId, keyB64 := chat.keyB64, servers } := by
    rw [exportChat_ofApp, App.exportChat, hchat] at hexport
    cases hservers : app.exportServers chat.serverIds with
    | error e =>
      simp only [hservers] at hexport
      cases hexport
    | ok servers =>
      simp only [hservers] at hexport
      cases hexport
      exact ⟨servers, rfl, rfl⟩
  obtain ⟨haddresses, hresolved⟩ := App.map_address_exportServers hservers
  have hexported : ∀ s ∈ servers, s.url ≠ [] ∧ s.url.getLast? ≠ some 0x2F ∧ s.token ≠ [] := by
    intro s hs
    obtain ⟨server, hserver, hurl, htoken⟩ := hresolved s hs
    rw [← hurl, ← htoken]
    exact husable server hserver
  have hlength : servers.length = chat.serverIds.length := by
    have heq := congrArg List.length haddresses
    rwa [List.length_map, List.length_map] at heq
  obtain ⟨text, htext, hparse⟩ := exists_jsonStringify_exported
    { name := chat.name, chatId := chat.chatId, keyB64 := chat.keyB64, servers }
  -- What is imported.
  obtain ⟨ids, added, book', hok, himported⟩ :=
    importer.importServers_spec fresh hexported (hlength ▸ hids)
  have hne : ids ≠ [] := by
    rintro rfl
    have hempty : servers = [] := by simpa using himported.resolved
    rw [hempty, List.map_nil] at haddresses
    exact hcomplete.serverIds (List.map_eq_nil_iff.mp haddresses.symm)
  obtain ⟨imported, book, hresult, hname, hchatId, hkey, hsince, hserverIds, hchats, hlist⟩ :=
    Book.importChat_of_importServers hparse hcomplete.name hcomplete.chatId hcomplete.keyB64 hne hok
      rand
  refine ⟨text, htext, imported, added, book, hresult, hname, hchatId, hkey, hsince, ?_, ?_, ?_,
    himported.new, himported.once⟩
  · have hsame : book.addressOf = book'.addressOf := by
      funext sid
      rw [Book.addressOf, hlist, Book.addressOf]
    rw [hserverIds, hsame, himported.resolved, haddresses]
  · rw [hchats, himported.chats]
  · rw [hlist, himported.servers]

/-- A client adds two servers and creates the chat. -/
def chatSetup : List PageEvent :=
  (Sample.serverIds.zip Sample.urls).map
      (fun (id, url) => .act (.addServer url (js "t") url id)) ++
    [.act (.createChat (js "c") Sample.serverIds [] [] (Sample.chatDraw true))]

def sampleExporter : App :=
  (run (Page.step sampleCrypto) (Page.load ⟨none, none, none⟩ []) chatSetup).app

/-- Another one has the second server already, with an id of its own, and a server whose token is
    an array. -/
def sampleImporter : Book :=
  { Sample.emptyBook with
    servers := [⟨js "x", Sample.urls.getD 1 [], .string (js "t"), .string (js "x")⟩,
      ⟨js "y", Sample.urls.getD 0 [], .array [.string (js "t")], .string (js "y")⟩] }

theorem sample_chat_is_transferred :
    ∃ text imported added book, jsonStringify Sample.exported.toJs = some text ∧
      sampleImporter.importChat jsonParse text (fun i => Sample.serverIds.getD i [])
        (Sample.chatDraw false) = (book, .ok imported) ∧
      book.servers = sampleImporter.servers ++ added ∧ (added.map JsServer.address).Nodup := by
  have hchat : sampleExporter.state.chats.find? (fun c => c.id = (Sample.chatObject true).val) =
      some { Sample.chat with id := (Sample.chatObject true).val } := by decide +kernel
  have hexport : sampleExporter.book.exportChat (Sample.chatObject true).val =
      .ok Sample.exported.toJs := by
    have happ : sampleExporter.exportChat (Sample.chatObject true).val = .ok Sample.exported := by
      decide +kernel
    rw [exportChat_ofApp, happ]
    rfl
  have hids : (sampleImporter.servers.map JsServer.id ++
      (List.range Sample.serverIds.length).map fun i => Sample.serverIds.getD i []).Nodup := by
    decide +kernel
  obtain ⟨text, htext, imported, added, book, hok, -, -, -, -, -, -, hservers, -, honce⟩ :=
    import_reproduces_export sampleCrypto [] chatSetup rfl hchat hexport
      (by decide +kernel) sampleImporter hids (Sample.chatDraw false)
  exact ⟨text, imported, added, book, htext, hok, hservers, honce⟩

/-! ## Other values -/

namespace Sample

/-- A text whose name is a number without a double, which is imported as infinity. -/
def infiniteText : String :=
  "\x7b\"name\":1e999,\"chatId\":\"c\",\"keyB64\":\"k\",\"servers\":[" ++
    "\x7b\"url\":\"https://a\",\"token\":\"t\"\x7d]\x7d"

/-- A text with a token that is an array. -/
def arrayText : String :=
  "\x7b\"name\":\"n\",\"chatId\":\"c\",\"keyB64\":\"k\",\"servers\":[" ++
    "\x7b\"url\":\"https://a\",\"token\":[\"t\"]\x7d]\x7d"

/-- A client imports a text, and exports the chat. -/
def reexported (text : String) : Option (Book × JsString) :=
  match emptyBook.importChat jsonParse (js text) decimal drawn with
  | (book, .ok chat) =>
    (book.exportChat chat.id).toOption.bind fun data => (jsonStringify data).map fun text => (book, text)
  | _ => none

/-- The servers of a client, with the texts of their tokens. -/
def tokens (book : Book) : List (JsString × Option JsString) :=
  book.servers.map fun s => (s.url, jsonStringify s.token)

/-- Another client imports what was exported. -/
def transferred (importer : Book) (text : JsString) : Book × Except ImportFailure JsChat :=
  importer.importChat jsonParse text (fun i => decimal (i + 1)) (chatDraw false)

end Sample

/-- Infinity is written as `null`, which is no name. An array is never the array that is known, and
    the server is added again. -/
theorem imported_values_are_not_transferred :
    (∃ e ∈ Sample.reexported Sample.infiniteText,
        Sample.tokens e.1 = [(js "https://a", some (js "\"t\""))] ∧
        (Sample.transferred Sample.emptyBook e.2).2.toOption.isNone) ∧
      ∃ e ∈ Sample.reexported Sample.arrayText,
        (Sample.transferred e.1 e.2).2.toOption.isSome ∧
        Sample.tokens e.1 = [(js "https://a", some (js "[\"t\"]"))] ∧
        Sample.tokens (Sample.transferred e.1 e.2).1 =
          [(js "https://a", some (js "[\"t\"]")), (js "https://a", some (js "[\"t\"]"))] := by
  decide +kernel

end Frag
