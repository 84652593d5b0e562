import Frag.Client.State

/-!
# Client Actions

The calls of the application that run without suspension (or whose suspensions
touch nothing shared), as one type, with what all of them leave invariant: the
persisted servers and chats are those in memory (`Persisted`), and the messages of
a chat are kept or dropped as a whole.
-/

namespace Frag

/-- A call of the application together with what it draws. `reload` loads the page
    anew; a call that throws leaves what it has done so far. None of them changes the identity: one
    that was imported is that of the first state. -/
inductive Action where
  | addServer (url token label id : JsString)
  | removeServer (id : JsString)
  | createChat (name : JsString) (serverIds : List JsString) (chatId keyB64 : JsString)
      (rand : App.ChatRandom)
  | importChat (data : App.ExportedChat) (fresh : Nat → JsString) (rand : App.ChatRandom)
  | removeChat (id : JsString)
  | setActiveChat (id : Option JsString)
  | reload (identity : JsString)

/-- The state after a call. -/
def Action.apply (app : App) : Action → App
  | .addServer url token label id =>
    match app.addServer url token label id with
    | .ok (_, app) => app
    | .error _ => app
  | .removeServer id => app.removeServer id
  | .createChat name serverIds chatId keyB64 rand =>
    match app.createChat name serverIds chatId keyB64 rand with
    | .ok (_, app) => app
    | .error _ => app
  | .importChat data fresh rand => (app.importChat data fresh rand).1
  | .removeChat id => app.removeChat id
  | .setActiveChat id => app.setActiveChat id
  | .reload identity => App.init app.storage identity

namespace App

variable {app app' : App}

/-! ## What the calls do -/

/-- A server that is added comes last, and the list is saved. -/
theorem addServer_eq_ok {url token label id : JsString} {s : Server}
    (h : app.addServer url token label id = .ok (s, app')) :
    app' = (({ app with state := { app.state with servers := app.state.servers ++ [s] } } :
      App).saveServers.emit .serverUpdate) := by
  unfold addServer at h
  split at h
  · cases h
  · cases h
    rfl

/-- A chat that is created comes last and has no messages, and the list is saved. -/
theorem createChat_eq_ok {name : JsString} {serverIds : List JsString} {chatId keyB64 : JsString}
    {rand : ChatRandom} {c : Chat}
    (h : app.createChat name serverIds chatId keyB64 rand = .ok (c, app')) :
    (name ≠ [] ∧ serverIds ≠ []) ∧
      c = { id := rand.id.val, name, serverIds
            chatId := if chatId = [] then rand.chatId.val else chatId
            keyB64 := if keyB64 = [] then Base64.btoa rand.key.raw else keyB64
            lastSince := 0 } ∧
      app' = ((({ app with state := { app.state with chats := app.state.chats ++ [c] } } :
        App).setMessages rand.id.val []).saveChats).emit .chatUpdate := by
  unfold createChat at h
  split at h
  · cases h
  · rename_i hname
    split at h
    · cases h
    · rename_i hservers
      cases h
      exact ⟨⟨hname, hservers⟩, rfl, rfl⟩

/-- **What every added server preserves** is preserved by the loop of `importChat`. -/
theorem importServers_invariant {P : App → Prop}
    (hadd : ∀ (app : App) (s : Server), P app →
      P (({ app with state := { app.state with servers := app.state.servers ++ [s] } } :
        App).saveServers.emit .serverUpdate))
    (h : P app) (fresh : Nat → JsString) (servers : List ExportedServer) :
    P (app.importServers fresh servers).1 := by
  induction servers generalizing app fresh with
  | nil => exact h
  | cons s rest ih =>
    unfold importServers
    -- The entry is known, cannot be added, or is added.
    split
    · exact ih h _
    · split
      · exact h
      · rename_i added app' hok
        rw [addServer_eq_ok hok]
        exact ih (hadd app added h) _

/-- The loop of `importChat` touches the servers only. -/
theorem importServers_eq (app : App) (fresh : Nat → JsString) (servers : List ExportedServer) :
    ∃ servers' emitted stored, (app.importServers fresh servers).1 =
      { app with
        state := { app.state with servers := servers', emitted }
        storage := { app.storage with servers := stored } } := by
  refine importServers_invariant (P := fun app₁ => ∃ servers' emitted stored, app₁ =
    { app with
      state := { app.state with servers := servers', emitted }
      storage := { app.storage with servers := stored } }) ?_ ⟨_, _, _, rfl⟩ fresh servers
  rintro _ s ⟨servers', emitted, stored, rfl⟩
  exact ⟨_, _, _, rfl⟩

/-- **What `importChat` does**: it throws, perhaps after adding servers, or creates a chat on them. -/
theorem importChat_cases (app : App) (data : ExportedChat) (fresh : Nat → JsString)
    (rand : ChatRandom) :
    (∃ e, app.importChat data fresh rand = (app, .error e) ∨
        app.importChat data fresh rand = ((app.importServers fresh data.servers).1, .error e)) ∨
      ∃ serverIds c app',
        (app.importServers fresh data.servers).1.createChat data.name serverIds data.chatId data.keyB64
          rand = .ok (c, app') ∧
        (data.chatId ≠ [] ∧ data.keyB64 ≠ []) ∧ app.importChat data fresh rand = (app', .ok c) := by
  unfold importChat
  -- Only what is thrown before the loop leaves the application as it was.
  split
  · exact .inl ⟨_, .inl rfl⟩
  · rename_i hmembers
    rw [not_or, not_or] at hmembers
    split
    · rename_i himport
      exact .inl ⟨_, .inr (by rw [himport])⟩
    · rename_i app₁ serverIds himport
      split
      · exact .inl ⟨_, .inr (by rw [himport])⟩
      · rename_i c app' hcreate
        exact .inr ⟨serverIds, c, app', by rw [himport]; exact hcreate, hmembers.2, rfl⟩

/-- A chat that is opened has a list of messages afterwards, and no others than before. -/
theorem opened_eq (app : App) (id : JsString) :
    ∃ messages, (if (app.state.messages.get? id).isNone then app.setMessages id [] else app) =
        { app with state := { app.state with messages } } ∧
      ∀ cid, (messages.get? cid).getD [] = app.messagesOf cid ∧
        (cid ≠ id → messages.get? cid = app.state.messages.get? cid) := by
  split
  · rename_i hnone
    refine ⟨_, rfl, fun cid => ⟨?_, fun hne => ?_⟩⟩
    · by_cases hcid : cid = id
      · rw [OrderedMap.get?_set, if_pos hcid, hcid, messagesOf, Option.isNone_iff_eq_none.mp hnone]
        rfl
      · rw [OrderedMap.get?_set, if_neg hcid]
        rfl
    · rw [OrderedMap.get?_set, if_neg hne]
  · exact ⟨_, rfl, fun cid => ⟨rfl, fun _ => rfl⟩⟩

/-- Reading a chat touches its counter only. -/
theorem read_eq (app : App) (id : JsString) :
    ∃ unreadCounts emitted, (if 0 < app.unreadOf id then app.setUnread id 0 else app) =
        { app with state := { app.state with unreadCounts, emitted } } ∧
      ∀ cid ≠ id, unreadCounts.get? cid = app.state.unreadCounts.get? cid := by
  split
  · refine ⟨_, _, rfl, fun cid hne => ?_⟩
    rw [OrderedMap.get?_set, if_neg hne]
  · exact ⟨_, _, rfl, fun cid _ => rfl⟩

/-- `setActiveChat` touches what belongs to the chat only, and leaves its messages what they are. -/
theorem setActiveChat_eq (app : App) (id : Option JsString) :
    ∃ messages unreadCounts emitted, app.setActiveChat id =
        { app with
          state := { app.state with activeChatId := id, messages, unreadCounts, emitted } } ∧
      ∀ cid, (messages.get? cid).getD [] = app.messagesOf cid ∧
        (id ≠ some cid → messages.get? cid = app.state.messages.get? cid ∧
          unreadCounts.get? cid = app.state.unreadCounts.get? cid) := by
  unfold setActiveChat
  split
  · exact ⟨_, _, _, rfl, fun cid => ⟨rfl, fun _ => ⟨rfl, rfl⟩⟩⟩
  · exact ⟨_, _, _, rfl, fun cid => ⟨rfl, fun _ => ⟨rfl, rfl⟩⟩⟩
  · rename_i id _
    -- First the list is made, then the counter is cleared.
    obtain ⟨messages, hopened, hmessages⟩ :=
      opened_eq { app with state := { app.state with activeChatId := some id } } id
    simp only [hopened]
    obtain ⟨unreadCounts, emitted, hread, hunread⟩ :=
      read_eq { app with state := { app.state with activeChatId := some id, messages } } id
    refine ⟨messages, unreadCounts, emitted, hread, fun cid => ⟨(hmessages cid).1, fun hne => ?_⟩⟩
    have hcid : cid ≠ id := fun heq => hne (congrArg some heq.symm)
    exact ⟨(hmessages cid).2 hcid, hunread cid hcid⟩

/-! ## Persistence -/

/-- The stored servers and chats are those in memory. -/
structure Persisted (app : App) : Prop where
  servers : app.storage.servers.getD [] = app.state.servers
  chats : app.storage.chats.getD [] = app.state.chats

/-- `init` starts from what is stored. -/
theorem persisted_init (storage : LocalStorage) (identity : JsString) :
    (init storage identity).Persisted := ⟨rfl, rfl⟩

theorem Persisted.emit (h : app.Persisted) (event : AppEvent) : (app.emit event).Persisted :=
  ⟨h.servers, h.chats⟩

theorem Persisted.setMessages (h : app.Persisted) (id : JsString) (msgs : List Message) :
    (app.setMessages id msgs).Persisted := ⟨h.servers, h.chats⟩

theorem Persisted.setUnread (h : app.Persisted) (id : JsString) (count : Nat) :
    (app.setUnread id count).Persisted := ⟨h.servers, h.chats⟩

theorem Persisted.addServer (h : app.Persisted) {url token label id : JsString} {s : Server}
    (hadd : app.addServer url token label id = .ok (s, app')) : app'.Persisted := by
  rw [addServer_eq_ok hadd]
  exact ⟨rfl, h.chats⟩

theorem Persisted.createChat (h : app.Persisted) {name : JsString} {serverIds : List JsString}
    {chatId keyB64 : JsString} {rand : ChatRandom} {c : Chat}
    (hcreate : app.createChat name serverIds chatId keyB64 rand = .ok (c, app')) :
    app'.Persisted := by
  obtain ⟨-, -, rfl⟩ := createChat_eq_ok hcreate
  exact ⟨h.servers, rfl⟩

theorem Persisted.importServers (h : app.Persisted) (fresh : Nat → JsString)
    (servers : List ExportedServer) : (app.importServers fresh servers).1.Persisted :=
  importServers_invariant (fun _ _ h => ⟨rfl, h.chats⟩) h fresh servers

theorem Persisted.importChat (h : app.Persisted) (data : ExportedChat) (fresh : Nat → JsString)
    (rand : ChatRandom) : (app.importChat data fresh rand).1.Persisted := by
  have himport := h.importServers fresh data.servers
  rcases app.importChat_cases data fresh rand with ⟨e, heq | heq⟩ | ⟨serverIds, c, app', hcreate, -, heq⟩
  · rw [heq]
    exact h
  · rw [heq]
    exact himport
  · rw [heq]
    exact himport.createChat hcreate

/-- Every call saves what it changes. -/
theorem Persisted.apply (h : app.Persisted) (a : Action) : (a.apply app).Persisted := by
  cases a with
  | addServer url token label id =>
    simp only [Action.apply]
    split
    · rename_i hadd
      exact h.addServer hadd
    · exact h
  | removeServer id => exact ⟨rfl, h.chats⟩
  | createChat name serverIds chatId keyB64 rand =>
    simp only [Action.apply]
    split
    · rename_i hcreate
      exact h.createChat hcreate
    · exact h
  | importChat data fresh rand => exact h.importChat data fresh rand
  | removeChat id => exact ⟨h.servers, rfl⟩
  | setActiveChat id =>
    obtain ⟨_, _, _, heq, -⟩ := app.setActiveChat_eq id
    rw [Action.apply, heq]
    exact ⟨h.servers, h.chats⟩
  | reload identity => exact persisted_init app.storage identity

/-! ## Messages -/

/-- A freshly loaded page shows no messages. -/
theorem messagesOf_init (storage : LocalStorage) (identity cid : JsString) :
    (init storage identity).messagesOf cid = [] := by
  have hfold : ∀ (chats : List Chat) (m : OrderedMap JsString (List Message)),
      (m.get? cid).getD [] = [] →
        ((chats.foldl (fun m c => if (m.get? c.id).isNone then m.set c.id [] else m) m).get?
          cid).getD [] = [] := by
    intro chats
    induction chats with
    | nil => exact fun _ h => h
    | cons c chats ih =>
      intro m h
      refine ih _ ?_
      -- The list that is made is empty, and the others are.
      show ((if (m.get? c.id).isNone then m.set c.id [] else m).get? cid).getD [] = []
      split
      · rw [OrderedMap.get?_set]
        split
        · rfl
        · exact h
      · exact h
  exact hfold (storage.chats.getD []) .empty rfl

theorem messagesOf_addServer {url token label id : JsString} {s : Server}
    (h : app.addServer url token label id = .ok (s, app')) (cid : JsString) :
    app'.messagesOf cid = app.messagesOf cid := by
  rw [addServer_eq_ok h]
  rfl

theorem messagesOf_createChat {name : JsString} {serverIds : List JsString}
    {chatId keyB64 : JsString} {rand : ChatRandom} {c : Chat}
    (h : app.createChat name serverIds chatId keyB64 rand = .ok (c, app')) (cid : JsString) :
    app'.messagesOf cid = if cid = rand.id.val then [] else app.messagesOf cid := by
  obtain ⟨-, -, rfl⟩ := createChat_eq_ok h
  exact messagesOf_setMessages _ _ _ _

theorem messagesOf_importServers (app : App) (fresh : Nat → JsString) (servers : List ExportedServer)
    (cid : JsString) : (app.importServers fresh servers).1.messagesOf cid = app.messagesOf cid := by
  obtain ⟨_, _, _, heq⟩ := app.importServers_eq fresh servers
  rw [heq]
  rfl

/-- A call keeps the messages of a chat or drops all of them. -/
theorem messagesOf_apply (app : App) (a : Action) (cid : JsString) :
    (a.apply app).messagesOf cid = app.messagesOf cid ∨ (a.apply app).messagesOf cid = [] := by
  -- A chat that is created starts without messages, and its id may have been in use.
  have hcreate : ∀ {app₁ app₂ : App} {name : JsString} {serverIds : List JsString}
      {chatId keyB64 : JsString} {rand : ChatRandom} {c : Chat},
      app₁.createChat name serverIds chatId keyB64 rand = .ok (c, app₂) →
      app₂.messagesOf cid = app₁.messagesOf cid ∨ app₂.messagesOf cid = [] := by
    intro app₁ app₂ name serverIds chatId keyB64 rand c h
    rw [messagesOf_createChat h]
    split
    · exact .inr rfl
    · exact .inl rfl
  cases a with
  | addServer url token label id =>
    simp only [Action.apply]
    split
    · rename_i hadd
      exact .inl (messagesOf_addServer hadd cid)
    · exact .inl rfl
  | removeServer id => exact .inl rfl
  | createChat name serverIds chatId keyB64 rand =>
    simp only [Action.apply]
    split
    · rename_i h
      exact hcreate h
    · exact .inl rfl
  | importChat data fresh rand =>
    have himport := messagesOf_importServers app fresh data.servers cid
    rw [Action.apply]
    rcases app.importChat_cases data fresh rand with ⟨e, heq | heq⟩ | ⟨serverIds, c, app', h, -, heq⟩
    · rw [heq]
      exact .inl rfl
    · rw [heq]
      exact .inl himport
    · rw [heq, ← himport]
      exact hcreate h
  | removeChat id =>
    by_cases hid : cid = id
    · right
      simp [Action.apply, App.removeChat, messagesOf, saveChats, App.emit, hid]
    · left
      simp [Action.apply, App.removeChat, messagesOf, saveChats, App.emit, hid]
  | setActiveChat id =>
    obtain ⟨messages, _, _, heq, hmessages⟩ := app.setActiveChat_eq id
    left
    rw [Action.apply, heq]
    exact (hmessages cid).1
  | reload identity => exact .inr (messagesOf_init app.storage identity cid)

/-! ## Chat ids and keys -/

theorem chats_importServers (app : App) (fresh : Nat → JsString) (servers : List ExportedServer) :
    (app.importServers fresh servers).1.state.chats = app.state.chats := by
  obtain ⟨_, _, _, heq⟩ := app.importServers_eq fresh servers
  rw [heq]

theorem chats_createChat {name : JsString} {serverIds : List JsString} {chatId keyB64 : JsString}
    {rand : ChatRandom} {c : Chat}
    (h : app.createChat name serverIds chatId keyB64 rand = .ok (c, app')) :
    app'.state.chats = app.state.chats ++ [c] ∧
      c.chatId = (if chatId = [] then rand.chatId.val else chatId) ∧
      c.keyB64 = if keyB64 = [] then Base64.btoa rand.key.raw else keyB64 := by
  obtain ⟨-, rfl, rfl⟩ := createChat_eq_ok h
  exact ⟨rfl, rfl, rfl⟩

/-- Where the chats come from after a call: they were there, `createChat` made them, or
    they were imported with their id and key. -/
theorem mem_chats_apply (hsaved : app.Persisted) {a : Action} {c : Chat}
    (h : c ∈ (a.apply app).state.chats) :
    c ∈ app.state.chats ∨
      (∃ name serverIds chatId keyB64 rand, a = .createChat name serverIds chatId keyB64 rand ∧
        c.chatId = (if chatId = [] then rand.chatId.val else chatId) ∧
        c.keyB64 = if keyB64 = [] then Base64.btoa rand.key.raw else keyB64) ∨
      ∃ data fresh rand, a = .importChat data fresh rand ∧ c.shared = data.shared := by
  cases a with
  | addServer url token label id =>
    left
    simp only [Action.apply] at h
    split at h
    · rename_i hadd
      rwa [addServer_eq_ok hadd] at h
    · exact h
  | removeServer id => exact .inl h
  | createChat name serverIds chatId keyB64 rand =>
    simp only [Action.apply] at h
    split at h
    · rename_i hcreate
      obtain ⟨hchats, hid, hkey⟩ := chats_createChat hcreate
      rw [hchats, List.mem_append, List.mem_singleton] at h
      rcases h with hold | rfl
      · exact .inl hold
      · exact .inr (.inl ⟨name, serverIds, chatId, keyB64, rand, rfl, hid, hkey⟩)
    · exact .inl h
  | importChat data fresh rand =>
    have himport := chats_importServers app fresh data.servers
    rw [Action.apply] at h
    rcases app.importChat_cases data fresh rand with ⟨e, heq | heq⟩ |
      ⟨serverIds, c', app', hcreate, ⟨hchatId, hkeyB64⟩, heq⟩
    · rw [heq] at h
      exact .inl h
    · rw [heq, himport] at h
      exact .inl h
    · -- The chat id and the key are not empty, so they are taken over.
      obtain ⟨hchats, hid, hkey⟩ := chats_createChat hcreate
      rw [if_neg hchatId] at hid
      rw [if_neg hkeyB64] at hkey
      rw [heq, hchats, himport, List.mem_append, List.mem_singleton] at h
      rcases h with hold | rfl
      · exact .inl hold
      · exact .inr (.inr ⟨data, fresh, rand, rfl, Prod.ext hid hkey⟩)
  | removeChat id => exact .inl (List.mem_of_mem_filter h)
  | setActiveChat id =>
    left
    obtain ⟨_, _, _, heq, -⟩ := app.setActiveChat_eq id
    rwa [Action.apply, heq] at h
  | reload identity =>
    left
    rw [← hsaved.chats]
    exact h

end App

end Frag
