import Frag.Guarantees.Overlap

/-!
# What the Servers Return

`pollChat` on any answers of the servers of a chat: as many lists of fragments as there are
servers, with any ids and payloads. The fragments are grouped in a plain object, in which the
names that objects inherit are found without having been added.

## Main results

- `delivers_iff`: a poll delivers exactly the complete messages, unless the key of the chat is
  none or a fragment has an inherited name for an id; then it throws.
-/

namespace Frag

open Runs

/-- `pollChat(chat)`, answered with `results` and not interrupted; `none` if it throws. -/
def pollAnswered (W : WebCrypto) (app : App) (chat : Chat)
    (results : List (List (Fragment JsString))) : Option App :=
  match pollStart app chat with
  | none => some app
  | some start =>
    (start.fetch app).bind fun fetch =>
      (fetch.collect app results).map fun (loop, pending) => loop.run W app pending

/-- A poll of servers that answer each for itself; one that throws leaves the state alone. -/
theorem pollChat_eq_pollAnswered (W : WebCrypto) (app : App) (chat : Chat) (answer : Answer) :
    pollChat W app chat answer =
      (pollAnswered W app chat (pollResults app chat answer)).getD app := by
  unfold pollChat pollAnswered
  cases hstart : pollStart app chat with
  | none => rfl
  | some start =>
    simp only [Option.bind_some]
    cases hfetch : start.fetch app with
    | none => rfl
    | some fetch =>
      have hf : (pollStart app chat).bind (PollStart.fetch app) = some fetch := by
        rw [hstart]
        exact hfetch
      obtain ⟨-, key, -, rfl⟩ := bind_fetch_eq_some.mp hf
      simp only [Option.bind_some, PollFetch.results, pollResults]
      cases PollFetch.collect app _ _ <;> rfl

/-- What one poll of a chat delivers: the messages of which every server has returned a
    fragment, unless the chat has them, each once; its text is what the last payloads
    spell; the cursor moves to the newest message. -/
structure Delivers (W : WebCrypto) (app : App) (chat : Chat)
    (results : List (List (Fragment JsString))) (app' : App) (new : List Message) : Prop where
  appended : app'.messagesOf chat.id = app.messagesOf chat.id ++ new
  once : (new.map Message.id).Nodup
  complete : ∀ m, m ∈ new.map Message.id ↔
    m ∉ (app.messagesOf chat.id).map Message.id ∧
      ∀ frags ∈ results, ∃ f ∈ frags, f.messageId = m
  text : ∃ key, importKey chat.keyB64 = some key ∧ ∀ msg ∈ new,
    msg.text = (decrypt W key (joinPayload (results.filterMap fun frags => slot frags msg.id))).getD
      (js "[decryption failed]")
  cursor : app'.lastSince chat.id = (new.map Message.timestamp).foldl max chat.lastSince

/-! ## The loop -/

theorem newest_eq_foldl (since : Int) (pending : List PendingMessage) :
    newest since pending = (pending.map PendingMessage.timestamp).foldl max since := by
  induction pending generalizing since with
  | nil => rfl
  | cons p rest ih => exact ih (max since p.timestamp)

/-- What the loop and the rest of `pollChat` do to the chat. -/
theorem PollLoop.run_spec (W : WebCrypto) {app : App} (loop : PollLoop)
    (pending : List PendingMessage) (hchat : (app.chat? loop.chat.id).isSome)
    (hsince : loop.maxTimestamp = app.lastSince loop.chat.id) :
    (loop.run W app pending).messagesOf loop.chat.id = app.messagesOf loop.chat.id ++
        pending.map (receivedBy W loop.chat loop.key) ∧
      (loop.run W app pending).lastSince loop.chat.id =
        newest (app.lastSince loop.chat.id) pending := by
  obtain ⟨app', loop', hrun, hloop, hmax, hsame, hself, -⟩ :=
    loop.run_eq (W := W) app pending
  rw [hrun]
  refine ⟨by rw [PollLoop.messagesOf_finish, hself], ?_⟩
  rw [hsince] at hmax
  rcases PollLoop.finish_cases app' loop' with ⟨-, hfinish⟩ | ⟨hle, hfinish⟩
  · -- The cursor is set to the newest timestamp.
    rw [hfinish.lastSince, ← hmax, hloop]
    apply App.lastSince_setLastSince_self
    rw [hsame.chat?]
    exact hchat
  · rw [hfinish.lastSince, hsame.lastSince]
    apply le_antisymm
    · exact le_newest _ _
    · rwa [hmax, hloop, hsame.lastSince] at hle

/-! ## Complete messages -/

/-- If every element has an image, the images are all that is left. -/
theorem map_eq_map_some_iff {α β : Type} {f : α → Option β} {l : List α} :
    (∀ a ∈ l, (f a).isSome) ↔ l.map f = (l.filterMap f).map some := by
  induction l with
  | nil => simp
  | cons a l ih =>
    rw [List.forall_mem_cons, ih, List.map_cons]
    cases ha : f a with
    | none =>
      rw [List.filterMap_cons_none ha]
      constructor
      · exact fun h => absurd h.1 Bool.false_ne_true
      · intro h
        have hmem : none ∈ (l.filterMap f).map some := h ▸ List.mem_cons_self
        simp at hmem
    | some b =>
      rw [List.filterMap_cons_some ha, List.map_cons, List.cons.injEq]
      simp

section Complete

variable {W : WebCrypto} {app : App} {chat : Chat} {key : AesKey}
  {results : List (List (Fragment JsString))} {m : OrderedMap JsString MessageInfo}

/-- What the loop takes up has an id of which every server has returned a fragment; its chunks
    are the last payloads. -/
theorem chunks_of_mem_assemble (hm : byMessage results = some m) (hR : results ≠ [])
    {existing : List JsString} {p : PendingMessage}
    (hp : p ∈ assemble existing results.length (objectEntries m)) :
    (∀ frags ∈ results, ∃ f ∈ frags, f.messageId = p.id) ∧
      p.chunks = results.filterMap fun frags => slot frags p.id := by
  obtain ⟨-, hchunks, -⟩ := (mem_assemble_byMessage hm hR).mp hp
  have hfilter : results.filterMap (fun frags => slot frags p.id) = p.chunks := by
    have hid := congrArg (List.filterMap id) hchunks
    rw [List.filterMap_map, List.filterMap_map] at hid
    simpa [Function.comp_def] using hid
  refine ⟨fun frags hfrags => ?_, hfilter.symm⟩
  rw [← slot_isSome]
  rw [← hfilter] at hchunks
  exact map_eq_map_some_iff.mpr hchunks frags hfrags

/-- The ids that the loop takes up. -/
theorem mem_ids_assemble (hm : byMessage results = some m) (hR : results ≠ [])
    {existing : List JsString} {messageId : JsString} :
    messageId ∈ (assemble existing results.length (objectEntries m)).map PendingMessage.id ↔
      messageId ∉ existing ∧ ∀ frags ∈ results, ∃ f ∈ frags, f.messageId = messageId := by
  constructor
  · intro h
    obtain ⟨p, hp, rfl⟩ := List.mem_map.mp h
    exact ⟨((mem_assemble_byMessage hm hR).mp hp).1, (chunks_of_mem_assemble hm hR hp).1⟩
  · rintro ⟨hnew, hall⟩
    -- The first server has returned a fragment, which has the sender and the timestamp.
    obtain ⟨frags, rest, rfl⟩ := List.exists_cons_of_ne_nil hR
    obtain ⟨f, hf⟩ : ∃ f, frags.find? (fun f => f.messageId = messageId) = some f := by
      rw [← Option.isSome_iff_exists, List.find?_isSome]
      obtain ⟨f, hf, hid⟩ := hall frags List.mem_cons_self
      exact ⟨f, hf, by simpa using hid⟩
    refine List.mem_map.mpr ⟨⟨messageId, f.senderHash, f.timestamp,
      (frags :: rest).filterMap fun frags => slot frags messageId⟩, ?_, rfl⟩
    rw [mem_assemble_byMessage hm hR]
    refine ⟨hnew, ?_, ?_⟩
    · exact map_eq_map_some_iff.mp fun frags hfrags => slot_isSome.mpr (hall frags hfrags)
    · rw [List.headD_cons, hf]
      rfl

/-- A poll whose key is imported and whose fragments have no inherited names delivers. -/
theorem delivers_of_names (W : WebCrypto) (hchat : app.chat? chat.id = some chat)
    (hservers : app.resolveServers chat.serverIds ≠ [])
    (hlen : results.length = (app.resolveServers chat.serverIds).length)
    (hkey : importKey chat.keyB64 = some key)
    (hnames : ∀ frags ∈ results, ∀ f ∈ frags, f.messageId ∉ inheritedNames) :
    ∃ app' new, pollAnswered W app chat results = some app' ∧
      Delivers W app chat results app' new := by
  obtain ⟨m, hm⟩ := exists_byMessage hnames
  have hR : results ≠ [] := by
    rintro rfl
    exact hservers (List.length_eq_zero_iff.mp hlen.symm)
  have hsince : app.lastSince chat.id = chat.lastSince := by
    rw [App.lastSince, hchat]
    rfl
  -- The loop that the poll enters, and what it takes up.
  let loop : PollLoop :=
    { chat, key, isActive := app.state.activeChatId = some chat.id, newCount := 0,
      maxTimestamp := app.lastSince chat.id }
  let pending := assemble ((app.messagesOf chat.id).map Message.id) results.length (objectEntries m)
  have hpoll : pollAnswered W app chat results = some (loop.run W app pending) := by
    unfold pollAnswered pollStart
    simp only [hservers, if_false, PollStart.fetch, hkey, Option.map_some, Option.bind_some,
      PollFetch.collect, hm]
    rw [← hlen]
  have hknown : (app.chat? loop.chat.id).isSome := Option.isSome_iff_exists.mpr ⟨chat, hchat⟩
  obtain ⟨hmessages, hcursor⟩ := loop.run_spec W pending hknown rfl
  refine ⟨_, pending.map (receivedBy W chat key), hpoll, hmessages, ?_, fun messageId => ?_,
    ⟨key, hkey, ?_⟩, ?_⟩
  · rw [List.map_map]
    exact nodup_assemble _ _ m
  · rw [List.map_map]
    exact mem_ids_assemble hm hR
  · intro msg hmsg
    obtain ⟨p, hp, rfl⟩ := List.mem_map.mp hmsg
    obtain ⟨-, hchunks⟩ := chunks_of_mem_assemble hm hR hp
    rw [receivedBy, hchunks]
  · rw [hcursor, newest_eq_foldl, List.map_map, hsince]
    rfl

/-- A poll that does not throw has imported the key and met no inherited name. -/
theorem names_of_pollAnswered {app' : App} (hservers : app.resolveServers chat.serverIds ≠ [])
    (h : pollAnswered W app chat results = some app') :
    (importKey chat.keyB64).isSome ∧
      ∀ frags ∈ results, ∀ f ∈ frags, f.messageId ∉ inheritedNames := by
  unfold pollAnswered pollStart at h
  rw [if_neg hservers] at h
  obtain ⟨fetch, hfetch, hloop⟩ := Option.bind_eq_some_iff.mp h
  obtain ⟨c, hcollect, -⟩ := Option.map_eq_some_iff.mp hloop
  obtain ⟨key, hkey, -⟩ := Option.map_eq_some_iff.mp hfetch
  exact ⟨Option.isSome_iff_exists.mpr ⟨key, hkey⟩, fetch.names_of_collect hcollect⟩

end Complete

/-- **A poll delivers exactly the complete messages**, whatever the servers return, if and only if
    the key of the chat can be imported and no fragment has an inherited name for an id. -/
theorem delivers_iff (W : WebCrypto) {app : App} {chat : Chat}
    (hchat : app.chat? chat.id = some chat) (hservers : app.resolveServers chat.serverIds ≠ [])
    {results : List (List (Fragment JsString))}
    (hlen : results.length = (app.resolveServers chat.serverIds).length) :
    (∃ app' new, pollAnswered W app chat results = some app' ∧
        Delivers W app chat results app' new) ↔
      (importKey chat.keyB64).isSome ∧
        ∀ frags ∈ results, ∀ f ∈ frags, f.messageId ∉ inheritedNames := by
  constructor
  · rintro ⟨app', new, hpoll, -⟩
    exact names_of_pollAnswered hservers hpoll
  · rintro ⟨hkey, hnames⟩
    obtain ⟨key, hkey⟩ := Option.isSome_iff_exists.mp hkey
    exact delivers_of_names W hchat hservers hlen hkey hnames

/-! ## An inherited name -/

/-- Both servers of the sample chat return what they have, and one of them a fragment whose
    message is called `constructor`. -/
def namedAnswers : List (List (Fragment JsString)) :=
  [{ id := js "x", messageId := js "constructor", chatId := Sample.chatId.val,
     senderHash := [], payload := [], timestamp := 1, ttl := 0 } :: sampleAnswers.getD 0 [],
    sampleAnswers.getD 1 []]

theorem sample_poll_delivers :
    ∃ app' new, pollAnswered sampleCrypto samplePage.app Sample.chat sampleAnswers = some app' ∧
      Delivers sampleCrypto samplePage.app Sample.chat sampleAnswers app' new :=
  (delivers_iff sampleCrypto (by decide +kernel) (by decide +kernel) (by decide +kernel)).mpr
    (by decide +kernel)

/-- The fragment keeps the poll from delivering the other message. -/
theorem constructor_stops_poll :
    samplePage.app.chat? Sample.chat.id = some Sample.chat ∧
      samplePage.app.resolveServers Sample.chat.serverIds ≠ [] ∧
      namedAnswers.length = (samplePage.app.resolveServers Sample.chat.serverIds).length ∧
      pollAnswered sampleCrypto samplePage.app Sample.chat namedAnswers = none := by
  decide +kernel

end Frag
