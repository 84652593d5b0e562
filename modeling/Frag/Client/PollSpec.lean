import Frag.Client.Poll
import Mathlib.Order.MinMax

/-!
# What a Poll Does

The specification of an uninterrupted `pollChat`, used by every result about runs
instead of the definition: which messages it appends (`messagesOf_pollChat`,
`mem_pendingOf`), where it leaves the cursor (`lastSince_pollChat`), and what it
does not touch.

## Main results

- `mem_pendingOf`: a message is appended iff it is not displayed yet and every
  position has a payload for it;
- `nodup_pendingOf`: a poll appends no id twice;
- `messagesOf_pollChat`, `lastSince_pollChat`: the effect of a poll on its chat.
-/

namespace Frag

variable {W : WebCrypto} {app : App} {chat : Chat} {answer : Answer}

/-! ## Effect of the loop -/

/-- The message object made of a pending message of a chat. -/
def receivedBy (W : WebCrypto) (chat : Chat) (key : AesKey) (p : PendingMessage) : Message where
  id := p.id
  chatId := chat.chatId
  senderHash := p.sender
  text := (decrypt W key (joinPayload p.chunks)).getD (js "[decryption failed]")
  timestamp := p.timestamp
  status := .received

/-- The cursor after the messages of a loop: the newest timestamp seen. -/
def newest (since : Int) : List PendingMessage → Int
  | [] => since
  | p :: rest => newest (max since p.timestamp) rest

theorem le_newest (since : Int) (pending : List PendingMessage) : since ≤ newest since pending := by
  induction pending generalizing since with
  | nil => exact le_refl since
  | cons p rest ih => exact le_trans (le_max_left _ _) (ih _)

/-- The cursor stays or becomes the timestamp of a message of the loop. -/
theorem newest_cases (since : Int) (pending : List PendingMessage) :
    newest since pending = since ∨ ∃ p ∈ pending, newest since pending = p.timestamp := by
  induction pending generalizing since with
  | nil => exact .inl rfl
  | cons p rest ih =>
    rcases ih (max since p.timestamp) with hs | ⟨q, hq, hs⟩
    · rcases max_choice since p.timestamp with hm | hm
      · exact .inl (hs.trans hm)
      · exact .inr ⟨p, List.mem_cons_self, hs.trans hm⟩
    · exact .inr ⟨q, List.mem_cons_of_mem _ hq, hs⟩

/-- Two states that differ in messages, unread counters and emitted events only. -/
structure App.SameSetup (app app' : App) : Prop where
  identity : app'.state.identity = app.state.identity
  servers : app'.state.servers = app.state.servers
  chats : app'.state.chats = app.state.chats
  removedChats : app'.state.removedChats = app.state.removedChats
  activeChatId : app'.state.activeChatId = app.state.activeChatId
  storage : app'.storage = app.storage

theorem App.SameSetup.refl (app : App) : app.SameSetup app := ⟨rfl, rfl, rfl, rfl, rfl, rfl⟩

theorem App.SameSetup.trans {app₁ app₂ app₃ : App} (h : app₁.SameSetup app₂)
    (h' : app₂.SameSetup app₃) : app₁.SameSetup app₃ where
  identity := h'.identity.trans h.identity
  servers := h'.servers.trans h.servers
  chats := h'.chats.trans h.chats
  removedChats := h'.removedChats.trans h.removedChats
  activeChatId := h'.activeChatId.trans h.activeChatId
  storage := h'.storage.trans h.storage

theorem App.SameSetup.chat? {app app' : App} (h : app.SameSetup app') (id : JsString) :
    app'.chat? id = app.chat? id := by
  rw [App.chat?, h.chats, h.removedChats, App.chat?]

theorem App.SameSetup.lastSince {app app' : App} (h : app.SameSetup app') (id : JsString) :
    app'.lastSince id = app.lastSince id := by
  rw [App.lastSince, h.chat?, App.lastSince]

theorem PollLoop.sameSetup_deliver (loop : PollLoop) (p : PendingMessage) :
    app.SameSetup (loop.deliver W app p).1 := by
  unfold PollLoop.deliver
  cases loop.isActive <;> exact ⟨rfl, rfl, rfl, rfl, rfl, rfl⟩

theorem PollLoop.messagesOf_deliver (W : WebCrypto) (app : App) (loop : PollLoop) (p : PendingMessage) (id : JsString) :
    (loop.deliver W app p).1.messagesOf id =
      if id = loop.chat.id then app.messagesOf id ++ [loop.received W p] else app.messagesOf id := by
  have hpush : (app.pushMessage loop.chat.id (loop.received W p)).messagesOf id =
      if id = loop.chat.id then app.messagesOf id ++ [loop.received W p] else app.messagesOf id := by
    rw [App.pushMessage, App.messagesOf_setMessages]
    split
    · rename_i h
      rw [h]
    · rfl
  unfold PollLoop.deliver
  cases loop.isActive <;> exact hpush

/-- The state after the loop, before `finish`: the loop and `finish` are two phases. -/
theorem PollLoop.run_eq (app : App) (loop : PollLoop) (pending : List PendingMessage) :
    ∃ (app' : App) (loop' : PollLoop), loop.run W app pending = loop'.finish app' ∧
      loop'.chat = loop.chat ∧ loop'.maxTimestamp = newest loop.maxTimestamp pending ∧
      app.SameSetup app' ∧
      app'.messagesOf loop.chat.id =
        app.messagesOf loop.chat.id ++ pending.map (receivedBy W loop.chat loop.key) ∧
      ∀ id ≠ loop.chat.id, app'.messagesOf id = app.messagesOf id := by
  induction pending generalizing app loop with
  | nil => exact ⟨app, loop, rfl, rfl, rfl, .refl app, by simp, fun _ _ => rfl⟩
  | cons p rest ih =>
    obtain ⟨app', loop', hrun, hchat, hmax, hsame, hself, hother⟩ :=
      ih (loop.deliver W app p).1 (loop.deliver W app p).2
    have hnewest : (loop.deliver W app p).2.maxTimestamp = max loop.maxTimestamp p.timestamp :=
      (max_def_lt _ _).symm
    -- The first message is delivered, and the others after it.
    refine ⟨app', loop', hrun, hchat, by rw [hmax, hnewest]; rfl,
      (loop.sameSetup_deliver p).trans hsame, ?_, ?_⟩
    · have hstep := loop.messagesOf_deliver W app p loop.chat.id
      rw [if_pos rfl] at hstep
      calc app'.messagesOf loop.chat.id
          = (loop.deliver W app p).1.messagesOf loop.chat.id ++
              rest.map (receivedBy W loop.chat loop.key) := hself
        _ = _ := by rw [hstep, List.append_assoc]; rfl
    · intro id hid
      have hstep := loop.messagesOf_deliver W app p id
      rw [if_neg hid] at hstep
      exact (hother id hid).trans hstep

/-! ## Effect of a poll -/

/-- What an uninterrupted poll appends: nothing when it returns early or throws. -/
def pendingOf (app : App) (chat : Chat) (answer : Answer) : List PendingMessage :=
  match (pollStart app chat).bind (PollStart.fetch app) with
  | none => []
  | some fetch => ((fetch.collect app (fetch.results answer)).map Prod.snd).getD []

/-- The suspended state a poll fetches its fragments in. -/
theorem bind_fetch_eq_some {fetch : PollFetch} :
    (pollStart app chat).bind (PollStart.fetch app) = some fetch ↔
      app.resolveServers chat.serverIds ≠ [] ∧ ∃ key, importKey chat.keyB64 = some key ∧
        fetch = { chat, servers := app.resolveServers chat.serverIds, key,
                  since := app.lastSince chat.id } := by
  unfold pollStart PollStart.fetch
  simp only
  split
  · rename_i h
    simp [h]
  · rename_i h
    simp [h, eq_comm]

theorem App.SameSetup.setLastSince {app app' : App} (h : app.SameSetup app') (id : JsString)
    (since : Int) :
    (app.setLastSince id since).saveChats.SameSetup (app'.setLastSince id since).saveChats where
  identity := h.identity
  servers := h.servers
  chats := by simp only [App.setLastSince, App.saveChats, h.chats]
  removedChats := by simp only [App.setLastSince, App.saveChats, h.removedChats]
  activeChatId := h.activeChatId
  storage := by simp only [App.setLastSince, App.saveChats, h.chats, h.storage]

theorem App.sameSetup_setUnread (app : App) (id : JsString) (count : Nat) :
    app.SameSetup (app.setUnread id count) := ⟨rfl, rfl, rfl, rfl, rfl, rfl⟩

theorem PollLoop.finish_cases (app : App) (loop : PollLoop) :
    (app.lastSince loop.chat.id < loop.maxTimestamp ∧
        ((app.setLastSince loop.chat.id loop.maxTimestamp).saveChats).SameSetup
          (loop.finish app)) ∨
      (loop.maxTimestamp ≤ app.lastSince loop.chat.id ∧ app.SameSetup (loop.finish app)) := by
  unfold PollLoop.finish
  by_cases h : app.lastSince loop.chat.id < loop.maxTimestamp
  · rw [if_pos h]
    refine .inl ⟨h, ?_⟩
    split
    · exact App.sameSetup_setUnread _ _ _
    · exact .refl _
  · rw [if_neg h]
    refine .inr ⟨not_lt.mp h, ?_⟩
    split
    · exact App.sameSetup_setUnread _ _ _
    · exact .refl _

/-- The end of a poll: the cursor of the chat is set and saved, and then its counter is set. -/
theorem PollLoop.finish_eq (app : App) (loop : PollLoop) :
    ∃ chats removedChats storage,
      chats.map Chat.id = app.state.chats.map Chat.id ∧
      removedChats.map Chat.id = app.state.removedChats.map Chat.id ∧
      loop.finish app =
        if loop.isActive = false ∧ 0 < loop.newCount then
          App.setUnread ⟨{ app.state with chats := chats, removedChats := removedChats }, storage⟩
            loop.chat.id (app.unreadOf loop.chat.id + loop.newCount)
        else ⟨{ app.state with chats := chats, removedChats := removedChats }, storage⟩ := by
  have hids : ∀ chats : List Chat,
      (chats.map (App.withLastSince loop.chat.id loop.maxTimestamp)).map Chat.id =
        chats.map Chat.id := by
    intro chats
    rw [List.map_map]
    exact List.map_congr_left fun c _ => App.id_withLastSince _ _ c
  unfold PollLoop.finish
  by_cases hnew : app.lastSince loop.chat.id < loop.maxTimestamp
  · simp only [hnew, if_true]
    exact ⟨_, _, _, hids app.state.chats, hids app.state.removedChats, rfl⟩
  · simp only [hnew, if_false]
    exact ⟨app.state.chats, app.state.removedChats, app.storage, rfl, rfl, rfl⟩

theorem PollLoop.messagesOf_finish (loop : PollLoop) (id : JsString) :
    (loop.finish app).messagesOf id = app.messagesOf id := by
  unfold PollLoop.finish
  simp only
  split <;> split <;> simp

/-- A poll returns early or throws and does nothing, or it runs its loop and then
    `finish`. -/
private theorem pollChat_phases (W : WebCrypto) (app : App) (chat : Chat) (answer : Answer) :
    (pollChat W app chat answer = app ∧ pendingOf app chat answer = []) ∨
      ∃ key app' loop', importKey chat.keyB64 = some key ∧
        pollChat W app chat answer = PollLoop.finish app' loop' ∧ loop'.chat = chat ∧
        loop'.maxTimestamp = newest (app.lastSince chat.id) (pendingOf app chat answer) ∧
        app.SameSetup app' ∧
        app'.messagesOf chat.id =
          app.messagesOf chat.id ++ (pendingOf app chat answer).map (receivedBy W chat key) ∧
        ∀ id ≠ chat.id, app'.messagesOf id = app.messagesOf id := by
  unfold pendingOf pollChat
  cases hf : (pollStart app chat).bind (PollStart.fetch app) with
  | none => exact .inl ⟨rfl, rfl⟩
  | some fetch =>
    -- Without `byMessage` the poll has thrown; otherwise the loop runs on what is assembled.
    obtain ⟨-, key, hkey, rfl⟩ := bind_fetch_eq_some.mp hf
    simp only [PollFetch.collect]
    cases byMessage (PollFetch.results _ answer) with
    | none => exact .inl ⟨rfl, rfl⟩
    | some m =>
      obtain ⟨app', loop', hrun⟩ := PollLoop.run_eq (W := W) app
        { chat, key, isActive := app.state.activeChatId = some chat.id, newCount := 0,
          maxTimestamp := app.lastSince chat.id }
        (assemble ((app.messagesOf chat.id).map Message.id)
          (app.resolveServers chat.serverIds).length (objectEntries m))
      exact .inr ⟨key, app', loop', hkey, hrun⟩

/-- Where a poll leaves the setup: the cursor of its chat is set and saved when a
    newer message was appended, and nothing else changes. -/
theorem pollChat_cases (W : WebCrypto) (app : App) (chat : Chat) (answer : Answer) :
    (app.lastSince chat.id < newest (app.lastSince chat.id) (pendingOf app chat answer) ∧
        ((app.setLastSince chat.id
          (newest (app.lastSince chat.id) (pendingOf app chat answer))).saveChats).SameSetup
            (pollChat W app chat answer)) ∨
      (newest (app.lastSince chat.id) (pendingOf app chat answer) = app.lastSince chat.id ∧
        app.SameSetup (pollChat W app chat answer)) := by
  rcases pollChat_phases W app chat answer with ⟨hpoll, hpending⟩ |
    ⟨key, app', loop', -, hpoll, hchat, hmax, hsame, -⟩
  · rw [hpoll, hpending]
    exact .inr ⟨rfl, .refl app⟩
  · rw [hpoll, ← hmax]
    rcases PollLoop.finish_cases app' loop' with ⟨hlt, hfin⟩ | ⟨hle, hfin⟩
    · rw [hchat, hsame.lastSince] at hlt
      rw [hchat] at hfin
      exact .inl ⟨hlt, (hsame.setLastSince _ _).trans hfin⟩
    · rw [hchat, hsame.lastSince] at hle
      refine .inr ⟨le_antisymm hle ?_, hsame.trans hfin⟩
      rw [hmax]
      exact le_newest _ _

/-- The messages of the polled chat grow by the pending ones, in order. -/
theorem messagesOf_pollChat {key : AesKey} (hkey : importKey chat.keyB64 = some key) :
    (pollChat W app chat answer).messagesOf chat.id =
      app.messagesOf chat.id ++ (pendingOf app chat answer).map (receivedBy W chat key) := by
  rcases pollChat_phases W app chat answer with ⟨hpoll, hpending⟩ |
    ⟨key', app', loop', hkey', hpoll, -, -, -, hself, -⟩
  · simp [hpoll, hpending]
  · obtain rfl : key = key' := Option.some.inj (hkey.symm.trans hkey')
    rw [hpoll, PollLoop.messagesOf_finish, hself]

/-- The messages of the other chats stay. -/
theorem messagesOf_pollChat_ne {id : JsString} (hid : id ≠ chat.id) :
    (pollChat W app chat answer).messagesOf id = app.messagesOf id := by
  rcases pollChat_phases W app chat answer with ⟨hpoll, -⟩ |
    ⟨-, app', loop', -, hpoll, -, -, -, -, hother⟩
  · rw [hpoll]
  · rw [hpoll, PollLoop.messagesOf_finish, hother id hid]

/-- A poll that can do nothing does nothing. -/
theorem pollChat_of_pendingOf_eq_nil (h : pendingOf app chat answer = []) :
    (∀ id, (pollChat W app chat answer).messagesOf id = app.messagesOf id) ∧
      app.SameSetup (pollChat W app chat answer) := by
  constructor
  · intro id
    by_cases hid : id = chat.id
    · subst hid
      rcases pollChat_phases W app chat answer with ⟨hpoll, -⟩ |
        ⟨key, app', loop', -, hpoll, -, -, -, hself, -⟩
      · rw [hpoll]
      · rw [hpoll, PollLoop.messagesOf_finish, hself, h, List.map_nil, List.append_nil]
    · exact messagesOf_pollChat_ne hid
  · rcases pollChat_cases W app chat answer with ⟨hlt, -⟩ | ⟨-, hsame⟩
    · rw [h] at hlt
      exact absurd hlt (lt_irrefl _)
    · exact hsame

/-- The cursor becomes the newest timestamp of the appended messages. -/
theorem lastSince_pollChat (h : (app.chat? chat.id).isSome) :
    (pollChat W app chat answer).lastSince chat.id =
      newest (app.lastSince chat.id) (pendingOf app chat answer) := by
  rcases pollChat_cases W app chat answer with ⟨-, hsame⟩ | ⟨heq, hsame⟩
  · rw [hsame.lastSince]
    exact App.lastSince_setLastSince_self _ h
  · rw [hsame.lastSince, heq]

/-! ## Grouping -/

/-- The payload that ends up in the slot of a server: that of the last fragment of
    the message among those it answered. -/
def slot (frags : List (Fragment JsString)) (messageId : JsString) : Option JsString :=
  (frags.filter fun f => f.messageId = messageId).getLast?.map Fragment.payload

/-- The fragments of one server's answer among the visited ones. -/
private theorem filter_zipIdx_flatMap (results : List (List (Fragment JsString))) (k i : Nat) :
    ((results.zipIdx k).flatMap fun (frags, serverIdx) =>
        frags.map fun frag => (serverIdx, frag)).filter (fun v => v.1 = k + i) =
      (results.getD i []).map fun frag => (k + i, frag) := by
  induction results generalizing k i with
  | nil => simp
  | cons frags rest ih =>
    rw [List.zipIdx_cons, List.flatMap_cons, List.filter_append, List.filter_map]
    cases i with
    | zero =>
      -- The other servers have higher positions.
      have hnil : ((rest.zipIdx (k + 1)).flatMap fun (frags, serverIdx) =>
          frags.map fun frag => (serverIdx, frag)).filter (fun v => v.1 = k) = [] := by
        rw [List.filter_eq_nil_iff]
        rintro ⟨j, f⟩ hmem
        simp only [List.mem_flatMap, List.mem_map, Prod.mk.injEq] at hmem
        obtain ⟨⟨frags', j'⟩, hz, _, -, rfl, -⟩ := hmem
        have hle := List.le_snd_of_mem_zipIdx hz
        simp only [decide_eq_true_eq]
        omega
      simp [Function.comp_def, hnil]
    | succ i =>
      have hshift : k + (i + 1) = k + 1 + i := by omega
      rw [hshift, ih (k + 1) i]
      have hne : ¬ k = k + 1 + i := by omega
      simp [Function.comp_def, hne]

theorem filter_visited (results : List (List (Fragment JsString))) (i : Nat) :
    (visited results).filter (fun v => v.1 = i) =
      (results.getD i []).map fun frag => (i, frag) := by
  have h := filter_zipIdx_flatMap results 0 i
  rwa [Nat.zero_add] at h

theorem mem_visited {results : List (List (Fragment JsString))} {v : Nat × Fragment JsString} :
    v ∈ visited results ↔ v.2 ∈ results.getD v.1 [] := by
  have hiff : v ∈ visited results ↔ v ∈ (visited results).filter (fun w => w.1 = v.1) := by simp
  rw [hiff, filter_visited, List.mem_map]
  constructor
  · rintro ⟨f, hf, hv⟩
    obtain rfl : f = v.2 := congrArg Prod.snd hv
    exact hf
  · intro h
    exact ⟨v.2, h, rfl⟩

private theorem foldl_addPayload (vs : List (Nat × Fragment JsString)) (info : MessageInfo) :
    vs.foldl addPayload info = { info with
      fragments := vs.foldl (fun m v => m.set v.1 v.2.payload) info.fragments } := by
  induction vs generalizing info with
  | nil => rfl
  | cons v vs ih => rw [List.foldl_cons, ih, List.foldl_cons]; rfl

/-- `byMessage` does not throw on other names than the inherited ones. -/
theorem exists_byMessage {results : List (List (Fragment JsString))}
    (hnames : ∀ frags ∈ results, ∀ f ∈ frags, f.messageId ∉ inheritedNames) :
    ∃ m, byMessage results = some m := by
  unfold byMessage
  rw [if_neg]
  · exact ⟨_, rfl⟩
  · simp only [List.any_eq_true, decide_eq_true_eq, not_exists, not_and]
    intro v hv hmem
    have hv := mem_visited.mp hv
    cases hget : results[v.1]? with
    | none => simp [List.getD_eq_getElem?_getD, hget] at hv
    | some frags =>
      rw [List.getD_eq_getElem?_getD, hget, Option.getD_some] at hv
      exact hnames frags (List.mem_of_getElem? hget) v.2 hv hmem

/-- The value of a message id in `byMessage`: started by the first fragment visited. -/
theorem get?_byMessage {results : List (List (Fragment JsString))}
    {m : OrderedMap JsString MessageInfo} (h : byMessage results = some m) (messageId : JsString) :
    (m.get? messageId).map (fun info => (info.sender, info.timestamp)) =
        ((visited results).find? fun v => v.2.messageId = messageId).map
          (fun v => (v.2.senderHash, v.2.timestamp)) ∧
      ∀ info, m.get? messageId = some info →
        ∀ i, info.fragments.get? i = slot (results.getD i []) messageId := by
  have hm : m = .collect (fun v => v.2.messageId) newInfo addPayload (visited results) := by
    unfold byMessage at h
    split at h
    · cases h
    · exact (Option.some.inj h).symm
  rw [hm, OrderedMap.get?_collect, ← List.head?_filter]
  -- What a position is set to last is the last fragment that its server answered.
  have hslot : ∀ i, (((visited results).filter fun v => v.2.messageId = messageId).filter
      fun v => v.1 = i).getLast?.map (fun v => v.2.payload) =
        slot (results.getD i []) messageId := by
    intro i
    rw [List.filter_comm, filter_visited, List.filter_map, List.getLast?_map, Option.map_map]
    rfl
  cases hvs : (visited results).filter fun v => v.2.messageId = messageId with
  | nil => simp
  | cons v vs =>
    rw [hvs] at hslot
    simp only [foldl_addPayload, Option.map_some, List.head?_cons, Option.some.injEq]
    refine ⟨rfl, ?_⟩
    rintro info rfl i
    rw [OrderedMap.get?_foldl_set]
    simpa [newInfo] using hslot i

/-! ## Assembly -/

private theorem mapM_eq_some {α β : Type} {f : α → Option β} {l : List α} {ys : List β} :
    l.mapM f = some ys ↔ l.map f = ys.map some := by
  induction l generalizing ys with
  | nil => cases ys <;> simp
  | cons a l ih =>
    cases ha : f a with
    | none => cases ys <;> simp [ha]
    | some b =>
      cases ys with
      | nil => cases hl : l.mapM f <;> simp [ha, hl]
      | cons y ys =>
        rw [List.mapM_cons, ha, List.map_cons, List.map_cons, List.cons.injEq, ← ih]
        cases hl : l.mapM f <;> simp [ha]

/-- A complete `ordered` has found a payload under every position, so there are at
    least `N` fragments: the size check of the loop is subsumed. -/
theorem le_size_of_ordered {N : Nat} {info : MessageInfo} {chunks : List JsString}
    (h : ordered N info = some chunks) : N ≤ info.fragments.size := by
  have hmap := mapM_eq_some.mp h
  have hsub : List.range N ⊆ info.fragments.keys := by
    intro i hi
    by_contra hnot
    have hnone : none ∈ (List.range N).map fun i => info.fragments.get? i :=
      List.mem_map.mpr ⟨i, hi, OrderedMap.get?_eq_none.mpr hnot⟩
    rw [hmap] at hnone
    simp at hnone
  have hlen := (List.subperm_of_subset List.nodup_range hsub).length_le
  rwa [List.length_range, OrderedMap.length_keys] at hlen

theorem mem_assemble {existing : List JsString} {N : Nat}
    {entries : List (JsString × MessageInfo)} {p : PendingMessage} :
    p ∈ assemble existing N entries ↔ p.id ∉ existing ∧ ∃ info, (p.id, info) ∈ entries ∧
      ordered N info = some p.chunks ∧ info.sender = p.sender ∧ info.timestamp = p.timestamp := by
  simp only [assemble, List.mem_filterMap, Prod.exists]
  constructor
  · rintro ⟨messageId, info, hmem, hp⟩
    split at hp
    · cases hp
    · rename_i hnew
      split at hp
      · cases hp
      · obtain ⟨chunks, hchunks, rfl⟩ := Option.map_eq_some_iff.mp hp
        exact ⟨hnew, info, hmem, hchunks, rfl, rfl⟩
  · rintro ⟨hnew, info, hmem, hchunks, hsender, hstamp⟩
    have hsize := not_lt.mpr (le_size_of_ordered hchunks)
    refine ⟨p.id, info, hmem, ?_⟩
    rw [if_neg hnew, if_neg hsize, hchunks, hsender, hstamp, Option.map_some]

private theorem perm_objectEntries {β : Type} (m : OrderedMap JsString β) :
    (objectEntries m).Perm m.entries := by
  have hsplit := List.filter_append_perm (fun e => (arrayIndex? e.1).isSome) m.entries
  have hnot : (m.entries.filter fun e => !(arrayIndex? e.1).isSome) =
      m.entries.filter fun e => (arrayIndex? e.1).isNone := by simp
  rw [hnot] at hsplit
  exact ((List.perm_insertionSort _ _).append_right _).trans hsplit

theorem mem_objectEntries {β : Type} {m : OrderedMap JsString β} {k : JsString} {v : β} :
    (k, v) ∈ objectEntries m ↔ m.get? k = some v := by
  rw [(perm_objectEntries m).mem_iff, OrderedMap.get?_eq_some]

/-- Every pending message stems from an entry of its own. -/
private theorem map_id_assemble_sublist (existing : List JsString) (N : Nat)
    (entries : List (JsString × MessageInfo)) :
    ((assemble existing N entries).map PendingMessage.id).Sublist (entries.map Prod.fst) := by
  induction entries with
  | nil => exact List.nil_sublist _
  | cons e rest ih =>
    obtain ⟨messageId, info⟩ := e
    rw [assemble, List.filterMap_cons]
    split
    · exact ih.cons _
    · rename_i p hp
      have hid : p.id = messageId := by
        simp only at hp
        split at hp
        · cases hp
        · split at hp
          · cases hp
          · obtain ⟨chunks, -, rfl⟩ := Option.map_eq_some_iff.mp hp
            rfl
      rw [List.map_cons, List.map_cons, hid]
      exact ih.cons_cons _

/-! ## What a poll appends -/

/-- `results` of a poll of `chat` in the state `app`. -/
def pollResults (app : App) (chat : Chat) (answer : Answer) : List (List (Fragment JsString)) :=
  (app.resolveServers chat.serverIds).map fun server =>
    (answer server chat.chatId (app.lastSince chat.id)).getD []

/-- The pending messages once the servers are resolved, the key is imported and the
    fragments are grouped. -/
theorem pendingOf_of_byMessage {key : AesKey} {m : OrderedMap JsString MessageInfo}
    (hservers : app.resolveServers chat.serverIds ≠ []) (hkey : importKey chat.keyB64 = some key)
    (hm : byMessage (pollResults app chat answer) = some m) :
    pendingOf app chat answer = assemble ((app.messagesOf chat.id).map Message.id)
      (app.resolveServers chat.serverIds).length (objectEntries m) := by
  rw [pollResults] at hm
  unfold pendingOf
  rw [bind_fetch_eq_some.mpr ⟨hservers, key, hkey, rfl⟩]
  simp [PollFetch.collect, PollFetch.results, hm]

private theorem pendingOf_cases (app : App) (chat : Chat) (answer : Answer) :
    pendingOf app chat answer = [] ∨ ∃ m,
      pendingOf app chat answer = assemble ((app.messagesOf chat.id).map Message.id)
        (app.resolveServers chat.serverIds).length (objectEntries m) := by
  cases hf : (pollStart app chat).bind (PollStart.fetch app) with
  | none => exact .inl (by rw [pendingOf, hf])
  | some fetch =>
    obtain ⟨hservers, key, hkey, rfl⟩ := bind_fetch_eq_some.mp hf
    cases hm : byMessage (pollResults app chat answer) with
    | none =>
      rw [pollResults] at hm
      exact .inl (by simp [pendingOf, hf, PollFetch.collect, PollFetch.results, hm])
    | some m => exact .inr ⟨m, pendingOf_of_byMessage hservers hkey hm⟩

theorem nodup_assemble (existing : List JsString) (N : Nat)
    (m : OrderedMap JsString MessageInfo) :
    ((assemble existing N (objectEntries m)).map PendingMessage.id).Nodup :=
  (((perm_objectEntries m).map Prod.fst).nodup_iff.mpr m.keysNodup).sublist
    (map_id_assemble_sublist _ _ _)

/-- A poll appends no id twice. -/
theorem nodup_pendingOf (app : App) (chat : Chat) (answer : Answer) :
    ((pendingOf app chat answer).map PendingMessage.id).Nodup := by
  rcases pendingOf_cases app chat answer with h | ⟨m, h⟩
  · rw [h]
    exact List.nodup_nil
  · rw [h]
    exact nodup_assemble _ _ m

/-- A poll appends nothing that is displayed already. -/
theorem notMem_of_mem_pendingOf {p : PendingMessage} (h : p ∈ pendingOf app chat answer) :
    p.id ∉ (app.messagesOf chat.id).map Message.id := by
  rcases pendingOf_cases app chat answer with hnil | ⟨m, hm⟩
  · rw [hnil] at h
    cases h
  · rw [hm] at h
    exact (mem_assemble.mp h).1

private theorem map_range_getD {α β : Type} (l : List α) (d : α) (f : α → β) :
    (List.range l.length).map (fun i => f (l.getD i d)) = l.map f := by
  refine List.ext_getElem (by simp) fun i hi hi' => ?_
  simp only [List.length_map, List.length_range] at hi
  simp [List.getD_eq_getElem?_getD, hi]

private theorem find?_visited {results : List (List (Fragment JsString))} {messageId : JsString}
    {chunk : JsString} (h : slot (results.headD []) messageId = some chunk) :
    ((visited results).find? fun v => v.2.messageId = messageId).map
        (fun v => (v.2.senderHash, v.2.timestamp)) =
      ((results.headD []).find? fun f => f.messageId = messageId).map
        fun f => (f.senderHash, f.timestamp) := by
  cases results with
  | nil => simp [slot] at h
  | cons frags rest =>
    -- The fragments of the first server are visited first.
    have hvisited : visited (frags :: rest) = frags.map (fun f => (0, f)) ++
        (rest.zipIdx 1).flatMap fun (frags, serverIdx) => frags.map fun f => (serverIdx, f) := rfl
    obtain ⟨f, hf⟩ : ∃ f, frags.find? (fun f => f.messageId = messageId) = some f := by
      cases hfind : frags.find? fun f => f.messageId = messageId with
      | some f => exact ⟨f, rfl⟩
      | none =>
        rw [← List.head?_filter, List.head?_eq_none_iff] at hfind
        simp [slot, hfind] at h
    have hhead : (List.map (fun f => ((0 : Nat), f)) frags).find?
        (fun v => v.2.messageId = messageId) = some (0, f) := by
      rw [List.find?_map]
      simpa [Function.comp_def] using hf
    rw [hvisited, List.find?_append, hhead]
    simp [hf]

theorem exists_of_slot_eq_some {frags : List (Fragment JsString)} {messageId chunk : JsString}
    (h : slot frags messageId = some chunk) :
    ∃ f ∈ frags, f.messageId = messageId ∧ f.payload = chunk := by
  obtain ⟨f, hf, rfl⟩ := Option.map_eq_some_iff.mp h
  have hmem := List.mem_of_getLast? hf
  simp only [List.mem_filter, decide_eq_true_eq] at hmem
  exact ⟨f, hmem.1, hmem.2, rfl⟩

theorem slot_isSome {frags : List (Fragment JsString)} {messageId : JsString} :
    (slot frags messageId).isSome ↔ ∃ f ∈ frags, f.messageId = messageId := by
  rw [slot, Option.isSome_map, List.getLast?_isSome, ← List.length_pos_iff,
    List.length_filter_pos_iff]
  simp

/-- What the loop takes up: a message that is not displayed yet and for which every
    position has a payload, with the sender and the timestamp of the first position. -/
theorem mem_assemble_byMessage {results : List (List (Fragment JsString))}
    {m : OrderedMap JsString MessageInfo} (hm : byMessage results = some m) (hR : results ≠ [])
    {existing : List JsString} {p : PendingMessage} :
    p ∈ assemble existing results.length (objectEntries m) ↔
      p.id ∉ existing ∧ results.map (fun frags => slot frags p.id) = p.chunks.map some ∧
        ((results.headD []).find? fun f => f.messageId = p.id).map
          (fun f => (f.senderHash, f.timestamp)) = some (p.sender, p.timestamp) := by
  obtain ⟨hmeta, hslots⟩ := get?_byMessage hm p.id
  have hordered : ∀ info, m.get? p.id = some info →
      (ordered results.length info = some p.chunks ↔
        results.map (fun frags => slot frags p.id) = p.chunks.map some) := by
    intro info hinfo
    rw [ordered, mapM_eq_some, ← map_range_getD results []]
    simp only [hslots info hinfo]
  rw [mem_assemble]
  refine and_congr_right fun _ => ?_
  simp only [mem_objectEntries]
  -- The first position has a payload once all have one, so it is visited first.
  have hfirst : results.map (fun frags => slot frags p.id) = p.chunks.map some →
      ∃ chunk, slot (results.headD []) p.id = some chunk := by
    intro hmap
    cases hres : results with
    | nil => exact absurd hres hR
    | cons frags rest =>
      rw [hres] at hmap
      cases hc : p.chunks with
      | nil => simp [hc] at hmap
      | cons c cs =>
        rw [hc, List.map_cons, List.map_cons, List.cons.injEq] at hmap
        exact ⟨c, hmap.1⟩
  constructor
  · rintro ⟨info, hinfo, hchunks, hsender, hstamp⟩
    have hmap := (hordered info hinfo).mp hchunks
    obtain ⟨chunk, hchunk⟩ := hfirst hmap
    rw [hinfo, find?_visited hchunk, Option.map_some, hsender, hstamp] at hmeta
    exact ⟨hmap, hmeta.symm⟩
  · rintro ⟨hmap, hhead⟩
    obtain ⟨chunk, hchunk⟩ := hfirst hmap
    rw [find?_visited hchunk, hhead] at hmeta
    obtain ⟨info, hinfo, hpair⟩ := Option.map_eq_some_iff.mp hmeta
    exact ⟨info, hinfo, (hordered info hinfo).mpr hmap, congrArg Prod.fst hpair,
      congrArg Prod.snd hpair⟩

/-- The payload that a poll puts in the slot of a server, for a message. -/
def filledSlot (results : List (List (Fragment JsString))) (messageId : JsString) (i : Nat) :
    Option JsString :=
  (byMessage results).bind fun m =>
    (m.get? messageId).bind fun info => info.fragments.get? i

theorem filledSlot_eq {results : List (List (Fragment JsString))}
    (hnames : ∀ frags ∈ results, ∀ f ∈ frags, f.messageId ∉ inheritedNames) (messageId : JsString)
    (i : Nat) : filledSlot results messageId i = slot (results.getD i []) messageId := by
  obtain ⟨m, hm⟩ := exists_byMessage hnames
  obtain ⟨hmeta, hslots⟩ := get?_byMessage hm messageId
  rw [filledSlot, hm, Option.bind_some]
  cases hinfo : m.get? messageId with
  | some info => exact hslots info hinfo i
  | none =>
    rw [hinfo, Option.map_none, eq_comm, Option.map_eq_none_iff, List.find?_eq_none] at hmeta
    rw [Option.bind_none, eq_comm, Option.eq_none_iff_forall_ne_some]
    intro chunk hchunk
    obtain ⟨f, hf, hid, -⟩ := exists_of_slot_eq_some hchunk
    exact hmeta (i, f) (mem_visited.mpr hf) (by simpa using hid)

/-- Answers with an inherited name end the poll. -/
theorem PollFetch.names_of_collect {p : PollFetch} {results : List (List (Fragment JsString))}
    {c : PollLoop × List PendingMessage} (h : p.collect app results = some c) :
    ∀ frags ∈ results, ∀ f ∈ frags, f.messageId ∉ inheritedNames := by
  intro frags hfrags f hf hname
  obtain ⟨m, hm, -⟩ := Option.map_eq_some_iff.mp h
  unfold byMessage at hm
  rw [if_pos] at hm
  · cases hm
  · obtain ⟨i, hi⟩ := List.getElem?_of_mem hfrags
    refine List.any_eq_true.mpr ⟨(i, f), mem_visited.mpr ?_, by simpa using hname⟩
    rw [List.getD_eq_getElem?_getD, hi]
    exact hf

/-- What the loop takes up when the servers have answered: no id twice, nothing that is
    displayed, and only what every answer has a fragment of. -/
theorem PollFetch.collect_spec {p : PollFetch} {results : List (List (Fragment JsString))}
    (hlen : results.length = p.servers.length) {loop : PollLoop} {pending : List PendingMessage}
    (h : p.collect app results = some (loop, pending)) :
    loop.chat = p.chat ∧ (pending.map PendingMessage.id).Nodup ∧ ∀ q ∈ pending,
      q.id ∉ (app.messagesOf p.chat.id).map Message.id ∧
        ∀ frags ∈ results, ∃ f ∈ frags, f.messageId = q.id := by
  obtain ⟨m, hm, heq⟩ := Option.map_eq_some_iff.mp h
  cases heq
  refine ⟨rfl, nodup_assemble _ _ m, fun q hq => ?_⟩
  refine ⟨(mem_assemble.mp hq).1, fun frags hfrags => ?_⟩
  rw [← hlen, mem_assemble_byMessage hm (List.ne_nil_of_mem hfrags)] at hq
  have hmem := List.mem_map_of_mem (f := fun frags => slot frags q.id) hfrags
  rw [hq.2.1] at hmem
  obtain ⟨chunk, -, hchunk⟩ := List.mem_map.mp hmem
  exact slot_isSome.mp (by simp [← hchunk])

/-- **What a poll appends**: a message that is not displayed yet and for which every
    position has a payload, with the sender and the timestamp of the first position. -/
theorem mem_pendingOf {key : AesKey} (hkey : importKey chat.keyB64 = some key)
    (hnames : ∀ frags ∈ pollResults app chat answer, ∀ f ∈ frags, f.messageId ∉ inheritedNames)
    {p : PendingMessage} :
    p ∈ pendingOf app chat answer ↔
      p.id ∉ (app.messagesOf chat.id).map Message.id ∧ pollResults app chat answer ≠ [] ∧
        (pollResults app chat answer).map (fun frags => slot frags p.id) = p.chunks.map some ∧
        (((pollResults app chat answer).headD []).find? fun f => f.messageId = p.id).map
          (fun f => (f.senderHash, f.timestamp)) = some (p.sender, p.timestamp) := by
  have hlen : (pollResults app chat answer).length =
      (app.resolveServers chat.serverIds).length := by simp [pollResults]
  by_cases hservers : app.resolveServers chat.serverIds = []
  · -- A poll without servers returns early.
    have hpending : pendingOf app chat answer = [] := by
      unfold pendingOf pollStart
      simp [hservers]
    simp [hpending, pollResults, hservers]
  have hR : pollResults app chat answer ≠ [] := by
    simpa [pollResults] using hservers
  obtain ⟨m, hm⟩ := exists_byMessage hnames
  rw [pendingOf_of_byMessage hservers hkey hm, ← hlen, mem_assemble_byMessage hm hR]
  simp [hR]

/-- A message is pending with a key only. -/
theorem exists_key_of_mem_pendingOf {p : PendingMessage} (h : p ∈ pendingOf app chat answer) :
    ∃ key, importKey chat.keyB64 = some key := by
  cases hf : (pollStart app chat).bind (PollStart.fetch app) with
  | none =>
    rw [pendingOf, hf] at h
    cases h
  | some fetch =>
    obtain ⟨-, key, hkey, -⟩ := bind_fetch_eq_some.mp hf
    exact ⟨key, hkey⟩

/-- The ids of a polled chat. -/
theorem ids_pollChat :
    ((pollChat W app chat answer).messagesOf chat.id).map Message.id =
      (app.messagesOf chat.id).map Message.id ++
        (pendingOf app chat answer).map PendingMessage.id := by
  cases hpending : pendingOf app chat answer with
  | nil => rw [(pollChat_of_pendingOf_eq_nil hpending).1, List.map_nil, List.append_nil]
  | cons p rest =>
    obtain ⟨key, hkey⟩ := exists_key_of_mem_pendingOf (p := p) (by
      rw [hpending]
      exact List.mem_cons_self)
    rw [messagesOf_pollChat hkey, hpending, List.map_append, List.map_map]
    rfl

/-- The messages of a polled chat grow by those made of the pending ones. -/
theorem messagesOf_pollChat_append (W : WebCrypto) (app : App) (chat : Chat) (answer : Answer) :
    ∃ new, (pollChat W app chat answer).messagesOf chat.id = app.messagesOf chat.id ++ new ∧
      ∀ msg ∈ new, ∃ key, importKey chat.keyB64 = some key ∧
        ∃ p ∈ pendingOf app chat answer, msg = receivedBy W chat key p := by
  cases hpending : pendingOf app chat answer with
  | nil =>
    refine ⟨[], ?_, by simp⟩
    rw [(pollChat_of_pendingOf_eq_nil hpending).1, List.append_nil]
  | cons p rest =>
    obtain ⟨key, hkey⟩ := exists_key_of_mem_pendingOf (p := p) (by
      rw [hpending]
      exact List.mem_cons_self)
    refine ⟨(p :: rest).map (receivedBy W chat key), by rw [messagesOf_pollChat hkey, hpending], ?_⟩
    intro msg hmsg
    obtain ⟨q, hq, rfl⟩ := List.mem_map.mp hmsg
    exact ⟨key, hkey, q, hq, rfl⟩

/-- A poll keeps the ids and keys of the chats. -/
theorem shared_pollChat {c : Chat} (h : c ∈ (pollChat W app chat answer).state.chats) :
    ∃ c' ∈ app.state.chats, c'.shared = c.shared := by
  rcases pollChat_cases W app chat answer with ⟨-, hsame⟩ | ⟨-, hsame⟩
  · rw [hsame.chats] at h
    obtain ⟨c', hc', rfl⟩ := List.mem_map.mp h
    exact ⟨c', hc', (App.shared_withLastSince _ _ c').symm⟩
  · exact ⟨c, hsame.chats ▸ h, rfl⟩

/-- No id is displayed twice by a poll. -/
theorem nodup_ids_pollChat (h : ((app.messagesOf chat.id).map Message.id).Nodup) :
    (((pollChat W app chat answer).messagesOf chat.id).map Message.id).Nodup := by
  rw [ids_pollChat, List.nodup_append]
  refine ⟨h, nodup_pendingOf app chat answer, ?_⟩
  rintro id hid _ hpending rfl
  obtain ⟨p, hp, rfl⟩ := List.mem_map.mp hpending
  exact notMem_of_mem_pendingOf hp hid

section Appended

variable (hnames : ∀ frags ∈ pollResults app chat answer, ∀ f ∈ frags,
  f.messageId ∉ inheritedNames)

include hnames

/-- The ids a poll appends: not displayed yet and answered by every server. -/
theorem mem_ids_pendingOf {key : AesKey} (hkey : importKey chat.keyB64 = some key)
    {id : JsString} :
    id ∈ (pendingOf app chat answer).map PendingMessage.id ↔
      id ∉ (app.messagesOf chat.id).map Message.id ∧ pollResults app chat answer ≠ [] ∧
        ∀ frags ∈ pollResults app chat answer, ∃ f ∈ frags, f.messageId = id := by
  constructor
  · intro h
    obtain ⟨p, hp, rfl⟩ := List.mem_map.mp h
    obtain ⟨hnew, hne, hslots, -⟩ := (mem_pendingOf hkey hnames).mp hp
    refine ⟨hnew, hne, fun frags hfrags => slot_isSome.mp ?_⟩
    have hmem := List.mem_map_of_mem (f := fun frags => slot frags p.id) hfrags
    rw [hslots] at hmem
    obtain ⟨chunk, -, hchunk⟩ := List.mem_map.mp hmem
    simp [← hchunk]
  · -- The message is made of the slots, and of the sender and timestamp of the first one.
    rintro ⟨hnew, hne, hall⟩
    have hchunks : (pollResults app chat answer).map (fun frags => slot frags id) =
        ((pollResults app chat answer).map fun frags => (slot frags id).getD []).map some := by
      rw [List.map_map]
      refine List.map_congr_left fun frags hfrags => ?_
      obtain ⟨chunk, hchunk⟩ := Option.isSome_iff_exists.mp (slot_isSome.mpr (hall frags hfrags))
      simp [hchunk]
    obtain ⟨first, hfirst⟩ : ∃ first, ((pollResults app chat answer).headD []).find?
        (fun f => f.messageId = id) = some first := by
      obtain ⟨frags, rest, hres⟩ := List.exists_cons_of_ne_nil hne
      obtain ⟨f, hf, hid⟩ := hall frags (by rw [hres]; exact List.mem_cons_self)
      rw [hres, List.headD_cons]
      exact Option.isSome_iff_exists.mp (List.find?_isSome.mpr ⟨f, hf, by simpa using hid⟩)
    refine List.mem_map.mpr ⟨⟨id, first.senderHash, first.timestamp,
      (pollResults app chat answer).map fun frags => (slot frags id).getD []⟩, ?_, rfl⟩
    exact (mem_pendingOf hkey hnames).mpr ⟨hnew, hne, hchunks, by rw [hfirst]; rfl⟩

/-- The chunk of position `i` is the payload of a fragment that server `i` answered. -/
theorem chunk_of_mem_pendingOf {p : PendingMessage} (hp : p ∈ pendingOf app chat answer) :
    p.chunks.length = (pollResults app chat answer).length ∧
      ∀ (i : Nat) (frags : List (Fragment JsString)),
        (pollResults app chat answer)[i]? = some frags →
          ∃ f ∈ frags, f.messageId = p.id ∧ p.chunks[i]? = some f.payload := by
  obtain ⟨key, hkey⟩ := exists_key_of_mem_pendingOf hp
  obtain ⟨-, -, hslots, -⟩ := (mem_pendingOf hkey hnames).mp hp
  refine ⟨by simpa using (congrArg List.length hslots).symm, fun i frags hi => ?_⟩
  have hget := congrArg (fun l => l[i]?) hslots
  simp only [List.getElem?_map, hi, Option.map_some] at hget
  obtain ⟨chunk, hchunk, hslot⟩ := Option.map_eq_some_iff.mp hget.symm
  obtain ⟨f, hf, hid, rfl⟩ := exists_of_slot_eq_some hslot.symm
  exact ⟨f, hf, hid, hchunk⟩

/-- Sender and timestamp are those of a fragment that the first server answered. -/
theorem head_of_mem_pendingOf {p : PendingMessage} (hp : p ∈ pendingOf app chat answer) :
    ∃ frags f, (pollResults app chat answer).head? = some frags ∧ f ∈ frags ∧
      f.messageId = p.id ∧ p.sender = f.senderHash ∧ p.timestamp = f.timestamp := by
  obtain ⟨key, hkey⟩ := exists_key_of_mem_pendingOf hp
  obtain ⟨-, hne, -, hhead⟩ := (mem_pendingOf hkey hnames).mp hp
  obtain ⟨frags, rest, hres⟩ := List.exists_cons_of_ne_nil hne
  rw [hres, List.headD_cons] at hhead
  obtain ⟨f, hf, hpair⟩ := Option.map_eq_some_iff.mp hhead
  refine ⟨frags, f, by rw [hres]; rfl, List.mem_of_find?_eq_some hf, ?_,
    (congrArg Prod.fst hpair).symm, (congrArg Prod.snd hpair).symm⟩
  simpa using List.find?_some hf

end Appended

end Frag
