import Frag.Client.State

/-!
# Sending

`sendMessage` of `app.js` in its two synchronous parts: `sendMessage` runs up to
`await Promise.allSettled(posts)` and leaves an `Outgoing` message with one POST
per server; `Outgoing.settle` is what runs once every POST has settled.

The IV, the message id and the clock reading are drawn by the execution.
-/

namespace Frag

/-- What an execution of `sendMessage` draws. -/
structure SendRandom where
  iv : Iv
  messageId : Uuid
  now : Int

/-- An execution of `sendMessage` that awaits `Promise.allSettled(posts)`. -/
structure Outgoing where
  chat : Chat
  text : JsString
  messageId : Uuid
  now : Int
  posts : List (Server × FragmentPost JsString)

/-- `(typeof ttl === 'number' && ttl >= 0) ? Math.floor(ttl) : 0`, where `none` is
    anything but a finite number. -/
def resolveTtl : Option Rat → Int
  | none => 0
  | some ttl => if 0 ≤ ttl then ttl.floor else 0

/-- The fragment object for the `i`-th server. -/
def fragmentFor (chat : Chat) (senderHash : JsString) (messageId : Uuid) (ttl : Int)
    (chunks : List JsString) (i : Nat) : FragmentPost JsString where
  id := fragmentId messageId.val i
  messageId := messageId.val
  chatId := chat.chatId
  senderHash := senderHash
  payload := chunks.getD i []
  ttl := ttl

/-- `sendMessage(text, ttl)` up to the POSTs. -/
def sendMessage (W : WebCrypto) (app : App) (text : JsString) (ttl : Option Rat)
    (rand : SendRandom) : Except Failure Outgoing :=
  match app.getActiveChat with
  | none => .error (.of "No active chat")
  | some chat =>
    match app.state.identity with
    | none => .error (.of "Identity not initialised")
    | some senderHash =>
      let servers := app.resolveServers chat.serverIds
      if servers = [] then .error (.of "No servers available for this chat")
      else
        match importKey chat.keyB64 with
        | none => .error .domException
        | some key =>
          let encryptedB64 := encrypt W key rand.iv text
          let chunks := splitPayload encryptedB64 servers.length
          .ok {
            chat, text
            messageId := rand.messageId
            now := rand.now
            posts := servers.zipIdx.map fun (server, i) =>
              (server, fragmentFor chat senderHash rand.messageId (resolveTtl ttl) chunks i) }

/-- What `sendMessage` returns when it does not throw. -/
inductive SendResult where
  | ok
  | warning (text : JsString)
  deriving DecidableEq, Repr

/-- The message object that is added locally. -/
def Outgoing.message (app : App) (o : Outgoing) (accepted : List Bool) : Message where
  id := o.messageId.val
  chatId := o.chat.chatId
  senderHash := app.state.identity.getD []
  text := o.text
  timestamp := o.now
  status := if accepted.countP (· = false) ≠ 0 then .inPart else .sent

/-- The rest of `sendMessage`; `accepted` tells which POSTs were fulfilled. -/
def Outgoing.settle (app : App) (o : Outgoing) (accepted : List Bool) :
    App × Except Failure SendResult :=
  let failed := accepted.countP (· = false)
  let msg := o.message app accepted
  let app := (app.pushMessage o.chat.id msg).emit (.message o.chat.id msg)
  if failed = o.posts.length then
    (app, .error (.of "All servers failed – message not sent"))
  else if 0 < failed then
    (app, .ok (.warning (decimal failed ++ js "/" ++ decimal o.posts.length ++
      js " servers could not be reached.")))
  else (app, .ok .ok)

/-- Whatever the POSTs came to, the message is added to its chat. -/
theorem Outgoing.settle_fst (app : App) (o : Outgoing) (accepted : List Bool) :
    (o.settle app accepted).1 = (app.pushMessage o.chat.id (o.message app accepted)).emit
      (.message o.chat.id (o.message app accepted)) := by
  unfold Outgoing.settle
  simp only
  split
  · rfl
  · split <;> rfl

/-! ## What a message consists of -/

variable {W : WebCrypto} {app : App} {text : JsString} {ttl : Option Rat} {rand : SendRandom}
  {o : Outgoing}

/-- Everything a successful `sendMessage` fixes: the chat, the key and the identity
    it used and the fragment for each server. -/
theorem sendMessage_eq_ok (h : sendMessage W app text ttl rand = .ok o) :
    ∃ chat senderHash key, app.getActiveChat = some chat ∧ app.state.identity = some senderHash ∧
      importKey chat.keyB64 = some key ∧ app.resolveServers chat.serverIds ≠ [] ∧
      o = {
        chat, text
        messageId := rand.messageId
        now := rand.now
        posts := (app.resolveServers chat.serverIds).zipIdx.map fun (server, i) =>
          (server, fragmentFor chat senderHash rand.messageId (resolveTtl ttl)
            (splitPayload (encrypt W key rand.iv text)
              (app.resolveServers chat.serverIds).length) i) } := by
  -- Each of the four checks throws, and what passes all of them is sent.
  unfold sendMessage at h
  split at h
  · cases h
  · rename_i chat hchat
    split at h
    · cases h
    · rename_i senderHash hid
      simp only at h
      split at h
      · cases h
      · rename_i hservers
        split at h
        · cases h
        · rename_i key hkey
          cases h
          exact ⟨chat, senderHash, key, hchat, hid, hkey, hservers, rfl⟩

/-- The message is the one of the active chat, with the given text and the drawn id. -/
theorem fields_of_sendMessage (h : sendMessage W app text ttl rand = .ok o) :
    app.getActiveChat = some o.chat ∧ o.text = text ∧ o.messageId = rand.messageId := by
  obtain ⟨chat, senderHash, key, hchat, -, -, -, rfl⟩ := sendMessage_eq_ok h
  exact ⟨hchat, rfl, rfl⟩

/-- The servers a message is posted to, in position order. -/
def Outgoing.servers (o : Outgoing) : List Server := o.posts.map Prod.fst

/-- The payloads of a message, in position order. -/
def Outgoing.payloads (o : Outgoing) : List JsString := o.posts.map fun p => p.2.payload

@[simp] theorem Outgoing.length_servers (o : Outgoing) : o.servers.length = o.posts.length := by
  simp [Outgoing.servers]

@[simp] theorem Outgoing.length_payloads (o : Outgoing) : o.payloads.length = o.posts.length := by
  simp [Outgoing.payloads]

private theorem map_fst_zipIdx_map {α β : Type} (l : List α) (f : Nat → β) (k : Nat) :
    ((l.zipIdx k).map fun p => (p.1, f p.2)).map Prod.fst = l := by
  induction l generalizing k with
  | nil => rfl
  | cons a l ih => simp [List.zipIdx_cons, ih]

private theorem map_getD_zipIdx {α : Type} (l : List α) (cs : List JsString)
    (h : cs.length = l.length) : (l.zipIdx.map fun p => cs.getD p.2 []) = cs := by
  refine List.ext_getElem (by simp [h]) fun i hi hi' => ?_
  simp [List.getD_eq_getElem?_getD, hi']

/-- A message goes to every resolved server of the active chat. -/
theorem servers_of_sendMessage (h : sendMessage W app text ttl rand = .ok o) :
    o.servers = app.resolveServers o.chat.serverIds := by
  obtain ⟨chat, senderHash, key, -, -, -, -, rfl⟩ := sendMessage_eq_ok h
  exact map_fst_zipIdx_map _ _ 0

/-- The payloads are the chunks of the encrypted text. -/
theorem payloads_of_sendMessage (h : sendMessage W app text ttl rand = .ok o) :
    ∃ key, importKey o.chat.keyB64 = some key ∧
      o.payloads = splitPayload (encrypt W key rand.iv text) o.posts.length := by
  obtain ⟨chat, senderHash, key, -, -, hkey, hne, rfl⟩ := sendMessage_eq_ok h
  refine ⟨key, hkey, ?_⟩
  have hlen : 0 < (app.resolveServers chat.serverIds).length := List.length_pos_iff.mpr hne
  simp only [Outgoing.payloads, List.map_map, List.length_map, List.length_zipIdx]
  exact map_getD_zipIdx _ _ (length_splitPayload _ hlen)

/-- The fragment of position `i`. -/
theorem post_of_sendMessage (h : sendMessage W app text ttl rand = .ok o) {i : Nat}
    {p : Server × FragmentPost JsString} (hp : o.posts[i]? = some p) :
    app.state.identity = some p.2.senderHash ∧ o.servers[i]? = some p.1 ∧
      o.payloads[i]? = some p.2.payload ∧
      p.2 = { id := fragmentId o.messageId.val i, messageId := o.messageId.val,
              chatId := o.chat.chatId, senderHash := p.2.senderHash, payload := p.2.payload,
              ttl := resolveTtl ttl } := by
  refine ⟨?_, by simp [Outgoing.servers, hp], by simp [Outgoing.payloads, hp], ?_⟩
  all_goals
    obtain ⟨chat, senderHash, key, -, hid, -, -, rfl⟩ := sendMessage_eq_ok h
    simp only [List.getElem?_map, List.getElem?_zipIdx, Option.map_map, Option.map_eq_some_iff,
      Function.comp_apply, Nat.zero_add] at hp
    obtain ⟨s, -, rfl⟩ := hp
  · exact hid
  · rfl

end Frag
