import Frag.Client.State
import Mathlib.Data.List.Sort

/-!
# Polling

`pollChat` of `app.js`, cut at its await points:

1. `pollStart` resolves the servers and awaits `Crypto.importKey`;
2. `PollStart.fetch` reads the cursor and awaits the answers of all servers;
3. `PollFetch.collect` groups the answered fragments, takes the snapshots the
   loop works with, and awaits the first decryption;
4. `PollLoop.deliver` runs from one decryption to the next;
5. `PollLoop.finish` runs after the last one.

`pollChat` is an uninterrupted execution. The suspended states are those of the
interleaved executions as well, so there is one model of the function.

A chat object is referred to by its internal id, which `generateId` makes unique.
-/

namespace Frag

/-! ## Grouping fragments by message -/

/-- A value of `byMessage`. -/
structure MessageInfo where
  sender : JsString
  timestamp : Int
  fragments : OrderedMap Nat JsString

/-- The properties `byMessage = {}` inherits from `Object.prototype`. -/
def inheritedNames : List JsString :=
  ["constructor", "__defineGetter__", "__defineSetter__", "hasOwnProperty", "__lookupGetter__",
    "__lookupSetter__", "isPrototypeOf", "propertyIsEnumerable", "toString", "valueOf",
    "__proto__", "toLocaleString"].map js

/-- The fragments `results.forEach` visits, with the index of the answering server. -/
def visited (results : List (List (Fragment JsString))) : List (Nat × Fragment JsString) :=
  results.zipIdx.flatMap fun (frags, serverIdx) => frags.map fun frag => (serverIdx, frag)

/-- `byMessage[frag.message_id] = { sender, timestamp, fragments: new Map() }` -/
def newInfo (v : Nat × Fragment JsString) : MessageInfo where
  sender := v.2.senderHash
  timestamp := v.2.timestamp
  fragments := .empty

/-- `byMessage[frag.message_id].fragments.set(serverIdx, frag.payload)` -/
def addPayload (info : MessageInfo) (v : Nat × Fragment JsString) : MessageInfo :=
  { info with fragments := info.fragments.set v.1 v.2.payload }

/-- `byMessage` after `results.forEach`. An inherited name is found by
    `byMessage[frag.message_id]` but has no `fragments`: a `TypeError`. -/
def byMessage (results : List (List (Fragment JsString))) :
    Option (OrderedMap JsString MessageInfo) :=
  if (visited results).any fun v => v.2.messageId ∈ inheritedNames then none
  else some (.collect (fun v => v.2.messageId) newInfo addPayload (visited results))

/-- The value of an array index: the canonical decimal spelling of a number below `2 ^ 32 - 1`. -/
def arrayIndex? (s : JsString) : Option Nat :=
  let n := s.foldl (fun n u => 10 * n + (u.toNat - 0x30)) 0
  if s = decimal n ∧ n < 0xFFFFFFFF then some n else none

/-- `Object.entries`: array indices in ascending order, then the other keys in insertion order. -/
def objectEntries {β : Type} (m : OrderedMap JsString β) : List (JsString × β) :=
  (m.entries.filter fun e => (arrayIndex? e.1).isSome).insertionSort
      (fun a b => (arrayIndex? a.1).getD 0 ≤ (arrayIndex? b.1).getD 0) ++
    m.entries.filter fun e => (arrayIndex? e.1).isNone

/-! ## Assembling messages -/

/-- An entry that the loop decrypts: complete and not displayed yet. -/
structure PendingMessage where
  id : JsString
  sender : JsString
  timestamp : Int
  chunks : List JsString
  deriving DecidableEq, Repr

/-- `ordered`, the payloads in server-list order, unless one is missing. -/
def ordered (N : Nat) (info : MessageInfo) : Option (List JsString) :=
  (List.range N).mapM fun i => info.fragments.get? i

/-- The entries that pass the three `continue`s of the loop. -/
def assemble (existing : List JsString) (N : Nat) (entries : List (JsString × MessageInfo)) :
    List PendingMessage :=
  entries.filterMap fun (messageId, info) =>
    if messageId ∈ existing then none            -- already displayed
    else if info.fragments.size < N then none    -- incomplete – missing fragments
    else (ordered N info).map fun chunks =>
      { id := messageId, sender := info.sender, timestamp := info.timestamp, chunks }

/-! ## Suspended executions -/

/-- Awaiting `Crypto.importKey(chat.keyB64)`. -/
structure PollStart where
  chat : Chat
  servers : List Server

/-- Awaiting `Promise.all(fetches)`. -/
structure PollFetch where
  chat : Chat
  servers : List Server
  key : AesKey
  since : Int

/-- The locals of the loop; the messages still to decrypt are kept beside it. -/
structure PollLoop where
  chat : Chat
  key : AesKey
  isActive : Bool
  newCount : Nat
  maxTimestamp : Int

/-- `pollChat(chat)` up to its first await. -/
def pollStart (app : App) (chat : Chat) : Option PollStart :=
  let servers := app.resolveServers chat.serverIds
  if servers = [] then none else some { chat, servers }

/-- The key is imported and one GET is sent to each server. -/
def PollStart.fetch (app : App) (p : PollStart) : Option PollFetch :=
  (importKey p.chat.keyB64).map fun key =>
    { chat := p.chat, servers := p.servers, key, since := app.lastSince p.chat.id }

/-- All GETs are answered; `none` is the `TypeError` of `byMessage`. -/
def PollFetch.collect (app : App) (p : PollFetch) (results : List (List (Fragment JsString))) :
    Option (PollLoop × List PendingMessage) :=
  (byMessage results).map fun m =>
    ({ chat := p.chat
       key := p.key
       isActive := app.state.activeChatId = some p.chat.id
       newCount := 0
       maxTimestamp := app.lastSince p.chat.id },
     assemble ((app.messagesOf p.chat.id).map Message.id) p.servers.length (objectEntries m))

/-- The message object of a pending message. -/
def PollLoop.received (W : WebCrypto) (loop : PollLoop) (p : PendingMessage) : Message where
  id := p.id
  chatId := loop.chat.chatId
  senderHash := p.sender
  text := (decrypt W loop.key (joinPayload p.chunks)).getD (js "[decryption failed]")
  timestamp := p.timestamp
  status := .received

/-- The decryption of a pending message has settled. -/
def PollLoop.deliver (W : WebCrypto) (app : App) (loop : PollLoop) (p : PendingMessage) :
    App × PollLoop :=
  let msg := loop.received W p
  let app := app.pushMessage loop.chat.id msg
  let app := if loop.isActive then app.emit (.message loop.chat.id msg) else app
  (app, { loop with
    newCount := if loop.isActive then loop.newCount else loop.newCount + 1
    maxTimestamp := if loop.maxTimestamp < p.timestamp then p.timestamp else loop.maxTimestamp })

/-- The rest of `pollChat` after the loop. -/
def PollLoop.finish (app : App) (loop : PollLoop) : App :=
  let app :=
    if app.lastSince loop.chat.id < loop.maxTimestamp then
      (app.setLastSince loop.chat.id loop.maxTimestamp).saveChats
    else app
  if loop.isActive = false ∧ 0 < loop.newCount then
    app.setUnread loop.chat.id (app.unreadOf loop.chat.id + loop.newCount)
  else app

/-! ## Uninterrupted execution -/

/-- The loop and what follows it, without interruption. -/
def PollLoop.run (W : WebCrypto) (app : App) (loop : PollLoop) : List PendingMessage → App
  | [] => loop.finish app
  | p :: rest => (loop.deliver W app p).2.run W (loop.deliver W app p).1 rest

/-- How a server answers `getFragments`; `none` is a rejected fetch. -/
abbrev Answer := Server → JsString → Int → Option (List (Fragment JsString))

/-- `results`, an unreachable server counting as one without fragments. -/
def PollFetch.results (p : PollFetch) (answer : Answer) : List (List (Fragment JsString)) :=
  p.servers.map fun server => (answer server p.chat.chatId p.since).getD []

/-- `pollChat(chat)`, answered by `answer` and not interrupted. -/
def pollChat (W : WebCrypto) (app : App) (chat : Chat) (answer : Answer) : App :=
  match (pollStart app chat).bind (PollStart.fetch app) with
  | none => app
  | some fetch =>
    match fetch.collect app (fetch.results answer) with
    | none => app
    | some (loop, pending) => loop.run W app pending

end Frag
