import Frag.Guarantees.Delivery
import Frag.Guarantees.Exchanges
import Frag.Library.Simulation
import Frag.System.Reader

/-!
# The Wire Carries the System

Whatever the connections of a run do, the clients and the tables end up as in a run of `World`
in which a POST is an event if the backend lets it through, and a poll is answered by the
servers whose answers come back. Bytes of others change nothing.

So what holds in every run of `World` holds on the wire.

## Main results

- `Wired.step`: what is needed of the state is invariant;
- `wireStep_eq`: every event on the wire is an event of `World`, or nothing happens;
- `wire_refines_world`: every run on the wire is a run of `World`.
-/

namespace Frag

open Http (headerSection)
open Runs

variable {B ι : Type} [DecidableEq B] [DecidableEq ι]

/-! ## What a call does to the cursors -/

namespace App

/-- The chat objects that are referred to. -/
def chatObjects (app : App) : List Chat := app.state.chats ++ app.state.removedChats

/-- A call does not move a cursor: a chat object is an old one, a stored one or a new one. -/
theorem chatObjects_apply {app : App} {a : Action} {c : Chat} (hc : c ∈ (a.apply app).chatObjects) :
    c ∈ app.chatObjects ∨ c ∈ app.storage.chats.getD [] ∨ c.lastSince = 0 := by
  -- A chat that is created is new, and the others stay.
  have hcreate : ∀ {app₁ app₂ : App} {name : JsString} {serverIds : List JsString}
      {chatId keyB64 : JsString} {rand : ChatRandom} {c' : Chat},
      app₁.createChat name serverIds chatId keyB64 rand = .ok (c', app₂) → c ∈ app₂.chatObjects →
        c ∈ app₁.chatObjects ∨ c.lastSince = 0 := by
    intro app₁ app₂ name serverIds chatId keyB64 rand c' h hc
    obtain ⟨-, hnew, rfl⟩ := createChat_eq_ok h
    have hc : c ∈ (app₁.state.chats ++ [c']) ++ app₁.state.removedChats := hc
    simp only [chatObjects, List.mem_append, List.mem_singleton] at hc ⊢
    rcases hc with (hc | rfl) | hc
    · exact .inl (.inl hc)
    · rw [hnew]
      exact .inr rfl
    · exact .inl (.inr hc)
  cases a with
  | addServer url token label id =>
    simp only [Action.apply] at hc
    split at hc
    · rename_i h
      rw [addServer_eq_ok h] at hc
      exact .inl hc
    · exact .inl hc
  | removeServer id => exact .inl hc
  | createChat name serverIds chatId keyB64 rand =>
    simp only [Action.apply] at hc
    split at hc
    · rename_i h
      exact (hcreate h hc).imp_right .inr
    · exact .inl hc
  | importChat data fresh rand =>
    obtain ⟨servers', emitted, stored, heq⟩ := app.importServers_eq fresh data.servers
    have himport : (app.importServers fresh data.servers).1.chatObjects = app.chatObjects := by
      rw [heq]
      rfl
    rw [Action.apply] at hc
    rcases app.importChat_cases data fresh rand with ⟨e, h | h⟩ | ⟨serverIds, c', app', h, -, heq'⟩
    · rw [h] at hc
      exact .inl hc
    · rw [h] at hc
      exact .inl (himport ▸ hc)
    · rw [heq'] at hc
      exact (himport ▸ hcreate h hc).imp_right .inr
  | removeChat id =>
    have hc : c ∈ (app.state.chats.filter fun c => c.id ≠ id) ++
        (app.state.removedChats ++ app.state.chats.filter fun c => c.id = id) := hc
    simp only [List.mem_append, List.mem_filter] at hc
    refine .inl (List.mem_append.mpr ?_)
    rcases hc with hc | hc | hc
    · exact .inl hc.1
    · exact .inr hc
    · exact .inl hc.1
  | setActiveChat id =>
    obtain ⟨_, _, _, heq, -⟩ := app.setActiveChat_eq id
    rw [Action.apply, heq] at hc
    exact .inl hc
  | reload identity =>
    have hc : c ∈ app.storage.chats.getD [] ++ [] := hc
    rw [List.append_nil] at hc
    exact .inr (.inl hc)

end App

namespace World

/-! ## The invariant -/

/-- What an event on the wire needs of the state: an honest world whose numbers are safe. -/
structure Wired (E : Env B) (w : World B ι) : Prop where
  honest : w.Honest E
  saved : w.Saved
  ttls : ∀ s ∈ w.sent, ∀ p ∈ s.posts, SafeNat p.2.ttl
  clocks : ∀ b, ∀ r ∈ (w.stores b).rows, SafeNat r.timestamp
  cursors : ∀ i, ∀ c ∈ (w.apps i).chatObjects, SafeNat c.lastSince

variable {E : Env B} {w : World B ι} {e : Event B ι}

omit [DecidableEq B] [DecidableEq ι] in
/-- The numbers of a table are safe. -/
theorem Wired.safe (h : w.Wired E) (b : B) : (w.stores b).Safe := by
  intro r hr
  obtain ⟨s, j, p, horigin⟩ := h.honest.rows b r hr
  refine ⟨h.clocks b r hr, ?_⟩
  rw [horigin.row]
  exact h.ttls s horigin.sent p (List.mem_of_getElem? horigin.post)

omit [DecidableEq B] [DecidableEq ι] in
/-- A poll leaves safe cursors behind. -/
theorem Wired.chatObjects_pollChat (h : w.Wired E) (i : ι) (chat : Chat) (up : Server → Bool) :
    ∀ c ∈ (pollChat E.crypto (w.apps i) chat (w.answer E up)).chatObjects, SafeNat c.lastSince := by
  have hzero : SafeNat 0 := by decide
  have hsince : SafeNat ((w.apps i).lastSince chat.id) := by
    rw [App.lastSince]
    cases hfind : (w.apps i).chat? chat.id with
    | none => exact hzero
    | some c => exact h.cursors i c (List.mem_of_find?_eq_some hfind)
  have hnewest : SafeNat (newest ((w.apps i).lastSince chat.id)
      (pendingOf (w.apps i) chat (w.answer E up))) := by
    rcases newest_cases ((w.apps i).lastSince chat.id) (pendingOf (w.apps i) chat (w.answer E up)) with
      heq | ⟨p, hp, heq⟩
    · rw [heq]
      exact hsince
    · -- The timestamp is that of a row.
      obtain ⟨frags, f, hhead, hf, -, -, hstamp⟩ := head_of_mem_pendingOf h.honest.names hp
      obtain ⟨b, r, hr, rfl⟩ := exists_row_of_mem_pollResults (List.mem_of_mem_head? hhead) hf
      rw [heq, hstamp]
      exact h.clocks b r hr
  intro c hc
  rcases pollChat_cases E.crypto (w.apps i) chat (w.answer E up) with ⟨-, hsame⟩ | ⟨-, hsame⟩
  · rw [App.chatObjects, hsame.chats, hsame.removedChats] at hc
    have hc : c ∈ (w.apps i).state.chats.map (App.withLastSince chat.id _) ++
        (w.apps i).state.removedChats.map (App.withLastSince chat.id _) := hc
    rw [← List.map_append] at hc
    obtain ⟨c', hc', rfl⟩ := List.mem_map.mp hc
    unfold App.withLastSince
    split
    · exact hnewest
    · exact h.cursors i c' hc'
  · rw [App.chatObjects, hsame.chats, hsame.removedChats] at hc
    exact h.cursors i c hc

/-- **The invariant is kept.** -/
theorem Wired.step (h : w.Wired E) (hclean : w.CleanSend e) (hsafe : SafeStep e) : (w.step E e).Wired E where
  honest := h.honest.step hclean
  saved := h.saved.step
  ttls := by
    intro s hs p hp
    rcases sent_step E w e with heq | ⟨i, text, ttl, rand, o, rfl, ho, heq⟩
    · exact h.ttls s (heq ▸ hs) p hp
    · rw [heq, List.mem_append, List.mem_singleton] at hs
      rcases hs with hs | rfl
      · exact h.ttls s hs p hp
      · obtain ⟨j, hj⟩ := List.mem_iff_getElem?.mp hp
        obtain ⟨-, -, -, hpost⟩ := post_of_sendMessage ho hj
        rw [hpost]
        exact hsafe
  clocks := by
    intro b r hr
    rcases mem_rows_step hr with hold | ⟨s, j, p, now, ⟨⟨k, rfl, -⟩, -⟩, -, -, hrow, -⟩
    · exact h.clocks b r hold
    · rw [hrow]
      exact hsafe
  cursors := by
    intro i c hc
    rcases app_step E w e i with heq | ⟨a, -, heq⟩ | ⟨s, -, accepted, -, heq⟩ | ⟨id, up, chat, -, -, heq⟩
    · exact h.cursors i c (heq ▸ hc)
    · rw [heq] at hc
      rcases App.chatObjects_apply hc with hc | hc | hc
      · exact h.cursors i c hc
      -- A reload restores saved chats, and a new chat starts at 0.
      · rw [(h.saved i).chats] at hc
        exact h.cursors i c (List.mem_append_left _ hc)
      · rw [hc]
        decide
    · rw [heq, Outgoing.settle_fst] at hc
      exact h.cursors i c hc
    · rw [heq] at hc
      exact h.chatObjects_pollChat i chat up c hc

/-! ## Simulation -/

variable {D : Deployment B}

omit [DecidableEq B] [DecidableEq ι] in
/-- **The answers of a poll**: the client parses what the servers that answer select. -/
theorem pollResults_wireAnswer (h : w.Wired D.env) {i : ι} {id : JsString} {chat : Chat}
    (hchat : w.chat? i id = some chat) {x : Server → Option Exchange} (hproper : w.Proper D (.poll i id x)) :
    pollResults (w.apps i) chat (w.wireAnswer D x) =
      pollResults (w.apps i) chat (w.answer D.env fun server =>
        (x server).any fun y => y.answers (D.context (D.env.backend server)) server.token) := by
  have hid : chat.id = id := by simpa using List.find?_some hchat
  refine List.map_congr_left fun server hserver => ?_
  congr 1
  cases hx : x server with
  | none => simp [wireAnswer, answer, hx]
  | some y =>
    obtain ⟨bytes, hget, hcarries⟩ := hproper chat hchat server hserver y hx
    obtain ⟨hformed, -⟩ := hcarries.queried hget
    -- The cursor is a natural number that `std::stoll` reads.
    have hsince : SafeNat ((w.apps i).lastSince id) := by
      rw [App.lastSince]
      cases hfind : (w.apps i).chat? id with
      | none => exact (by decide : SafeNat 0)
      | some c => exact h.cursors i c (List.mem_of_find?_eq_some hfind)
    have hcast : (((w.apps i).lastSince id).toNat : Int) = (w.apps i).lastSince id :=
      Int.toNat_of_nonneg hsince.1
    have hbound : ((w.apps i).lastSince id).toNat < 2 ^ 63 := by
      have hhigh := hsince.2
      omega
    have hanswer := hcarries.answer_get (D.context (D.env.backend server)) hget hbound
      (D.isValue (D.env.backend server)) (h.safe (D.env.backend server))
    rw [hcast] at hanswer
    simp only [wireAnswer, answer, hx, Option.bind_some, Option.any_some, hformed, and_true, hid]
    exact hanswer

/-- A POST that is handled leaves what is on its way alone. -/
theorem request_wireStep_post (w : World B ι) (k j : Nat) (x : Exchange) :
    (w.wireStep D (.post k j x)).request = w.request := by
  rw [wireStep]
  split <;> rfl

/-- A connection of somebody without a token changes nothing. -/
theorem wireStep_stray (w : World B ι) {b : B} {segs : List Segment} (allowed : Bool) (now : Int)
    (hauth : isAuthorized (readAndParse segs) (D.context b).auth = false) :
    w.wireStep D (.stray b allowed now segs) = w := by
  have hsame : ((D.server b).handleConnection allowed now (w.stores b) segs).2 = w.stores b := by
    cases allowed with
    | false => rfl
    | true =>
      refine AppContext.respond_snd_eq_iff.mpr ⟨fun h => ?_, fun h => ?_⟩
      · exact Bool.false_ne_true (hauth.symm.trans h.authorized)
      · exact Bool.false_ne_true (hauth.symm.trans h.authorized)
  rw [wireStep, hsame, Function.update_eq_self]

/-- A POST is handled as in `World`, or changes nothing. -/
theorem wireStep_post (h : w.Wired D.env) {k j : Nat} {x : Exchange} (hproper : w.Proper D (.post k j x)) :
    w.wireStep D (.post k j x) = (w.abstract D (.post k j x)).elim w (w.step D.env) := by
  cases hrequest : w.request k j with
  | none => simp [wireStep, abstract, hrequest]
  | some p =>
    obtain ⟨s, server, fragment⟩ := p
    obtain ⟨hs, hp⟩ := request_eq_some.mp hrequest
    have hs := List.mem_of_getElem? hs
    have hp := List.mem_of_getElem? hp
    have hcarries := hproper.2 s server fragment hrequest
    have hread := h.honest.readFragment_post hs hp (h.ttls s hs _ hp)
    obtain ⟨hstatus, hdb⟩ := hcarries.respond_post (D.context (D.env.backend server)) hread
      (D.corsOrigin (D.env.backend server)) (w.stores (D.env.backend server))
    -- The client sees the status of the response.
    have hresponse := read_handleConnection (D.context (D.env.backend server))
      (D.isValue (D.env.backend server)) x.allowed x.now (w.stores (D.env.backend server)) x.segs []
    have hapi := (D.context (D.env.backend server)).api_replyTo (D.corsOrigin (D.env.backend server))
      x.allowed x.now (w.stores (D.env.backend server)) x.segs
    rw [List.append_nil] at hresponse
    have hfulfilled : ((Http.Response.read ((D.server (D.env.backend server)).handleConnection x.allowed x.now
        (w.stores (D.env.backend server)) x.segs).1).any fun r => 200 ≤ r.status && r.status ≤ 299) = true ↔
          x.admits (D.context (D.env.backend server)) server.token fragment = true ∧
            (makePostFragmentHandler (w.stores (D.env.backend server)) (fragment.map toWire) x.now).1.ok = true := by
      rw [← hstatus, Deployment.server, hresponse, Option.any_some, Bool.and_eq_true, decide_eq_true_eq,
        decide_eq_true_eq]
      exact and_iff_right hapi.framed.status.1
    simp only [wireStep, abstract, hrequest, Option.bind_some]
    by_cases hadmits : x.admits (D.context (D.env.backend server)) server.token fragment = true
    · rw [if_pos hadmits] at hdb ⊢
      simp only [hadmits, true_and] at hfulfilled
      simp only [hfulfilled, Option.elim_some, step, hrequest]
      rw [Deployment.server, hdb]
    · rw [if_neg hadmits] at hdb ⊢
      have hrefused := fun hok => hadmits (hfulfilled.mp hok).1
      simp only [if_neg hrefused, Option.elim_none]
      rw [Deployment.server, hdb, Function.update_eq_self]

/-- **Every event on the wire is an event of `World`, or nothing happens.** -/
theorem wireStep_eq (h : w.Wired D.env) {e : WireEvent B ι} (hproper : w.Proper D e) :
    w.wireStep D e = (w.abstract D e).elim w (w.step D.env) := by
  cases e with
  | quiet e => rfl
  | post k j x => exact wireStep_post h hproper
  | poll i id x =>
    simp only [wireStep, abstract, Option.elim_some, step]
    cases hchat : w.chat? i id with
    | none => rfl
    | some chat =>
      simp only
      rw [pollChat_eq_pollAnswered, pollResults_wireAnswer h hchat hproper, ← pollChat_eq_pollAnswered]
  | stray b allowed now segs => exact wireStep_stray w allowed now hproper

omit [DecidableEq B] [DecidableEq ι] in
/-- The event of `World` is one that keeps the invariant. -/
theorem Proper.clean {e : WireEvent B ι} (hproper : w.Proper D e) {e' : Event B ι}
    (he : w.abstract D e = some e') : w.CleanSend e' ∧ SafeStep e' := by
  cases e with
  | quiet e =>
    cases he
    exact ⟨hproper.2.2, hproper.2.1⟩
  | post k j x =>
    obtain ⟨p, hp, he⟩ := Option.bind_eq_some_iff.mp he
    split at he
    · cases he
      exact ⟨trivial, hproper.1⟩
    · cases he
  | poll i id x =>
    cases he
    exact ⟨trivial, trivial⟩
  | stray b allowed now segs => cases he

theorem Wired.wireStep (h : w.Wired D.env) {e : WireEvent B ι} (hproper : w.Proper D e) :
    (w.wireStep D e).Wired D.env := by
  rw [wireStep_eq h hproper]
  cases he : w.abstract D e with
  | none => exact h
  | some e' => exact h.step (hproper.clean he).1 (hproper.clean he).2

omit [DecidableEq B] [DecidableEq ι] in
/-- Freshly set up backends and clients whose cursors are safe satisfy the invariant. -/
theorem wired_of_blank (hblank : w.Blank) (hsaved : w.Saved)
    (hcursors : ∀ i, ∀ c ∈ (w.apps i).chatObjects, SafeNat c.lastSince) : w.Wired E where
  honest := hblank.honest
  saved := hsaved
  ttls s hs := by
    rw [hblank.sent] at hs
    cases hs
  clocks b r hr := by
    rw [hblank.stores b] at hr
    cases hr
  cursors := hcursors

/-- **The wire carries the system**: a run on the wire, from freshly set up backends and clients
    whose cursors are safe, is a run of `World` with the events that the connections come to, and
    its sends are clean. -/
theorem wire_refines_world (D : Deployment B) {w : World B ι} (hblank : w.Blank) (hsaved : w.Saved)
    (hcursors : ∀ i, ∀ c ∈ (w.apps i).chatObjects, SafeNat c.lastSince) {es : List (WireEvent B ι)}
    (hes : Along (wireStep D) (fun w e => w.Proper D e) w es) :
    run (wireStep D) w es = run (step D.env) w (trace (wireStep D) (abstract D) w es) ∧
      Along (step D.env) (fun w e => w.CleanSend e ∧ SafeStep e) w (trace (wireStep D) (abstract D) w es) := by
  have hwired : w.Wired D.env := wired_of_blank hblank hsaved hcursors
  have hstep : ∀ (w : World B ι) (e : WireEvent B ι), w.Wired D.env → w.Proper D e →
      (w.wireStep D e).Wired D.env := fun _ _ h hproper => h.wireStep hproper
  have hsim : ∀ (w : World B ι) (e : WireEvent B ι), w.Wired D.env → w.Proper D e →
      w.wireStep D e = (w.abstract D e).elim w (w.step D.env) := fun _ _ h hproper => wireStep_eq h hproper
  exact ⟨run_trace (π := id) hes hwired hstep hsim,
    along_trace (π := id) hes hwired hstep hsim fun _ _ _ _ hproper he => hproper.clean he⟩

end World

/-! ## Connections to look at -/

namespace Sample

/-- The two backends, with the token of the sample clients. -/
def deployment : Deployment JsString where
  env := env
  context _ := ⟨⟨[lit "t"]⟩, 65536, 0⟩
  corsOrigin _ := lit "*"
  isValue _ := by decide

/-- The header fields of a request with a body of this length. -/
def fetchFields (length : String) (h : Http.IsValue (lit length)) : List Http.Field :=
  [literalField "Host" "a" (by decide), literalField "Authorization" "Bearer t" (by decide),
    literalField "Content-Type" "application/json" (by decide), contentLength (lit length) h]

/-- The fragments of the message `hi`. -/
def posted (i : Nat) : FragmentPost JsString :=
  fragmentFor chat (List.replicate 64 0x61) (messageId 1) 0
    (splitPayload (encrypt sampleCrypto zeroKey zeroIv (js "hi")) 2) i

/-- The bytes of its POSTs. -/
def postBytes (i : Fin 2) : Bytes :=
  postFragment (headerSection (fetchFields "270" (by decide))) (posted i)

theorem isBytes_postBytes : ∀ i, postBytes i ≠ [] ∧ (postBytes i).length ≤ 8192 := by decide +kernel

/-- A POST arrives in one piece, and the answer is lost. -/
def postExchange (i : Fin 2) : Exchange where
  allowed := true
  now := 100
  fields := fetchFields "270" (by decide)
  segs := [⟨postBytes i, (isBytes_postBytes i).1, (isBytes_postBytes i).2⟩]
  returned := false

/-- The GET of the reader. -/
def pollBytes : Bytes :=
  (getFragments (headerSection (fetchFields "0" (by decide))) chat.chatId 0).getD []

/-- It arrives, and is answered. -/
def pollExchange : Exchange where
  allowed := true
  now := 101
  fields := fetchFields "0" (by decide)
  segs := [⟨pollBytes, by decide +kernel, by decide +kernel⟩]
  returned := true

/-- A message is sent, its POSTs get through, somebody without a token knocks, and the reader
    polls. -/
def connections : List (WireEvent JsString Bool) :=
  [.quiet (say true 1), .post 0 0 (postExchange 0), .post 0 1 (postExchange 1),
    .stray (js "https://a") true 100 [⟨lit "DELETE /api/fragments/x HTTP/1.1\r\n\r\n", by decide, by decide⟩],
    .poll false id fun _ => some pollExchange]

theorem carries_postExchange (i : Fin 2) : (postExchange i).Carries (js "t")
    (postFragment (headerSection (postExchange i).fields) (posted i)) (requestBody (posted i)) where
  cut := List.append_nil _
  within := by
    revert i
    decide +kernel
  announced := by
    revert i
    decide +kernel
  authorized := ⟨literalField "Authorization" "Bearer t" (by decide),
    List.mem_cons_of_mem _ List.mem_cons_self, by decide⟩
  token := by
    show ∀ f ∈ fetchFields "270" (by decide), _
    decide +kernel

theorem carries_pollExchange : pollExchange.Carries (js "t") pollBytes [] where
  cut := List.append_nil _
  within := by decide +kernel
  announced := by decide +kernel
  authorized := ⟨literalField "Authorization" "Bearer t" (by decide),
    List.mem_cons_of_mem _ List.mem_cons_self, by decide⟩
  token := by
    show ∀ f ∈ fetchFields "0" (by decide), _
    decide +kernel

/-- The POSTs that are on their way once the message is sent. -/
theorem request_say (i : Fin 2) {s : Sent Bool} {server : Server} {fragment : FragmentPost JsString}
    (h : (World.step env world (say true 1)).request 0 i = some (s, server, fragment)) :
    server.token = js "t" ∧ fragment = posted i := by
  have hpost : ∀ i : Fin 2, (((World.step env world (say true 1)).request 0 i).map fun r =>
      (r.2.1.token, r.2.2)) = some (js "t", posted i) := by decide +kernel
  have hpair := hpost i
  rw [h, Option.map_some] at hpair
  exact Prod.mk.inj (Option.some.inj hpair)

theorem saved_world : world.Saved := by
  intro i
  cases i <;> exact ⟨rfl, rfl⟩

theorem cursors_world : ∀ i, ∀ c ∈ (world.apps i).chatObjects, World.SafeNat c.lastSince := by
  intro i
  cases i <;> decide

/-- Every event of the run is one of this repository. -/
theorem proper_connections :
    Along (World.wireStep deployment) (fun w e => w.Proper deployment e) world connections := by
  -- The send, its two POSTs, the stranger and the poll.
  refine ⟨?_, ?_, ?_, ?_, ?_, trivial⟩
  · refine ⟨trivial, ?_, by decide +kernel⟩
    show World.SafeNat _
    decide
  · refine ⟨by decide, fun s server fragment h => ?_⟩
    obtain ⟨htoken, rfl⟩ := request_say 0 h
    rw [htoken]
    exact carries_postExchange 0
  · refine ⟨by decide, fun s server fragment h => ?_⟩
    rw [World.request_wireStep_post] at h
    obtain ⟨htoken, rfl⟩ := request_say 1 h
    rw [htoken]
    exact carries_postExchange 1
  · show isAuthorized _ _ = false
    decide +kernel
  · intro c hc server hserver y hy
    obtain rfl := Option.some.inj hy
    have hchat : (run (World.wireStep deployment) world (connections.take 4)).chat? false id = some chat := by
      decide +kernel
    have hservers : ((run (World.wireStep deployment) world (connections.take 4)).apps false).resolveServers
        chat.serverIds = servers := by
      decide +kernel
    obtain rfl := Option.some.inj (hchat.symm.trans hc)
    have hserver : server ∈ ((run (World.wireStep deployment) world (connections.take 4)).apps false).resolveServers
        chat.serverIds := hserver
    rw [hservers] at hserver
    have htoken : ∀ server ∈ servers, server.token = js "t" := by decide
    rw [htoken server hserver]
    exact ⟨pollBytes, by decide +kernel, carries_pollExchange⟩

end Sample

open Sample in
theorem sample_wire_refines_world :
    run (World.wireStep deployment) world connections =
        run (World.step env) world (trace (World.wireStep deployment) (World.abstract deployment) world connections) ∧
      Along (World.step env) (fun w e => w.CleanSend e ∧ World.SafeStep e) world
        (trace (World.wireStep deployment) (World.abstract deployment) world connections) :=
  World.wire_refines_world deployment blank saved_world cursors_world proper_connections

end Frag
