import Frag.Client.Action
import Frag.Client.PollSpec
import Frag.Client.Send
import Frag.Library.Runs
import Mathlib.Data.List.Perm.Basic

/-!
# Interleaved Executions

One page of the application: the state of the app and any number of suspended
executions of `sendMessage` and `pollChat`, which share it. An event runs a
synchronous call or resumes one execution, whose awaited promise has settled, up to
its next await. Suspended executions are resumed in any order, or never.

`sendMessage` has two more awaits before its POSTs, in which it neither reads nor
changes anything shared; it is started and runs up to its POSTs in one event.

## Main results

- `Page.run_poll`: `pollChat` is an execution that is resumed without interruption;
- `Page.ids_step`: the messages of a chat and those its executions have taken up
  change by what a send draws and a poll takes up.
-/

namespace Frag

open Runs

/-! ## Executions -/

/-- A suspended execution. -/
inductive Execution where
  /-- `pollChat` awaits `Crypto.importKey`. -/
  | importing (p : PollStart)
  /-- `pollChat` awaits the answers of its servers. -/
  | fetching (p : PollFetch)
  /-- `pollChat` awaits the decryption of `next`, with `rest` to follow. -/
  | decrypting (loop : PollLoop) (next : PendingMessage) (rest : List PendingMessage)
  /-- `sendMessage` awaits its POSTs. -/
  | posting (o : Outgoing)

/-- What the awaited promise of an execution came to. A server that cannot be reached
    counts as one that answers without fragments. -/
inductive Settled where
  | imported
  | answered (results : List (List (Fragment JsString)))
  | decrypted
  | posted (accepted : List Bool)

/-- The loop of `pollChat` up to its next decryption, or to the end. -/
def PollLoop.proceed (app : App) (loop : PollLoop) :
    List PendingMessage → App × Option Execution
  | [] => (loop.finish app, none)
  | next :: rest => (app, some (.decrypting loop next rest))

/-- An execution from its await to the next one, if its promise can settle so. -/
def Execution.resume (W : WebCrypto) (app : App) :
    Execution → Settled → Option (App × Option Execution)
  | .importing p, .imported => some (app, (p.fetch app).map .fetching)
  | .fetching p, .answered results =>
    if results.length = p.servers.length then
      match p.collect app results with
      | none => some (app, none)
      | some (loop, pending) => some (loop.proceed app pending)
    else none
  | .decrypting loop next rest, .decrypted =>
    let (app, loop) := loop.deliver W app next
    some (loop.proceed app rest)
  | .posting o, .posted accepted => some ((o.settle app accepted).1, none)
  | _, _ => none

section Resume

variable {W : WebCrypto} {app app' : App} {x : Execution} {r : Settled} {after : Option Execution}

theorem PollLoop.proceed_not_posting {loop : PollLoop} {pending : List PendingMessage}
    (h : loop.proceed app pending = (app', after)) (o : Outgoing) : after ≠ some (.posting o) := by
  cases pending with
  | nil =>
    cases h
    simp
  | cons next rest =>
    cases h
    simp

/-- **What an execution does from one await to the next**: nothing to the app before the loop
    of `pollChat`, one round of the loop, or the end of a send. -/
theorem Execution.resume_cases (h : x.resume W app r = some (app', after)) :
    (∀ o, after ≠ some (.posting o)) ∧
      ((app' = app ∧ (∀ loop next rest, x ≠ .decrypting loop next rest) ∧ (∀ o, x ≠ .posting o) ∧
          ∀ loop next rest, after = some (.decrypting loop next rest) → loop.newCount = 0) ∨
        (∃ loop next rest, x = .decrypting loop next rest ∧ r = .decrypted ∧
          (loop.deliver W app next).2.proceed (loop.deliver W app next).1 rest = (app', after)) ∨
        ∃ o accepted, x = .posting o ∧ r = .posted accepted ∧ after = none ∧
          app' = (o.settle app accepted).1) := by
  unfold Execution.resume at h
  split at h
  · -- The key is imported.
    rename_i poll
    cases h
    constructor
    · intro o
      cases poll.fetch app <;> simp
    · refine .inl ⟨rfl, by simp, by simp, fun loop next rest hafter => ?_⟩
      cases hfetch : poll.fetch app <;> simp [hfetch] at hafter
  · -- The servers have answered.
    rename_i poll results
    split at h
    · split at h
      · cases h
        exact ⟨by simp, .inl ⟨rfl, by simp, by simp, by simp⟩⟩
      · rename_i loop pending hcollect
        obtain ⟨m, -, heq⟩ := Option.map_eq_some_iff.mp hcollect
        have hcount : loop.newCount = 0 := by
          cases heq
          rfl
        have hsince : loop.maxTimestamp = app.lastSince loop.chat.id := by
          cases heq
          rfl
        have hproceed : loop.proceed app pending = (app', after) := Option.some.inj h
        refine ⟨PollLoop.proceed_not_posting hproceed, .inl ?_⟩
        cases pending with
        | nil =>
          cases hproceed
          refine ⟨?_, by simp, by simp, by simp⟩
          simp [PollLoop.finish, hcount, hsince]
        | cons next rest =>
          cases hproceed
          refine ⟨rfl, by simp, by simp, fun loop' next' rest' hafter => ?_⟩
          cases hafter
          exact hcount
    · cases h
  · -- A decryption has settled.
    rename_i loop next rest
    have hproceed : (loop.deliver W app next).2.proceed (loop.deliver W app next).1 rest =
        (app', after) := Option.some.inj h
    exact ⟨PollLoop.proceed_not_posting hproceed,
      .inr (.inl ⟨loop, next, rest, rfl, rfl, hproceed⟩)⟩
  · -- The POSTs have settled.
    rename_i o accepted
    cases h
    exact ⟨by simp, .inr (.inr ⟨o, accepted, rfl, rfl, rfl, rfl⟩)⟩
  · cases h

end Resume

/-! ## Pages -/

/-- A page: the application and what is suspended in it. -/
structure Page where
  app : App
  running : List Execution

/-- What can happen on a page. -/
inductive PageEvent where
  /-- A call that is not suspended; a reload ends all executions. -/
  | act (a : Action)
  | send (text : JsString) (ttl : Option Rat) (rand : SendRandom)
  | poll (id : JsString)
  /-- The promise that the `k`-th execution awaits has settled. -/
  | resume (k : Nat) (r : Settled)

/-- A freshly loaded page. -/
def Page.load (storage : LocalStorage) (identity : JsString) : Page where
  app := App.init storage identity
  running := []

/-- One event. -/
def Page.step (W : WebCrypto) (p : Page) : PageEvent → Page
  | .act a =>
    { app := a.apply p.app
      running := match a with
        | .reload _ => []
        | _ => p.running }
  | .send text ttl rand =>
    match sendMessage W p.app text ttl rand with
    | .error _ => p
    | .ok o => { p with running := .posting o :: p.running }
  | .poll id =>
    match (p.app.state.chats.find? fun c => c.id = id).bind (pollStart p.app) with
    | none => p
    | some start => { p with running := .importing start :: p.running }
  | .resume k r =>
    match p.running[k]?.bind fun x => x.resume W p.app r with
    | none => p
    | some (app, next) => { app, running := next.toList ++ p.running.eraseIdx k }

/-- **What a resumption does**: nothing, or one execution goes on to its next await. -/
theorem Page.step_resume_cases (W : WebCrypto) (p : Page) (k : Nat) (r : Settled) :
    (p.step W (.resume k r) = p ∧ ∀ x, p.running[k]? = some x → x.resume W p.app r = none) ∨
      ∃ x app' after, p.running[k]? = some x ∧ x.resume W p.app r = some (app', after) ∧
        p.step W (.resume k r) = { app := app', running := after.toList ++ p.running.eraseIdx k } := by
  cases hx : p.running[k]? with
  | none => exact .inl ⟨by simp [Page.step, hx], fun x h => nomatch h⟩
  | some x =>
    cases hresume : x.resume W p.app r with
    | none =>
      refine .inl ⟨by simp [Page.step, hx, hresume], fun y hy => ?_⟩
      cases hy
      exact hresume
    | some c => exact .inr ⟨x, c.1, c.2, rfl, hresume, by simp [Page.step, hx, hresume]⟩

/-- **What a resumption does to the application**: nothing, one round of the loop of `pollChat`,
    or the end of a send. -/
theorem Page.resume_cases (W : WebCrypto) (p : Page) (k : Nat) (r : Settled) :
    ((p.step W (.resume k r)).app = p.app ∧
        (r = .decrypted → ∀ loop next rest, p.running[k]? ≠ some (.decrypting loop next rest)) ∧
        ∀ accepted, r = .posted accepted → ∀ o, p.running[k]? ≠ some (.posting o)) ∨
      (∃ loop next rest after, r = .decrypted ∧ p.running[k]? = some (.decrypting loop next rest) ∧
        (loop.deliver W p.app next).2.proceed (loop.deliver W p.app next).1 rest =
          ((p.step W (.resume k r)).app, after)) ∨
      ∃ o accepted, r = .posted accepted ∧ p.running[k]? = some (.posting o) ∧
        (p.step W (.resume k r)).app = (o.settle p.app accepted).1 := by
  rcases p.step_resume_cases W k r with ⟨hstep, hnone⟩ | ⟨x, app', after, hx, hresume, hstep⟩
  · -- Both promises settle, if they are awaited.
    refine .inl ⟨by rw [hstep], ?_, ?_⟩
    · rintro rfl loop next rest hx
      exact absurd (hnone _ hx) (by simp [Execution.resume])
    · rintro accepted rfl o hx
      exact absurd (hnone _ hx) (by simp [Execution.resume])
  · rw [hstep, hx]
    obtain ⟨-, ⟨rfl, hloop, hpost, -⟩ | ⟨loop, next, rest, rfl, rfl, hround⟩ |
      ⟨o, accepted, rfl, rfl, -, rfl⟩⟩ := Execution.resume_cases hresume
    · refine .inl ⟨rfl, fun _ loop next rest h => ?_, fun _ _ o h => ?_⟩
      · exact hloop loop next rest (Option.some.inj h)
      · exact hpost o (Option.some.inj h)
    · exact .inr (.inl ⟨loop, next, rest, after, rfl, rfl, hround⟩)
    · exact .inr (.inr ⟨o, accepted, rfl, rfl, rfl⟩)

/-- Neither a send nor a poll changes the application when it starts. -/
theorem Page.app_step_start (W : WebCrypto) (p : Page) :
    (∀ text ttl rand, (p.step W (.send text ttl rand)).app = p.app) ∧
      ∀ id, (p.step W (.poll id)).app = p.app := by
  refine ⟨fun text ttl rand => ?_, fun id => ?_⟩
  · simp only [Page.step]
    split <;> rfl
  · simp only [Page.step]
    split <;> rfl

/-! ## Uninterrupted polls -/

section Poll

variable {W : WebCrypto} {app : App} {running : List Execution}

private theorem run_proceed (W : WebCrypto) (app : App) (running : List Execution)
    (loop : PollLoop) (pending : List PendingMessage) :
    ∃ es, run (Page.step W)
        { app := (loop.proceed app pending).1
          running := (loop.proceed app pending).2.toList ++ running } es =
      { app := loop.run W app pending, running } := by
  induction pending generalizing app loop with
  | nil => exact ⟨[], rfl⟩
  | cons next rest ih =>
    obtain ⟨es, hes⟩ := ih (loop.deliver W app next).1 (loop.deliver W app next).2
    exact ⟨.resume 0 .decrypted :: es, hes⟩

/-- **`pollChat` is an execution that nothing interrupts**: from its start to its end
    there is a run of its own steps. -/
theorem Page.run_poll {id : JsString} {chat : Chat}
    (hfind : app.state.chats.find? (fun c => c.id = id) = some chat) (answer : Answer) :
    ∃ es, run (Page.step W) { app, running } (.poll id :: es) =
      { app := pollChat W app chat answer, running } := by
  simp only [run_cons]
  -- One step for each `await` that the poll gets to.
  cases hstart : pollStart app chat with
  | none =>
    refine ⟨[], ?_⟩
    simp [Page.step, hfind, hstart, pollChat]
  | some start =>
    have hpoll : Page.step W { app, running } (.poll id) =
        { app, running := .importing start :: running } := by
      simp [Page.step, hfind, hstart]
    rw [hpoll]
    cases hfetch : start.fetch app with
    | none =>
      refine ⟨[.resume 0 .imported], ?_⟩
      simp [Page.step, Execution.resume, hfetch, pollChat, hstart]
    | some fetch =>
      have himport : Page.step W { app, running := .importing start :: running }
          (.resume 0 .imported) = { app, running := .fetching fetch :: running } := by
        simp [Page.step, Execution.resume, hfetch]
      have hlen : (fetch.results answer).length = fetch.servers.length := by
        simp [PollFetch.results]
      cases hcollect : fetch.collect app (fetch.results answer) with
      | none =>
        refine ⟨[.resume 0 .imported, .resume 0 (.answered (fetch.results answer))], ?_⟩
        rw [run_cons, himport]
        simp [Page.step, Execution.resume, hlen, hcollect, pollChat, hstart, hfetch]
      | some c =>
        obtain ⟨loop, pending⟩ := c
        obtain ⟨es, hes⟩ := run_proceed W app running loop pending
        refine ⟨.resume 0 .imported :: .resume 0 (.answered (fetch.results answer)) :: es, ?_⟩
        have hanswer : Page.step W { app, running := .fetching fetch :: running }
            (.resume 0 (.answered (fetch.results answer))) =
          { app := (loop.proceed app pending).1
            running := (loop.proceed app pending).2.toList ++ running } := by
          simp [Page.step, Execution.resume, hlen, hcollect]
        rw [run_cons, himport, run_cons, hanswer, hes]
        simp [pollChat, hstart, hfetch, hcollect]

end Poll

/-! ## Messages taken up -/

/-- The messages an execution has taken up and not yet added to a chat. -/
def Execution.owes (cid : JsString) : Execution → List JsString
  | .decrypting loop next rest =>
    if loop.chat.id = cid then (next :: rest).map PendingMessage.id else []
  | .posting o => if o.chat.id = cid then [o.messageId.val] else []
  | _ => []

/-- The messages a chat has, and those taken up for it. -/
def Page.ids (p : Page) (cid : JsString) : List JsString :=
  (p.app.messagesOf cid).map Message.id ++ p.running.flatMap (Execution.owes cid)

/-- The messages an execution takes up for a chat when its promise settles. -/
def Execution.takes (app : App) (cid : JsString) : Execution → Settled → List JsString
  | .fetching p, .answered results =>
    if p.chat.id = cid then
      (p.collect app results).elim [] fun c => c.2.map PendingMessage.id
    else []
  | _, _ => []

variable {W : WebCrypto} {app app' : App} {x : Execution} {next : Option Execution} {r : Settled}

private theorem ids_proceed (app : App) (loop : PollLoop) (pending : List PendingMessage) (cid : JsString) :
    ((loop.proceed app pending).1.messagesOf cid).map Message.id ++
        (loop.proceed app pending).2.elim [] (Execution.owes cid) =
      (app.messagesOf cid).map Message.id ++
        if loop.chat.id = cid then pending.map PendingMessage.id else [] := by
  cases pending with
  | nil =>
    simp only [PollLoop.proceed, PollLoop.messagesOf_finish]
    split <;> rfl
  | cons next rest => rfl

/-- From one await to the next, an execution adds what it owes, in order, and takes up
    more when its servers have answered. -/
theorem Execution.ids_resume (h : x.resume W app r = some (app', next)) (cid : JsString) :
    (app'.messagesOf cid).map Message.id ++ next.elim [] (Execution.owes cid) =
      (app.messagesOf cid).map Message.id ++ (x.owes cid ++ x.takes app cid r) := by
  unfold Execution.resume at h
  split at h
  · rename_i p
    cases h
    cases p.fetch app <;> rfl
  · rename_i p results
    split at h
    · split at h
      · rename_i hcollect
        cases h
        simp [Execution.owes, Execution.takes, hcollect]
      · rename_i loop pending hcollect
        have hids := ids_proceed app loop pending cid
        rw [Option.some.inj h] at hids
        obtain ⟨m, -, heq⟩ := Option.map_eq_some_iff.mp hcollect
        have hchat : loop.chat = p.chat := by
          cases heq
          rfl
        rw [hids, hchat]
        simp [Execution.owes, Execution.takes, hcollect]
    · cases h
  · -- The message that is decrypted is the first of those that the loop owes.
    rename_i loop next' rest
    have hids := ids_proceed (loop.deliver W app next').1 (loop.deliver W app next').2 rest cid
    have hproceed : PollLoop.proceed (loop.deliver W app next').1 (loop.deliver W app next').2 rest =
        (app', next) := Option.some.inj h
    have hchat : (loop.deliver W app next').2.chat = loop.chat := rfl
    rw [hproceed] at hids
    rw [hids, hchat, PollLoop.messagesOf_deliver]
    simp only [Execution.owes, Execution.takes, List.append_nil]
    by_cases hcid : loop.chat.id = cid
    · simp [hcid, PollLoop.received]
    · simp [hcid, Ne.symm hcid]
  · rename_i o accepted
    cases h
    rw [Outgoing.settle_fst, App.messagesOf_emit, App.pushMessage, App.messagesOf_setMessages]
    simp only [Execution.owes, Execution.takes, List.append_nil, Option.elim_none]
    by_cases hcid : o.chat.id = cid
    · simp [hcid, Outgoing.message]
    · simp [hcid, Ne.symm hcid]
  · cases h

/-- **How the messages of a chat change**: a call drops some, a send adds the id it
    draws, and a poll whose servers have answered adds what it takes up. -/
theorem Page.ids_step (W : WebCrypto) (p : Page) (e : PageEvent) (cid : JsString) :
    ((p.step W e).ids cid).Sublist (p.ids cid) ∨
      (∃ text ttl rand o, e = .send text ttl rand ∧ sendMessage W p.app text ttl rand = .ok o ∧
        ((p.step W e).ids cid).Perm (p.ids cid ++ (Execution.posting o).owes cid)) ∨
      ∃ k r x, e = .resume k r ∧ p.running[k]? = some x ∧ (x.resume W p.app r).isSome ∧
        ((p.step W e).ids cid).Perm (p.ids cid ++ x.takes p.app cid r) := by
  cases e with
  | act a =>
    left
    refine List.Sublist.append ?_ ?_
    · show (List.map Message.id ((a.apply p.app).messagesOf cid)).Sublist _
      rcases App.messagesOf_apply p.app a cid with hkeep | hdrop
      · rw [hkeep]
      · rw [hdrop]
        exact List.nil_sublist _
    · cases a with
      | reload identity => exact List.nil_sublist _
      | _ => exact List.Sublist.refl _
  | send text ttl rand =>
    cases hsend : sendMessage W p.app text ttl rand with
    | error e =>
      left
      simp [Page.step, hsend]
    | ok o =>
      right
      left
      refine ⟨text, ttl, rand, o, rfl, hsend, ?_⟩
      simp only [Page.step, hsend, Page.ids, List.flatMap_cons]
      rw [List.append_assoc]
      exact List.Perm.append_left _ List.perm_append_comm
  | poll id =>
    left
    simp only [Page.step]
    split
    · exact List.Sublist.refl _
    · exact List.Sublist.refl _
  | resume k r =>
    rcases p.step_resume_cases W k r with ⟨hstep, -⟩ | ⟨x, app', next, hx, hresume, hstep⟩
    · left
      rw [hstep]
    · refine .inr (.inr ⟨k, r, x, rfl, hx, by simp [hresume], ?_⟩)
      -- What it owed comes out of the executions, and what it owes now goes in.
      obtain ⟨hlt, hget⟩ := List.getElem?_eq_some_iff.mp hx
      have hperm : (p.running.flatMap (Execution.owes cid)).Perm
          (x.owes cid ++ (p.running.eraseIdx k).flatMap (Execution.owes cid)) := by
        have herase := (List.getElem_cons_eraseIdx_perm hlt).symm
        rw [hget] at herase
        simpa using herase.flatMap_right (Execution.owes cid)
      have hnext : (next.toList).flatMap (Execution.owes cid) =
          next.elim [] (Execution.owes cid) := by
        cases next <;> simp
      simp only [hstep, Page.ids, List.flatMap_append, hnext]
      rw [← List.append_assoc, Execution.ids_resume hresume cid, List.append_assoc,
        List.append_assoc, List.append_assoc]
      refine List.Perm.append_left _ ?_
      refine List.Perm.trans ?_ (List.Perm.append_right _ hperm.symm)
      rw [List.append_assoc]
      exact List.Perm.append_left _ List.perm_append_comm

end Frag
