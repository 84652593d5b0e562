import Mathlib.Algebra.GroupWithZero.Nat
import Frag.Guarantees.Overlap

/-!
# Announced or Counted

`pollChat` looks once, when its servers have answered, whether its chat is the open one: then it
announces every message, else it counts them after the last decryption. In between the user
can open the chat or leave it.

## Main results

- `nothing_hidden_iff`: what a poll appends is announced or counted, and the open chat has no
  unread messages, exactly in runs in which no poll is overtaken by such a switch.
-/

namespace Frag

open Runs

/-! ## What became of the messages -/

/-- The message an event announces, if it is one of the chat. -/
def AppEvent.messageOf (cid : JsString) : AppEvent → Option Message
  | .message id msg => if id = cid then some msg else none
  | _ => none

namespace App

/-- The messages by which a chat has grown since. -/
def gained (app app' : App) (cid : JsString) : List Message :=
  (app'.messagesOf cid).drop (app.messagesOf cid).length

/-- The messages of a chat that were announced since, if the chat is the active one. -/
def shown (app app' : App) (cid : JsString) : List Message :=
  if app.state.activeChatId = some cid then
    (app'.state.emitted.drop app.state.emitted.length).filterMap (AppEvent.messageOf cid)
  else []

/-- By how much the unread counter of a chat has risen since, if the chat is not the active
    one. -/
def raised (app app' : App) (cid : JsString) : Nat :=
  if app.state.activeChatId = some cid then 0 else app'.unreadOf cid - app.unreadOf cid

end App

/-- A page, and what became of the messages of each chat so far. -/
structure Watch where
  page : Page
  appended : JsString → List Message
  announced : JsString → List Message
  counted : JsString → Nat

def Watch.start (p : Page) : Watch where
  page := p
  appended _ := []
  announced _ := []
  counted _ := 0

def Watch.step (W : WebCrypto) (w : Watch) (e : PageEvent) : Watch where
  page := w.page.step W e
  appended cid := w.appended cid ++ w.page.app.gained (w.page.step W e).app cid
  announced cid := w.announced cid ++ w.page.app.shown (w.page.step W e).app cid
  counted cid := w.counted cid + w.page.app.raised (w.page.step W e).app cid

/-- The messages of a chat that a suspended poll has appended and counts when it ends. -/
def Execution.uncounted (cid : JsString) : Execution → Nat
  | .decrypting loop _ _ => if loop.chat.id = cid ∧ loop.isActive = false then loop.newCount else 0
  | _ => 0

def Page.uncounted (p : Page) (cid : JsString) : Nat :=
  (p.running.map (Execution.uncounted cid)).sum

/-- No message is hidden: those announced while their chat was active and those counted while
    it was not are all that were appended, up to what a running poll has yet to count, and the
    active chat has no unread messages. -/
structure Watch.NothingHidden (w : Watch) : Prop where
  announced : ∀ cid, (w.announced cid).Sublist (w.appended cid)
  accounted : ∀ cid, (w.appended cid).length =
    (w.announced cid).length + w.counted cid + w.page.uncounted cid
  read : ∀ cid, w.page.app.state.activeChatId = some cid → w.page.app.unreadOf cid = 0

/-! ## Conditions -/

/-- The user opens or leaves a chat, or a poll is started or goes on. Chats have no empty id. -/
def PageEvent.SwitchOrPoll : PageEvent → Prop
  | .act (.setActiveChat id) => id ≠ some []
  | .poll _ | .resume _ _ => True
  | _ => False

/-- No execution is suspended, and the active chat has no unread messages. -/
structure Page.AtRest (p : Page) : Prop where
  idle : p.running = []
  read : ∀ cid, p.app.state.activeChatId = some cid → p.app.unreadOf cid = 0

/-- A poll that announces the message it has decrypted finds its chat still open, and one that
    counts its messages finds its chat not open. -/
def Page.Steady (p : Page) : PageEvent → Prop
  | .resume k .decrypted =>
    match p.running[k]? with
    | some (.decrypting loop _ rest) =>
      if loop.isActive then p.app.state.activeChatId = some loop.chat.id
      else rest = [] → p.app.state.activeChatId ≠ some loop.chat.id
    | _ => True
  | _ => True

instance : ∀ e : PageEvent, Decidable e.SwitchOrPoll
  | .act (.setActiveChat _) => inferInstanceAs (Decidable (_ ≠ _))
  | .poll _ | .resume _ _ => .isTrue trivial
  | .send _ _ _ => .isFalse id
  | .act (.addServer _ _ _ _) | .act (.removeServer _) | .act (.createChat _ _ _ _ _)
  | .act (.importChat _ _ _) | .act (.removeChat _) | .act (.reload _) => .isFalse id

instance (p : Page) : ∀ e, Decidable (p.Steady e)
  | .resume k .decrypted =>
    show Decidable (match p.running[k]? with | some (.decrypting _ _ _) => _ | _ => True) from
      match p.running[k]? with
      | some (.decrypting loop _ rest) =>
        inferInstanceAs (Decidable (if loop.isActive then p.app.state.activeChatId = some loop.chat.id
          else rest = [] → p.app.state.activeChatId ≠ some loop.chat.id))
      | some (.importing _) | some (.fetching _) | some (.posting _) | none => .isTrue trivial
  | .resume _ .imported | .resume _ (.answered _) | .resume _ (.posted _) => .isTrue trivial
  | .act _ | .send _ _ _ | .poll _ => .isTrue trivial

/-! ## What a poll announces and counts -/

section Poll

variable (W : WebCrypto) (app : App) (loop : PollLoop) (next : PendingMessage)
  (rest : List PendingMessage) (cid : JsString)

theorem App.unreadOf_setUnread (id : JsString) (count : Nat) :
    (app.setUnread id count).unreadOf cid = if cid = id then count else app.unreadOf cid := by
  simp only [App.unreadOf, App.setUnread, App.emit, OrderedMap.get?_set]
  split <;> rfl

/-- The events of one round of the loop. -/
def PollLoop.announces : List AppEvent :=
  if loop.isActive then [.message loop.chat.id (loop.received W next)] else []

theorem PollLoop.emitted_deliver :
    (loop.deliver W app next).1.state.emitted = app.state.emitted ++ loop.announces W next := by
  unfold PollLoop.deliver PollLoop.announces
  cases loop.isActive
  · exact (List.append_nil _).symm
  · rfl

theorem PollLoop.unreadOf_deliver : (loop.deliver W app next).1.unreadOf cid = app.unreadOf cid := by
  unfold PollLoop.deliver
  cases loop.isActive <;> rfl

/-- The counter of the chat rises by what the loop has counted. -/
theorem PollLoop.unreadOf_finish : (loop.finish app).unreadOf cid =
    app.unreadOf cid + if loop.chat.id = cid ∧ loop.isActive = false then loop.newCount else 0 := by
  obtain ⟨chats, removedChats, storage, -, -, heq⟩ := loop.finish_eq app
  rw [heq]
  split
  · rename_i hcount
    rw [App.unreadOf_setUnread]
    by_cases hid : loop.chat.id = cid
    · simp [hid, hcount.1]
    · rw [if_neg (Ne.symm hid), if_neg fun h => hid h.1]
      rfl
  · rename_i hcount
    change app.unreadOf cid = _
    split
    · rename_i hself
      have hzero : loop.newCount = 0 := Nat.eq_zero_of_not_pos fun h => hcount ⟨hself.2, h⟩
      rw [hzero, Nat.add_zero]
    · rfl

/-- After the loop nothing is announced. -/
theorem PollLoop.emitted_finish : ∃ evs, (loop.finish app).state.emitted = app.state.emitted ++ evs ∧
    ∀ id msg, AppEvent.message id msg ∉ evs := by
  obtain ⟨chats, removedChats, storage, -, -, heq⟩ := loop.finish_eq app
  rw [heq]
  split
  · exact ⟨[.unread loop.chat.id (app.unreadOf loop.chat.id + loop.newCount)], rfl, by simp⟩
  · exact ⟨[], (List.append_nil _).symm, by simp⟩

theorem PollLoop.activeChatId_finish :
    (loop.finish app).state.activeChatId = app.state.activeChatId := by
  obtain ⟨chats, removedChats, storage, -, -, heq⟩ := loop.finish_eq app
  rw [heq]
  split <;> rfl

/-- What one round of the loop appends, announces and counts. -/
theorem PollLoop.round_spec {app' : App} {after : Option Execution}
    (h : (loop.deliver W app next).2.proceed (loop.deliver W app next).1 rest = (app', after)) :
    app'.state.activeChatId = app.state.activeChatId ∧
      app'.messagesOf cid =
        app.messagesOf cid ++ (if loop.chat.id = cid then [loop.received W next] else []) ∧
      (∃ evs, app'.state.emitted = app.state.emitted ++ evs ∧
        evs.filterMap (AppEvent.messageOf cid) =
          if loop.chat.id = cid ∧ loop.isActive then [loop.received W next] else []) ∧
      app'.unreadOf cid = app.unreadOf cid +
        (if loop.chat.id = cid ∧ loop.isActive = false ∧ rest = [] then loop.newCount + 1 else 0) ∧
      after.elim 0 (Execution.uncounted cid) =
        if loop.chat.id = cid ∧ loop.isActive = false ∧ rest ≠ [] then loop.newCount + 1 else 0 := by
  have hsame : app.SameSetup (loop.deliver W app next).1 := loop.sameSetup_deliver next
  have hactive := hsame.activeChatId
  have hmessages : (loop.deliver W app next).1.messagesOf cid =
      app.messagesOf cid ++ if loop.chat.id = cid then [loop.received W next] else [] := by
    rw [PollLoop.messagesOf_deliver]
    by_cases hid : loop.chat.id = cid
    · simp [hid]
    · simp [hid, Ne.symm hid]
  have hannounced : (loop.announces W next).filterMap (AppEvent.messageOf cid) =
      if loop.chat.id = cid ∧ loop.isActive then [loop.received W next] else [] := by
    unfold PollLoop.announces
    cases loop.isActive
    · simp
    · by_cases hid : loop.chat.id = cid <;> simp [AppEvent.messageOf, hid]
  have hcount : (loop.deliver W app next).2.newCount =
      if loop.isActive then loop.newCount else loop.newCount + 1 := rfl
  cases rest with
  | nil =>
    -- It was the last message: the poll ends.
    cases h
    obtain ⟨evs, hevs, hnone⟩ := (loop.deliver W app next).2.emitted_finish
      (loop.deliver W app next).1
    refine ⟨?_, ?_, ⟨loop.announces W next ++ evs, ?_, ?_⟩, ?_, ?_⟩
    · rw [PollLoop.activeChatId_finish, hactive]
    · rw [PollLoop.messagesOf_finish, hmessages]
    · rw [hevs, PollLoop.emitted_deliver, List.append_assoc]
    · have hnil : evs.filterMap (AppEvent.messageOf cid) = [] := by
        rw [List.filterMap_eq_nil_iff]
        intro e he
        cases e with
        | message id msg => exact absurd he (hnone id msg)
        | _ => rfl
      rw [List.filterMap_append, hannounced, hnil, List.append_nil]
    · rw [PollLoop.unreadOf_finish, PollLoop.unreadOf_deliver, hcount]
      change _ + (if loop.chat.id = cid ∧ loop.isActive = false then _ else 0) = _
      cases loop.isActive <;> simp
    · simp
  | cons next' rest =>
    cases h
    refine ⟨hactive, hmessages, ⟨_, loop.emitted_deliver W app next, hannounced⟩, ?_, ?_⟩
    · rw [PollLoop.unreadOf_deliver]
      simp
    · change (if loop.chat.id = cid ∧ loop.isActive = false then _ else 0) = _
      rw [hcount]
      cases loop.isActive <;> simp

end Poll

/-! ## What a step appends, announces and counts -/

section Step

variable {W : WebCrypto} {app app' : App} {p : Page} {cid : JsString}

/-- What a step that is none of the loop leaves alone. -/
structure App.Quiet (app app' : App) : Prop where
  messagesOf : ∀ cid, app'.messagesOf cid = app.messagesOf cid
  emitted : ∃ evs, app'.state.emitted = app.state.emitted ++ evs ∧
    ∀ id msg, AppEvent.message id msg ∉ evs
  unreadOf : ∀ cid, app'.unreadOf cid ≤ app.unreadOf cid

theorem App.Quiet.refl (app : App) : app.Quiet app where
  messagesOf _ := rfl
  emitted := ⟨[], (List.append_nil _).symm, by simp⟩
  unreadOf _ := Nat.le_refl _

theorem App.Quiet.trans {app'' : App} (h : app.Quiet app') (h' : app'.Quiet app'') :
    app.Quiet app'' where
  messagesOf cid := (h'.messagesOf cid).trans (h.messagesOf cid)
  emitted := by
    obtain ⟨evs, hevs, hnone⟩ := h.emitted
    obtain ⟨evs', hevs', hnone'⟩ := h'.emitted
    refine ⟨evs ++ evs', by rw [hevs', hevs, List.append_assoc], fun id msg hmem => ?_⟩
    rcases List.mem_append.mp hmem with hmem | hmem
    · exact hnone id msg hmem
    · exact hnone' id msg hmem
  unreadOf cid := Nat.le_trans (h'.unreadOf cid) (h.unreadOf cid)

theorem App.Quiet.nothing (h : app.Quiet app') (cid : JsString) :
    app.gained app' cid = [] ∧ app.shown app' cid = [] ∧ app.raised app' cid = 0 := by
  refine ⟨?_, ?_, ?_⟩
  · rw [App.gained, h.messagesOf]
    exact List.drop_length
  · obtain ⟨evs, hevs, hnone⟩ := h.emitted
    rw [App.shown, hevs, List.drop_left]
    split
    · rw [List.filterMap_eq_nil_iff]
      intro e he
      cases e with
      | message id msg => exact absurd he (hnone id msg)
      | _ => rfl
    · rfl
  · rw [App.raised, Nat.sub_eq_zero_of_le (h.unreadOf cid)]
    exact ite_self 0

/-- Opening a chat gives it a list of messages, if it has none. -/
private theorem quiet_opened (app : App) (id : JsString) :
    app.Quiet (if (app.state.messages.get? id).isNone then app.setMessages id [] else app) := by
  obtain ⟨messages, heq, hmessages⟩ := app.opened_eq id
  rw [heq]
  exact ⟨fun cid => (hmessages cid).1, ⟨[], (List.append_nil _).symm, by simp⟩, fun _ => Nat.le_refl _⟩

/-- Opening a chat clears its counter. -/
private theorem quiet_read (app : App) (id : JsString) :
    app.Quiet (if 0 < app.unreadOf id then app.setUnread id 0 else app) ∧
      (if 0 < app.unreadOf id then app.setUnread id 0 else app).unreadOf id = 0 := by
  split
  · refine ⟨⟨fun _ => rfl, ⟨[.unread id 0], rfl, by simp⟩, fun cid => ?_⟩, ?_⟩
    · rw [App.unreadOf_setUnread]
      split
      · exact Nat.zero_le _
      · exact Nat.le_refl _
    · rw [App.unreadOf_setUnread, if_pos rfl]
  · rename_i hzero
    exact ⟨.refl app, Nat.eq_zero_of_not_pos hzero⟩

/-- A chat that is opened has no unread messages afterwards. -/
theorem App.setActiveChat_spec (app : App) {id : Option JsString} (hid : id ≠ some []) :
    app.Quiet (app.setActiveChat id) ∧ (app.setActiveChat id).state.activeChatId = id ∧
      ∀ cid, id = some cid → (app.setActiveChat id).unreadOf cid = 0 := by
  have hswitched : app.Quiet { app with state := { app.state with activeChatId := id } } :=
    ⟨fun _ => rfl, ⟨[], (List.append_nil _).symm, by simp⟩, fun _ => Nat.le_refl _⟩
  unfold App.setActiveChat
  split
  · exact ⟨hswitched, rfl, fun cid h => absurd h (by simp)⟩
  · exact absurd rfl hid
  · rename_i id _
    have hopened := quiet_opened { app with state := { app.state with activeChatId := some id } } id
    refine ⟨hswitched.trans (hopened.trans (quiet_read _ id).1), ?_, ?_⟩
    · simp only
      split <;> split <;> rfl
    · intro cid hcid
      cases hcid
      exact (quiet_read _ id).2

theorem Execution.uncounted_of_not_decrypting {x : Execution}
    (h : ∀ loop next rest, x ≠ .decrypting loop next rest) : x.uncounted cid = 0 := by
  cases x with
  | decrypting loop next rest => exact absurd rfl (h loop next rest)
  | _ => rfl

theorem Execution.elim_uncounted_of_newCount {after : Option Execution}
    (h : ∀ loop next rest, after = some (.decrypting loop next rest) → loop.newCount = 0) :
    after.elim 0 (Execution.uncounted cid) = 0 := by
  cases after with
  | none => rfl
  | some y =>
    cases y with
    | decrypting loop next rest => simp [Execution.uncounted, h loop next rest rfl]
    | _ => rfl

/-- What the running polls have yet to count, when one of them has gone on. -/
theorem Page.sum_uncounted {k : Nat} {x : Execution} (hx : p.running[k]? = some x)
    (after : Option Execution) (cid : JsString) :
    ((after.toList ++ p.running.eraseIdx k).map (Execution.uncounted cid)).sum + x.uncounted cid =
      p.uncounted cid + after.elim 0 (Execution.uncounted cid) := by
  obtain ⟨hlt, hget⟩ := List.getElem?_eq_some_iff.mp hx
  have hperm := (List.getElem_cons_eraseIdx_perm hlt).map (Execution.uncounted cid)
  have hsum := hperm.sum_nat
  rw [hget, List.map_cons, List.sum_cons] at hsum
  rw [Page.uncounted, ← hsum, List.map_append, List.sum_append]
  cases after with
  | none => simp [Nat.add_comm]
  | some y =>
    simp only [Option.toList_some, List.map_cons, List.map_nil, List.sum_cons, List.sum_nil,
      Option.elim_some]
    omega

/-- Only a decryption can be out of step with what is open. -/
theorem Page.steady_resume (p : Page) {k : Nat} {r : Settled}
    (h : r = .decrypted → ∀ loop next rest, p.running[k]? ≠ some (.decrypting loop next rest)) :
    p.Steady (.resume k r) := by
  cases r with
  | decrypted =>
    simp only [Page.Steady]
    split
    · rename_i loop next rest hx
      exact absurd hx (h rfl loop next rest)
    · trivial
  | _ => trivial

/-- **What one step does**: nothing becomes visible, or a poll goes one round of its loop. -/
theorem Page.step_cases (W : WebCrypto) {e : PageEvent} (he : e.SwitchOrPoll)
    (hsends : ∀ o, Execution.posting o ∉ p.running) :
    (∀ o, Execution.posting o ∉ (p.step W e).running) ∧
      ((p.app.Quiet (p.step W e).app ∧ (∀ cid, (p.step W e).uncounted cid = p.uncounted cid) ∧
          ((∀ cid, p.app.state.activeChatId = some cid → p.app.unreadOf cid = 0) →
            ∀ cid, (p.step W e).app.state.activeChatId = some cid →
              (p.step W e).app.unreadOf cid = 0) ∧ p.Steady e) ∨
        ∃ k loop next rest after,
          e = .resume k .decrypted ∧ p.running[k]? = some (.decrypting loop next rest) ∧
          (loop.deliver W p.app next).2.proceed (loop.deliver W p.app next).1 rest =
            ((p.step W e).app, after) ∧
          (p.step W e).running = after.toList ++ p.running.eraseIdx k) := by
  cases e with
  | act a =>
    cases a with
    | setActiveChat id =>
      obtain ⟨hquiet, hactive, hread⟩ := p.app.setActiveChat_spec he
      refine ⟨hsends, .inl ⟨hquiet, fun cid => rfl, fun _ cid hcid => ?_, trivial⟩⟩
      exact hread cid (hactive.symm.trans hcid)
    | _ => exact he.elim
  | send text ttl rand => exact he.elim
  | poll id =>
    simp only [Page.step]
    split
    · exact ⟨hsends, .inl ⟨.refl _, fun _ => rfl, fun h => h, trivial⟩⟩
    · rename_i start _
      refine ⟨fun o => ?_, .inl ⟨.refl _, fun cid => ?_, fun h => h, trivial⟩⟩
      · simp [hsends o]
      · simp [Page.uncounted, Execution.uncounted]
  | resume k r =>
    rcases p.step_resume_cases W k r with ⟨hsame, hnone⟩ | ⟨x, app', after, hx, hresume, hstep⟩
    · rw [hsame]
      refine ⟨hsends, .inl ⟨.refl _, fun _ => rfl, fun h => h, p.steady_resume ?_⟩⟩
      rintro rfl loop next rest hx
      exact absurd (hnone _ hx) (by simp [Execution.resume])
    · obtain ⟨hafter, hcases⟩ := Execution.resume_cases hresume
      rw [hstep]
      constructor
      · intro o hmem
        rcases List.mem_append.mp hmem with hmem | hmem
        · exact hafter o (Option.mem_toList.mp hmem)
        · exact hsends o (List.mem_of_mem_eraseIdx hmem)
      · rcases hcases with ⟨rfl, hloop, -, hcount⟩ | ⟨loop, next, rest, rfl, rfl, hround⟩ |
          ⟨o, accepted, rfl, -⟩
        · -- No loop has begun to count.
          refine .inl ⟨.refl _, fun cid => ?_, fun h => h, p.steady_resume ?_⟩
          · have hsum := p.sum_uncounted hx after cid
            rwa [Execution.uncounted_of_not_decrypting hloop,
              Execution.elim_uncounted_of_newCount hcount] at hsum
          · rintro rfl loop next rest hx'
            exact hloop loop next rest (Option.some.inj (hx.symm.trans hx'))
        · exact .inr ⟨k, loop, next, rest, after, rfl, hx, hround, rfl⟩
        · exact absurd (List.mem_of_getElem? hx) (hsends o)

/-! ## The condition is exact -/

/-- The invariant: nothing is hidden, and only polls are suspended. -/
structure Watch.Accounted (w : Watch) : Prop extends w.NothingHidden where
  sends : ∀ o, Execution.posting o ∉ w.page.running

variable {w : Watch} {e : PageEvent}

/-- What a round of the loop appends, announces and counts. -/
theorem PollLoop.observed {loop : PollLoop} {next : PendingMessage} {rest : List PendingMessage}
    {after : Option Execution}
    (h : (loop.deliver W app next).2.proceed (loop.deliver W app next).1 rest = (app', after))
    (cid : JsString) :
    app.gained app' cid = (if loop.chat.id = cid then [loop.received W next] else []) ∧
      app.shown app' cid = (if app.state.activeChatId = some cid then
        if loop.chat.id = cid ∧ loop.isActive then [loop.received W next] else [] else []) ∧
      app.raised app' cid = (if app.state.activeChatId = some cid then 0 else
        if loop.chat.id = cid ∧ loop.isActive = false ∧ rest = [] then loop.newCount + 1 else 0) := by
  obtain ⟨-, hmessages, ⟨evs, hemitted, hannounced⟩, hunread, -⟩ := loop.round_spec W app next rest cid h
  refine ⟨?_, ?_, ?_⟩
  · rw [App.gained, hmessages, List.drop_left]
  · rw [App.shown, hemitted, List.drop_left, hannounced]
  · rw [App.raised, hunread, Nat.add_sub_cancel_left]

theorem Watch.Accounted.step (he : e.SwitchOrPoll) (hsteady : w.page.Steady e) (h : w.Accounted) :
    (w.step W e).Accounted := by
  obtain ⟨hsends, ⟨hquiet, huncounted, hread, -⟩ | ⟨k, loop, next, rest, after, rfl, hx, hround, hrunning⟩⟩ :=
    Page.step_cases W he h.sends
  · refine ⟨⟨fun cid => ?_, fun cid => ?_, fun cid hcid => hread h.read cid hcid⟩, hsends⟩
    · obtain ⟨hgained, hshown, -⟩ := hquiet.nothing cid
      simp only [Watch.step, hgained, hshown, List.append_nil]
      exact h.announced cid
    · obtain ⟨hgained, hshown, hraised⟩ := hquiet.nothing cid
      simp only [Watch.step, hgained, hshown, hraised, huncounted, List.append_nil, Nat.add_zero]
      exact h.accounted cid
  · refine ⟨⟨fun cid => ?_, fun cid => ?_, fun cid hcid => ?_⟩, hsends⟩
    · obtain ⟨hgained, hshown, -⟩ := PollLoop.observed hround cid
      simp only [Watch.step, hgained, hshown]
      refine (h.announced cid).append ?_
      split
      · split
        · rename_i hself
          rw [if_pos hself.1]
        · exact List.nil_sublist _
      · exact List.nil_sublist _
    · obtain ⟨hgained, hshown, hraised⟩ := PollLoop.observed hround cid
      obtain ⟨-, -, -, -, hafter⟩ := loop.round_spec W w.page.app next rest cid hround
      have hsum := w.page.sum_uncounted hx after cid
      rw [← hrunning, hafter] at hsum
      have hold := h.accounted cid
      simp only [Watch.step, hgained, hshown, hraised, List.length_append, Page.uncounted] at hsum hold ⊢
      simp only [Page.Steady, hx] at hsteady
      simp only [Execution.uncounted] at hsum
      by_cases hid : loop.chat.id = cid
      · subst hid
        cases hactive : loop.isActive
        · simp only [hactive, Bool.false_eq_true, if_false] at hsteady
          cases rest with
          | nil =>
            -- All that was counted becomes visible now.
            have hclosed := hsteady rfl
            simp only [hactive, hclosed] at hsum ⊢
            simp at hsum ⊢
            omega
          | cons next' rest =>
            -- The message is one more to count.
            simp only [hactive] at hsum ⊢
            simp at hsum ⊢
            omega
        · -- The message is announced, while the chat is open.
          simp only [hactive, if_true] at hsteady
          simp only [hactive, hsteady] at hsum ⊢
          simp at hsum ⊢
          omega
      · simp [hid] at hsum ⊢
        omega
    · obtain ⟨hactive, -, -, hunread, -⟩ := loop.round_spec W w.page.app next rest cid hround
      have hopen : w.page.app.state.activeChatId = some cid := hactive.symm.trans hcid
      change (w.page.step W (.resume k .decrypted)).app.unreadOf cid = 0
      rw [hunread, h.read cid hopen, Nat.zero_add, if_neg]
      rintro ⟨rfl, hinactive, hlast⟩
      simp only [Page.Steady, hx, hinactive, Bool.false_eq_true, if_false] at hsteady
      exact hsteady hlast hopen

/-- A poll that is overtaken by a switch hides a message. -/
theorem Watch.Accounted.not_nothingHidden (he : e.SwitchOrPoll) (hsteady : ¬ w.page.Steady e)
    (h : w.Accounted) : ¬ (w.step W e).NothingHidden := by
  intro hhidden
  obtain ⟨-, ⟨-, -, -, hok⟩ | ⟨k, loop, next, rest, after, rfl, hx, hround, hrunning⟩⟩ :=
    Page.step_cases W he h.sends
  · exact hsteady hok
  · simp only [Page.Steady, hx] at hsteady
    obtain ⟨hactive, -, -, hunread, hafter⟩ := loop.round_spec W w.page.app next rest loop.chat.id hround
    cases hlooked : loop.isActive
    · -- The messages are counted for the chat that is open now.
      simp only [hlooked, Bool.false_eq_true, if_false, Classical.not_imp, not_not] at hsteady
      have hread := hhidden.read loop.chat.id (hactive.trans hsteady.2)
      change (w.page.step W (.resume k .decrypted)).app.unreadOf _ = 0 at hread
      simp [hunread, hlooked, hsteady.1] at hread
    · -- The message is announced for a chat that is not open, and not counted.
      simp only [hlooked, if_true] at hsteady
      obtain ⟨hgained, hshown, hraised⟩ := PollLoop.observed hround loop.chat.id
      have hsum := w.page.sum_uncounted hx after loop.chat.id
      rw [← hrunning, hafter] at hsum
      have hnew := hhidden.accounted loop.chat.id
      have hold := h.accounted loop.chat.id
      simp only [Watch.step, hgained, hshown, hraised, List.length_append, Page.uncounted,
        hsteady, hlooked] at hsum hold hnew
      simp [Execution.uncounted, hlooked] at hsum hnew
      omega

end Step

/-- **A poll and a chat switch hide no message**: every message that a poll appends is announced
    while its chat is the active one or counted while it is not, and the active chat has no
    unread messages, in all states that a run reaches if and only if no poll of the run is
    overtaken by a switch. -/
theorem nothing_hidden_iff (W : WebCrypto) {p : Page} (hp : p.AtRest) {es : List PageEvent}
    (hes : ∀ e ∈ es, e.SwitchOrPoll) :
    (∀ fs, fs <+: es → (run (Watch.step W) (.start p) fs).NothingHidden) ↔
      Along (Page.step W) Page.Steady p es := by
  have hstart : (Watch.start p).Accounted := by
    refine ⟨⟨fun _ => List.Sublist.refl _, fun cid => ?_, hp.read⟩, fun o ho => ?_⟩
    · simp [Watch.start, Page.uncounted, hp.idle]
    · simp [Watch.start, hp.idle] at ho
  have hwatch : (∀ fs, fs <+: es → (run (Watch.step W) (.start p) fs).NothingHidden) ↔
      Along (Watch.step W) (fun w e => w.page.Steady e) (.start p) es :=
    along_iff_prefixes Watch.NothingHidden Watch.Accounted (along_of_forall hes) (fun w h => h.toNothingHidden)
      (fun w e he hok h => h.step he hok) (fun w e he hok h => h.not_nothingHidden he hok) hstart
  have hpage : Along (Watch.step W) (fun w e => w.page.Steady e) (.start p) es ↔
      Along (Page.step W) Page.Steady p es := along_project fun _ _ => rfl
  exact hwatch.trans hpage

/-! ## Switches during a decryption -/

/-- A page that has just been loaded is at rest. -/
theorem Page.atRest_load (storage : LocalStorage) (identity : JsString) :
    (Page.load storage identity).AtRest where
  idle := rfl
  read cid h := by cases h

/-- The chat is opened before the poll has answers, and left when the poll has ended. -/
def openedInTime : List PageEvent :=
  [.poll Sample.id, .resume 0 .imported, .act (.setActiveChat (some Sample.id)),
    .resume 0 (.answered sampleAnswers), .resume 0 .decrypted, .act (.setActiveChat none)]

theorem opened_in_time_hides_nothing :
    (run (Watch.step sampleCrypto) (.start samplePage) openedInTime).NothingHidden :=
  (nothing_hidden_iff sampleCrypto (Page.atRest_load _ []) (by decide)).mpr (by decide +kernel)
    openedInTime List.prefix_rfl

/-- The user opens the chat, or leaves it, while its message is decrypted: then the open chat
    has an unread message, or the message is announced to nobody and not counted. -/
theorem switch_hides_message :
    samplePage.AtRest ∧
      (∀ e ∈ answeredPoll ++ [.act (.setActiveChat (some Sample.id)), .resume 0 .decrypted],
        e.SwitchOrPoll) ∧
      ¬ (run (Watch.step sampleCrypto) (.start samplePage)
        (answeredPoll ++ [.act (.setActiveChat (some Sample.id)), .resume 0 .decrypted])).NothingHidden ∧
      (∀ e ∈ .act (.setActiveChat (some Sample.id)) :: answeredPoll ++
        [.act (.setActiveChat none), .resume 0 .decrypted], e.SwitchOrPoll) ∧
      ¬ (run (Watch.step sampleCrypto) (.start samplePage)
        (.act (.setActiveChat (some Sample.id)) :: answeredPoll ++
          [.act (.setActiveChat none), .resume 0 .decrypted])).NothingHidden := by
  refine ⟨Page.atRest_load _ [], by decide, fun h => ?_, by decide, fun h => ?_⟩
  · have hread := h.read Sample.id
    revert hread
    decide +kernel
  · have haccounted := h.accounted Sample.id
    revert haccounted
    decide +kernel

end Frag
