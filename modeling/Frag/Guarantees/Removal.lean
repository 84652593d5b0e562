import Frag.Guarantees.Overlap

/-!
# Removed Chats

`removeChat` drops a chat and its messages. A suspended `pollChat` or `sendMessage` still refers
to the chat object, and recreates the list of its messages when it has one to add.

## Main results

- `removed_chats_stay_removed_iff`: a removed chat stays removed exactly in runs in which no
  execution adds a message to a chat that is no longer there.
-/

namespace Frag

open Runs

/-- The ids of the chats. -/
def App.chatIds (app : App) : List JsString := app.state.chats.map Chat.id

/-- The ids of the chats that were removed since the page was loaded. -/
def App.removedIds (app : App) : List JsString := app.state.removedChats.map Chat.id

namespace Page

/-! ## Conditions -/

/-- `generateId()` draws an id that no chat has or had, only chats of the list are opened, and
    the page is not loaded anew. -/
def Genuine (p : Page) : PageEvent → Prop
  | .act (.createChat _ _ _ _ rand) | .act (.importChat _ _ rand) =>
    rand.id.val ∉ p.app.chatIds ++ p.app.removedIds
  | .act (.setActiveChat id) => ∀ cid ∈ id, cid ∈ p.app.chatIds
  | .act (.reload _) => False
  | _ => True

/-- An execution that adds a message to its chat finds the chat among those of the list. -/
def Present (p : Page) : PageEvent → Prop
  | .resume k .decrypted =>
    match p.running[k]? with
    | some (.decrypting loop _ _) => loop.chat.id ∈ p.app.chatIds
    | _ => True
  | .resume k (.posted _) =>
    match p.running[k]? with
    | some (.posting o) => o.chat.id ∈ p.app.chatIds
    | _ => True
  | _ => True

instance (p : Page) : ∀ e, Decidable (p.Genuine e)
  | .act (.createChat _ _ _ _ rand) | .act (.importChat _ _ rand) =>
    inferInstanceAs (Decidable (rand.id.val ∉ p.app.chatIds ++ p.app.removedIds))
  | .act (.setActiveChat id) => inferInstanceAs (Decidable (∀ cid ∈ id, cid ∈ p.app.chatIds))
  | .act (.reload _) => .isFalse id
  | .act (.addServer _ _ _ _) | .act (.removeServer _) | .act (.removeChat _) => .isTrue trivial
  | .send _ _ _ | .poll _ | .resume _ _ => .isTrue trivial

instance (p : Page) : ∀ e, Decidable (p.Present e)
  | .resume k .decrypted =>
    show Decidable (match p.running[k]? with | some (.decrypting _ _ _) => _ | _ => True) from
      match p.running[k]? with
      | some (.decrypting loop _ _) => inferInstanceAs (Decidable (loop.chat.id ∈ p.app.chatIds))
      | some (.importing _) | some (.fetching _) | some (.posting _) | none => .isTrue trivial
  | .resume k (.posted _) =>
    show Decidable (match p.running[k]? with | some (.posting _) => _ | _ => True) from
      match p.running[k]? with
      | some (.posting o) => inferInstanceAs (Decidable (o.chat.id ∈ p.app.chatIds))
      | some (.importing _) | some (.fetching _) | some (.decrypting _ _ _) | none => .isTrue trivial
  | .resume _ .imported | .resume _ (.answered _) => .isTrue trivial
  | .act _ | .send _ _ _ | .poll _ => .isTrue trivial

/-- Every key of `state.messages` is the id of a chat. -/
def Tidy (p : Page) : Prop := ∀ id ∈ p.app.state.messages.keys, id ∈ p.app.chatIds

end Page

/-- A removed chat stays removed in all states that a run reaches: the chats that have messages
    are those of the list, and after its removal a chat has no messages and its unread counter
    stays as it was. -/
structure StaysRemoved (W : WebCrypto) (p : Page) (es : List PageEvent) : Prop where
  tidy : ∀ fs, fs <+: es → (run (Page.step W) p fs).Tidy
  removed : ∀ fs id gs, fs ++ .act (.removeChat id) :: gs <+: es →
    id ∈ (run (Page.step W) p fs).app.chatIds →
    (run (Page.step W) p (fs ++ .act (.removeChat id) :: gs)).app.state.messages.get? id = none ∧
      (run (Page.step W) p (fs ++ .act (.removeChat id) :: gs)).app.state.unreadCounts.get? id =
        (run (Page.step W) p fs).app.state.unreadCounts.get? id

/-! ## What a step does to chats that are not there -/

/-- What a step does to the chats that are not in the list after it: they are new to the removed
    ones or were not there before, and then nothing of theirs has changed. -/
structure App.KeepsAway (app app' : App) : Prop where
  messages : ∀ id ∉ app'.chatIds, app'.state.messages.get? id = none ∨
    (id ∉ app.chatIds ∧ app'.state.messages.get? id = app.state.messages.get? id)
  unread : ∀ id ∉ app'.chatIds, app'.state.unreadCounts.get? id = app.state.unreadCounts.get? id
  removed : ∀ id ∈ app.removedIds, id ∈ app'.removedIds
  absent : ∀ id ∈ app.removedIds, id ∉ app.chatIds → id ∉ app'.chatIds

section Step

variable {W : WebCrypto} {app app' : App} {p : Page} {e : PageEvent}

/-- A step that touches the messages and the counter of chats of the list only. -/
theorem App.keepsAway_of_chats (hchats : app'.chatIds = app.chatIds)
    (hremoved : app'.removedIds = app.removedIds)
    (hmessages : ∀ id ∉ app.chatIds, app'.state.messages.get? id = app.state.messages.get? id)
    (hunread : ∀ id ∉ app.chatIds,
      app'.state.unreadCounts.get? id = app.state.unreadCounts.get? id) :
    app.KeepsAway app' where
  messages id hid := by
    rw [hchats] at hid
    exact .inr ⟨hid, hmessages id hid⟩
  unread id hid := by
    rw [hchats] at hid
    exact hunread id hid
  removed id hid := by rwa [hremoved]
  absent id _ hid := by rwa [hchats]

theorem App.KeepsAway.refl (app : App) : app.KeepsAway app :=
  keepsAway_of_chats rfl rfl (fun _ _ => rfl) fun _ _ => rfl

/-- What `createChat` does to the state. -/
theorem App.createChat_state {name : JsString} {serverIds : List JsString}
    {chatId keyB64 : JsString} {rand : App.ChatRandom} {c : Chat}
    (h : app.createChat name serverIds chatId keyB64 rand = .ok (c, app')) :
    app'.chatIds = app.chatIds ++ [rand.id.val] ∧ app'.removedIds = app.removedIds ∧
      app'.state.messages = app.state.messages.set rand.id.val [] ∧
      app'.state.unreadCounts = app.state.unreadCounts := by
  obtain ⟨-, rfl, rfl⟩ := App.createChat_eq_ok h
  exact ⟨List.map_append, rfl, rfl, rfl⟩

/-- The servers that are added for an imported chat are all that changes before it is created. -/
theorem App.importServers_state (app : App) (fresh : Nat → JsString) (servers : List ExportedServer) :
    (app.importServers fresh servers).1.chatIds = app.chatIds ∧
      (app.importServers fresh servers).1.removedIds = app.removedIds ∧
      (app.importServers fresh servers).1.state.messages = app.state.messages ∧
      (app.importServers fresh servers).1.state.unreadCounts = app.state.unreadCounts := by
  obtain ⟨_, _, _, heq⟩ := app.importServers_eq fresh servers
  rw [heq]
  exact ⟨rfl, rfl, rfl, rfl⟩

theorem App.KeepsAway.createChat {app₁ : App} (hchats : app₁.chatIds = app.chatIds)
    (hremoved : app₁.removedIds = app.removedIds) (hmessages : app₁.state.messages = app.state.messages)
    (hunread : app₁.state.unreadCounts = app.state.unreadCounts) {name : JsString}
    {serverIds : List JsString} {chatId keyB64 : JsString} {rand : App.ChatRandom} {c : Chat}
    (hfresh : rand.id.val ∉ app.chatIds ++ app.removedIds)
    (h : app₁.createChat name serverIds chatId keyB64 rand = .ok (c, app')) :
    app.KeepsAway app' := by
  obtain ⟨hchats', hremoved', hmessages', hunread'⟩ := App.createChat_state h
  rw [List.mem_append, not_or] at hfresh
  refine ⟨fun id hid => .inr ?_, fun id _ => ?_, fun id hid => ?_, fun id hid hnot => ?_⟩
  · rw [hchats', hchats, List.mem_append, List.mem_singleton, not_or] at hid
    refine ⟨hid.1, ?_⟩
    rw [hmessages', hmessages, OrderedMap.get?_set, if_neg hid.2]
  · rw [hunread', hunread]
  · rwa [hremoved', hremoved]
  · rw [hchats', hchats, List.mem_append, List.mem_singleton, not_or]
    refine ⟨hnot, ?_⟩
    rintro rfl
    exact hfresh.2 hid

theorem App.keepsAway_removeChat (app : App) (id : JsString) : app.KeepsAway (app.removeChat id) where
  messages id' hid' := by
    by_cases hid : id' = id
    · subst hid
      left
      exact (OrderedMap.get?_delete _ _ _).trans (if_pos rfl)
    · right
      constructor
      · intro hmem
        obtain ⟨c, hc, rfl⟩ := List.mem_map.mp hmem
        apply hid'
        exact List.mem_map_of_mem (List.mem_filter.mpr ⟨hc, by simpa using hid⟩)
      · exact (OrderedMap.get?_delete _ _ _).trans (if_neg hid)
  unread _ _ := rfl
  removed id' hid' := by
    change id' ∈ (app.state.removedChats ++ _).map Chat.id
    rw [List.map_append]
    exact List.mem_append_left _ hid'
  absent id' _ hnot hmem := by
    obtain ⟨c, hc, rfl⟩ := List.mem_map.mp hmem
    exact hnot (List.mem_map_of_mem (List.mem_of_mem_filter hc))

/-- A chat that is removed is one of the removed chats, and no more in the list. -/
theorem App.mem_removedIds_removeChat {id : JsString} (h : id ∈ app.chatIds) :
    id ∈ (app.removeChat id).removedIds ∧ id ∉ (app.removeChat id).chatIds ∧
      (app.removeChat id).state.messages.get? id = none := by
  obtain ⟨c, hc, rfl⟩ := List.mem_map.mp h
  refine ⟨?_, ?_, ?_⟩
  · change c.id ∈ (app.state.removedChats ++ _).map Chat.id
    rw [List.map_append]
    exact List.mem_append_right _ (List.mem_map_of_mem (List.mem_filter.mpr ⟨hc, by simp⟩))
  · intro hmem
    obtain ⟨c', hc', heq⟩ := List.mem_map.mp hmem
    have hne := (List.mem_filter.mp hc').2
    simp [heq] at hne
  · exact (OrderedMap.get?_delete _ _ _).trans (if_pos rfl)

theorem App.keepsAway_setActiveChat {id : Option JsString} (h : ∀ cid ∈ id, cid ∈ app.chatIds) :
    app.KeepsAway (app.setActiveChat id) := by
  obtain ⟨messages, unreadCounts, _, heq, hothers⟩ := app.setActiveChat_eq id
  -- Only the chat that is opened is touched, and it is one of the list.
  have hne : ∀ cid ∉ app.chatIds, id ≠ some cid := fun cid hcid hid => hcid (h cid hid)
  rw [heq]
  apply keepsAway_of_chats
  · rfl
  · rfl
  · intro cid hcid
    exact ((hothers cid).2 (hne cid hcid)).1
  · intro cid hcid
    exact ((hothers cid).2 (hne cid hcid)).2

/-- One round of the loop touches the chat of the poll only, and leaves it a list of
    messages. -/
theorem PollLoop.round_chats {loop : PollLoop} {next : PendingMessage} {rest : List PendingMessage}
    {after : Option Execution}
    (h : (loop.deliver W app next).2.proceed (loop.deliver W app next).1 rest = (app', after)) :
    app'.chatIds = app.chatIds ∧ app'.removedIds = app.removedIds ∧
      loop.chat.id ∈ app'.state.messages.keys ∧
      ∀ id ≠ loop.chat.id, app'.state.messages.get? id = app.state.messages.get? id ∧
        app'.state.unreadCounts.get? id = app.state.unreadCounts.get? id := by
  have hdeliver : (loop.deliver W app next).1.chatIds = app.chatIds ∧
      (loop.deliver W app next).1.removedIds = app.removedIds ∧
      (loop.deliver W app next).1.state.messages = app.state.messages.set loop.chat.id
        (app.messagesOf loop.chat.id ++ [loop.received W next]) ∧
      (loop.deliver W app next).1.state.unreadCounts = app.state.unreadCounts := by
    unfold PollLoop.deliver
    cases loop.isActive <;> exact ⟨rfl, rfl, rfl, rfl⟩
  obtain ⟨hchats, hremoved, hmessages, hunread⟩ := hdeliver
  have hkey : loop.chat.id ∈ (loop.deliver W app next).1.state.messages.keys := by
    rw [hmessages, OrderedMap.mem_keys_set]
    exact .inl rfl
  have hget : ∀ id ≠ loop.chat.id, (loop.deliver W app next).1.state.messages.get? id =
      app.state.messages.get? id := by
    intro id hid
    rw [hmessages, OrderedMap.get?_set, if_neg hid]
  cases rest with
  | cons next' rest =>
    cases h
    exact ⟨hchats, hremoved, hkey, fun id hid => ⟨hget id hid, congrArg (·.get? id) hunread⟩⟩
  | nil =>
    -- The poll ends: its counter is set.
    cases h
    obtain ⟨chats, removedChats, storage, hids, hremovedIds, heq⟩ :=
      (loop.deliver W app next).2.finish_eq (loop.deliver W app next).1
    simp only [heq]
    split
    · refine ⟨hids.trans hchats, hremovedIds.trans hremoved, hkey, fun id hid => ⟨hget id hid, ?_⟩⟩
      rw [← hunread]
      exact (OrderedMap.get?_set _ _ _ _).trans (if_neg hid)
    · exact ⟨hids.trans hchats, hremovedIds.trans hremoved, hkey, fun id hid =>
        ⟨hget id hid, congrArg (·.get? id) hunread⟩⟩

/-- The end of a send touches its chat only, and leaves it a list of messages. -/
theorem Outgoing.settle_chats (app : App) (o : Outgoing) (accepted : List Bool) :
    (o.settle app accepted).1.chatIds = app.chatIds ∧
      (o.settle app accepted).1.removedIds = app.removedIds ∧
      o.chat.id ∈ (o.settle app accepted).1.state.messages.keys ∧
      ∀ id ≠ o.chat.id,
        (o.settle app accepted).1.state.messages.get? id = app.state.messages.get? id ∧
          (o.settle app accepted).1.state.unreadCounts.get? id = app.state.unreadCounts.get? id := by
  rw [Outgoing.settle_fst]
  refine ⟨rfl, rfl, OrderedMap.mem_keys_set.mpr (.inl rfl), fun id hid => ⟨?_, rfl⟩⟩
  exact (OrderedMap.get?_set _ _ _ _).trans (if_neg hid)

/-- A call touches chats of the list only, if the chats that it opens and creates are genuine. -/
theorem App.keepsAway_apply {a : Action} (ha : p.Genuine (.act a)) : p.app.KeepsAway (a.apply p.app) := by
  cases a with
  | addServer url token label id =>
    simp only [Action.apply]
    split
    · rename_i server app' hadd
      rw [addServer_eq_ok hadd]
      exact keepsAway_of_chats rfl rfl (fun _ _ => rfl) fun _ _ => rfl
    · exact .refl p.app
  | removeServer id => exact keepsAway_of_chats rfl rfl (fun _ _ => rfl) fun _ _ => rfl
  | createChat name serverIds chatId keyB64 rand =>
    simp only [Action.apply]
    split
    · rename_i c app' hcreate
      exact .createChat rfl rfl rfl rfl ha hcreate
    · exact .refl p.app
  | importChat data fresh rand =>
    obtain ⟨hchats, hremoved, hmessages, hunread⟩ := importServers_state p.app fresh data.servers
    rw [Action.apply]
    rcases p.app.importChat_cases data fresh rand with ⟨e, heq | heq⟩ |
      ⟨serverIds, c, app', hcreate, -, heq⟩
    · rw [heq]
      exact .refl p.app
    · -- The servers that were added before the error stay.
      rw [heq]
      refine keepsAway_of_chats hchats hremoved (fun id _ => ?_) fun id _ => ?_
      · rw [hmessages]
      · rw [hunread]
    · rw [heq]
      exact .createChat hchats hremoved hmessages hunread ha hcreate
  | removeChat id => exact p.app.keepsAway_removeChat id
  | setActiveChat id => exact keepsAway_setActiveChat ha
  | reload identity => exact ha.elim

/-- **What one step touches**: the chats of the list, or the chat that an execution has a
    message to add to. -/
theorem Page.step_chats (W : WebCrypto) (he : p.Genuine e) :
    (p.app.KeepsAway (p.step W e).app ∧ p.Present e) ∨
      ∃ cid, (p.Present e ↔ cid ∈ p.app.chatIds) ∧
        (p.step W e).app.chatIds = p.app.chatIds ∧ (p.step W e).app.removedIds = p.app.removedIds ∧
        cid ∈ (p.step W e).app.state.messages.keys ∧
        ∀ id ≠ cid, (p.step W e).app.state.messages.get? id = p.app.state.messages.get? id ∧
          (p.step W e).app.state.unreadCounts.get? id = p.app.state.unreadCounts.get? id := by
  cases e with
  | act a => exact .inl ⟨App.keepsAway_apply he, trivial⟩
  | send text ttl rand =>
    rw [(p.app_step_start W).1]
    exact .inl ⟨.refl p.app, trivial⟩
  | poll id =>
    rw [(p.app_step_start W).2]
    exact .inl ⟨.refl p.app, trivial⟩
  | resume k r =>
    rcases p.resume_cases W k r with ⟨hstep, hloop, hpost⟩ |
      ⟨loop, next, rest, after, rfl, hx, hround⟩ | ⟨o, accepted, rfl, hx, hstep⟩
    · -- No message is added, so no chat is needed.
      rw [hstep]
      refine .inl ⟨.refl p.app, ?_⟩
      cases r with
      | decrypted =>
        simp only [Present]
        split
        · rename_i loop next rest hx
          exact absurd hx (hloop rfl loop next rest)
        · trivial
      | posted accepted =>
        simp only [Present]
        split
        · rename_i o hx
          exact absurd hx (hpost accepted rfl o)
        · trivial
      | _ => trivial
    · exact .inr ⟨loop.chat.id, by simp [Present, hx], PollLoop.round_chats hround⟩
    · rw [hstep]
      exact .inr ⟨o.chat.id, by simp [Present, hx], o.settle_chats p.app accepted⟩

/-! ## Runs -/

/-- What stays so of a removed chat. -/
structure Page.Gone (p : Page) (id : JsString) (unread : Option Nat) : Prop where
  absent : id ∉ p.app.chatIds
  removed : id ∈ p.app.removedIds
  messages : p.app.state.messages.get? id = none
  unread : p.app.state.unreadCounts.get? id = unread

theorem Page.Tidy.step (he : p.Genuine e) (hpresent : p.Present e) (h : p.Tidy) :
    (p.step W e).Tidy := by
  intro id hid
  rcases Page.step_chats W he with ⟨haway, -⟩ | ⟨cid, hcid, hchats, -, -, hothers⟩
  · by_contra hnot
    rcases haway.messages id hnot with hnone | ⟨habsent, hsame⟩
    · exact OrderedMap.get?_eq_none.mp hnone hid
    · have hkey : id ∈ p.app.state.messages.keys := by
        by_contra hkey
        rw [← OrderedMap.get?_eq_none, ← hsame, OrderedMap.get?_eq_none] at hkey
        exact hkey hid
      exact habsent (h id hkey)
  · rw [hchats]
    by_cases heq : id = cid
    · rw [heq]
      exact hcid.mp hpresent
    · have hkey : id ∈ p.app.state.messages.keys := by
        by_contra hkey
        rw [← OrderedMap.get?_eq_none, ← (hothers id heq).1, OrderedMap.get?_eq_none] at hkey
        exact hkey hid
      exact h id hkey

theorem Page.not_tidy_step (he : p.Genuine e) (hpresent : ¬ p.Present e) : ¬ (p.step W e).Tidy := by
  intro h
  rcases Page.step_chats W he with ⟨-, hok⟩ | ⟨cid, hcid, hchats, -, hkey, -⟩
  · exact hpresent hok
  · apply hpresent
    rw [hcid, ← hchats]
    exact h cid hkey

theorem Page.Gone.step {id : JsString} {unread : Option Nat} (he : p.Genuine e)
    (hpresent : p.Present e) (h : p.Gone id unread) : (p.step W e).Gone id unread := by
  rcases Page.step_chats W he with ⟨haway, -⟩ | ⟨cid, hcid, hchats, hremoved, -, hothers⟩
  · have habsent := haway.absent id h.removed h.absent
    refine ⟨habsent, haway.removed id h.removed, ?_, ?_⟩
    · rcases haway.messages id habsent with hnone | ⟨-, hsame⟩
      · exact hnone
      · rw [hsame, h.messages]
    · rw [haway.unread id habsent, h.unread]
  · have hne : id ≠ cid := by
      rintro rfl
      exact h.absent (hcid.mp hpresent)
    obtain ⟨hmessages, hunread⟩ := hothers id hne
    exact ⟨hchats ▸ h.absent, hremoved ▸ h.removed, hmessages.trans h.messages,
      hunread.trans h.unread⟩

end Step

/-- **A removed chat stays removed**, in all states that a run reaches, if and only if every
    execution of the run that adds a message to its chat finds the chat still there. -/
theorem removed_chats_stay_removed_iff (W : WebCrypto) {p : Page} (hp : p.Tidy)
    {es : List PageEvent} (hes : Along (Page.step W) Page.Genuine p es) :
    StaysRemoved W p es ↔ Along (Page.step W) Page.Present p es := by
  have hexact : (∀ fs, fs <+: es → (run (Page.step W) p fs).Tidy) ↔
      Along (Page.step W) Page.Present p es :=
    along_iff_prefixes Page.Tidy Page.Tidy hes (fun _ h => h) (fun p e he hok h => h.step he hok)
      (fun p e he hok _ => Page.not_tidy_step he hok) hp
  constructor
  · intro h
    exact hexact.mp h.tidy
  · intro h
    refine ⟨hexact.mpr h, fun fs id gs hpart hid => ?_⟩
    obtain ⟨-, hgenuine⟩ := along_append.mp (hes.initial hpart)
    obtain ⟨-, hpresent⟩ := along_append.mp (h.initial hpart)
    rw [run_append, run_cons]
    obtain ⟨hremoved, habsent, hmessages⟩ := App.mem_removedIds_removeChat hid
    -- The chat is gone after its removal, and stays so.
    have hgone : (run (Page.step W) (Page.step W (run (Page.step W) p fs) (.act (.removeChat id))) gs).Gone
        id ((run (Page.step W) p fs).app.state.unreadCounts.get? id) := by
      refine (hgenuine.2.and hpresent.2).invariant (fun p => p.Gone id _) ?_
        fun p e hok h => h.step hok.1 hok.2
      exact ⟨habsent, hremoved, hmessages, rfl⟩
    exact ⟨hgone.messages, hgone.unread⟩

/-! ## Removals during an execution -/

/-- On a page that has just been loaded, the chats of the list have messages. -/
theorem Page.tidy_load (storage : LocalStorage) (identity : JsString) :
    (Page.load storage identity).Tidy := by
  have hfold : ∀ (chats : List Chat) (m : OrderedMap JsString (List Message)),
      ∀ id ∈ (chats.foldl (fun m c => if (m.get? c.id).isNone then m.set c.id [] else m) m).keys,
        id ∈ m.keys ∨ id ∈ chats.map Chat.id := by
    intro chats
    induction chats with
    | nil => exact fun m id hid => .inl hid
    | cons c chats ih =>
      intro m id hid
      rw [List.foldl_cons] at hid
      rcases ih _ id hid with hkey | hrest
      · split at hkey
        · rcases OrderedMap.mem_keys_set.mp hkey with rfl | hkey
          · exact .inr List.mem_cons_self
          · exact .inl hkey
        · exact .inl hkey
      · exact .inr (List.mem_cons_of_mem _ hrest)
  intro id hid
  rcases hfold (storage.chats.getD []) .empty id hid with hempty | hchat
  · exact absurd hempty List.not_mem_nil
  · exact hchat

/-- The chat is removed while a poll awaits its answers, which bring nothing. -/
def removedInTime : List PageEvent :=
  [.act (.setActiveChat (some Sample.id)), .send (js "abc") (some 0) (Sample.draw 2),
    .resume 0 (.posted [true, true]), .poll Sample.id, .resume 0 .imported,
    .act (.removeChat Sample.id),
    .act (.createChat (js "c") Sample.serverIds [] [] (Sample.chatDraw true)),
    .resume 0 (.answered [[], []])]

theorem removed_in_time_stays_removed : StaysRemoved sampleCrypto samplePage removedInTime :=
  (removed_chats_stay_removed_iff sampleCrypto (Page.tidy_load _ []) (by decide +kernel)).mpr
    (by decide +kernel)

/-- The chat is removed while its poll decrypts a message. -/
def removedWhileDecrypting : List PageEvent :=
  answeredPoll ++ .act (.removeChat Sample.id) :: [.resume 0 .decrypted]

/-- The chat is removed while a message to it is posted. -/
def removedWhilePosting : List PageEvent :=
  [.act (.setActiveChat (some Sample.id)), .send (js "abc") (some 0) (Sample.draw 2)] ++
    .act (.removeChat Sample.id) :: [.resume 0 (.posted [true, true])]

/-- The message is added to the removed chat, which has messages again. -/
theorem removed_chat_comes_back :
    samplePage.Tidy ∧
      Along (Page.step sampleCrypto) Page.Genuine samplePage removedWhileDecrypting ∧
      ¬ StaysRemoved sampleCrypto samplePage removedWhileDecrypting ∧
      Along (Page.step sampleCrypto) Page.Genuine samplePage removedWhilePosting ∧
      ¬ StaysRemoved sampleCrypto samplePage removedWhilePosting := by
  refine ⟨Page.tidy_load _ [], by decide +kernel, fun h => ?_, by decide +kernel, fun h => ?_⟩
  · have hgone := (h.removed _ Sample.id _ (List.prefix_refl _) (by decide +kernel)).1
    rw [OrderedMap.get?_eq_none] at hgone
    revert hgone
    decide +kernel
  · have hgone := (h.removed _ Sample.id _ (List.prefix_refl _) (by decide +kernel)).1
    rw [OrderedMap.get?_eq_none] at hgone
    revert hgone
    decide +kernel

end Frag
