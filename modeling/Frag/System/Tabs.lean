import Frag.Client.Page

/-!
# Tabs

Several instances of the application, each with its own memory and suspended executions, over
the `localStorage` of one origin. An instance is initialised by a `reload`. An event of an
instance touches the stored list of chats at most once, to load it or to save it, so reading and
writing it in one event is as fine as one access at a time.

## Main results

- `Page.lists`: when an event of an instance writes the stored list of chats, and what; only a
  `reload` gives the list of the instance chats that it did not create.
-/

namespace Frag

open Runs

/-! ## Instances -/

/-- What an instance keeps in memory. -/
structure Tab where
  state : State
  running : List Execution

/-- The instances and what they share. -/
structure Tabs (ι : Type) where
  storage : LocalStorage
  tabs : ι → Tab

namespace Tabs

variable {ι : Type} [DecidableEq ι]

/-- The page an instance works on. -/
def page (w : Tabs ι) (i : ι) : Page where
  app := { state := (w.tabs i).state, storage := w.storage }
  running := (w.tabs i).running

/-- One event of one instance. -/
def step (W : WebCrypto) (w : Tabs ι) (e : ι × PageEvent) : Tabs ι :=
  let p := (w.page e.1).step W e.2
  { storage := p.app.storage
    tabs := fun j => if j = e.1 then { state := p.app.state, running := p.running } else w.tabs j }

end Tabs

/-! ## Chats of an instance -/

/-- All of a chat but its cursor. -/
def Chat.setup (c : Chat) : Chat := { c with lastSince := 0 }

@[simp] theorem Chat.id_setup (c : Chat) : c.setup.id = c.id := rfl

/-- A list of chats has the chat, with any cursor. -/
def HasChat (chats : List Chat) (c : Chat) : Prop := c.setup ∈ chats.map Chat.setup

instance (chats : List Chat) (c : Chat) : Decidable (HasChat chats c) :=
  inferInstanceAs (Decidable (_ ∈ _))

theorem setup_withLastSince (id : JsString) (since : Int) (c : Chat) :
    (App.withLastSince id since c).setup = c.setup := by
  unfold App.withLastSince
  split <;> rfl

theorem hasChat_withLastSince (id : JsString) (since : Int) (chats : List Chat) (c : Chat) :
    HasChat (chats.map (App.withLastSince id since)) c ↔ HasChat chats c := by
  rw [HasChat, List.map_map, HasChat]
  have hsetup : Chat.setup ∘ App.withLastSince id since = Chat.setup :=
    funext (setup_withLastSince id since)
  rw [hsetup]

theorem hasChat_append_ne {chats : List Chat} {c c' : Chat} (h : c'.id ≠ c.id) :
    HasChat (chats ++ [c']) c ↔ HasChat chats c := by
  rw [HasChat, List.map_append, List.mem_append, List.map_singleton, List.mem_singleton, HasChat]
  apply or_iff_left
  intro heq
  have hid : c.setup.id = c'.setup.id := congrArg Chat.id heq
  exact h hid.symm

theorem hasChat_filter_ne {chats : List Chat} {c : Chat} {id : JsString} (h : id ≠ c.id) :
    HasChat (chats.filter fun c' => c'.id ≠ id) c ↔ HasChat chats c := by
  simp only [HasChat, List.mem_map, List.mem_filter, decide_eq_true_eq]
  constructor
  · rintro ⟨c', ⟨hc', -⟩, heq⟩
    exact ⟨c', hc', heq⟩
  · rintro ⟨c', hc', heq⟩
    have hid : c'.setup.id = c.setup.id := congrArg Chat.id heq
    exact ⟨c', ⟨hc', fun hremoved => h (hremoved.symm.trans hid)⟩, heq⟩

/-! ## Loading and saving -/

/-- The event writes the list of chats. -/
def Page.Saves (p : Page) : PageEvent → Prop
  | .act (.createChat name serverIds _ _ _) => name ≠ [] ∧ serverIds ≠ []
  | .act (.importChat data fresh rand) => (p.app.importChat data fresh rand).2.isOk
  | .act (.removeChat _) => True
  | .resume k .decrypted =>
    match p.running[k]? with
    | some (.decrypting loop next rest) =>
      rest = [] ∧ p.app.lastSince loop.chat.id < max loop.maxTimestamp next.timestamp
    | _ => False
  | _ => False

instance (p : Page) : ∀ e, Decidable (p.Saves e)
  | .act (.createChat name serverIds _ _ _) =>
    inferInstanceAs (Decidable (name ≠ [] ∧ serverIds ≠ []))
  | .act (.importChat data fresh rand) =>
    inferInstanceAs (Decidable ((p.app.importChat data fresh rand).2.isOk = true))
  | .act (.removeChat _) => .isTrue trivial
  | .act (.addServer _ _ _ _) | .act (.removeServer _) | .act (.setActiveChat _)
  | .act (.reload _) => .isFalse id
  | .resume k .decrypted =>
    show Decidable (match p.running[k]? with | some (.decrypting _ _ _) => _ | _ => False) from
      match p.running[k]? with
      | some (.decrypting loop next rest) => inferInstanceAs (Decidable
          (rest = [] ∧ p.app.lastSince loop.chat.id < max loop.maxTimestamp next.timestamp))
      | some (.importing _) | some (.fetching _) | some (.posting _) | none => .isFalse id
  | .resume _ .imported | .resume _ (.answered _) | .resume _ (.posted _) => .isFalse id
  | .send _ _ _ | .poll _ => .isFalse id

/-- The event does not remove the chat and draws no id that it has. -/
def PageEvent.Spares (c : Chat) : PageEvent → Prop
  | .act (.removeChat id) => id ≠ c.id
  | .act (.createChat _ _ _ _ rand) | .act (.importChat _ _ rand) => rand.id.val ≠ c.id
  | _ => True

instance (c : Chat) : ∀ e, Decidable (PageEvent.Spares c e)
  | .act (.removeChat id) => inferInstanceAs (Decidable (id ≠ c.id))
  | .act (.createChat _ _ _ _ rand) | .act (.importChat _ _ rand) =>
    inferInstanceAs (Decidable (rand.id.val ≠ c.id))
  | .act (.addServer _ _ _ _) | .act (.removeServer _) | .act (.setActiveChat _)
  | .act (.reload _) => .isTrue trivial
  | .send _ _ _ | .poll _ | .resume _ _ => .isTrue trivial

/-- What an event does to the list of an instance and to the stored one: the list is loaded, or
    it is saved as it is afterwards, or it is not written and keeps its chats. -/
structure Page.Lists (W : WebCrypto) (p : Page) (e : PageEvent) : Prop where
  saved : p.Saves e →
    (p.step W e).app.storage.chats = some (p.step W e).app.state.chats
  unsaved : ¬ p.Saves e → (p.step W e).app.storage.chats = p.app.storage.chats
  has : ∀ c, e.Spares c → (∀ identity, e ≠ .act (.reload identity)) →
    (HasChat (p.step W e).app.state.chats c ↔ HasChat p.app.state.chats c)

theorem Page.lists_of_unchanged {W : WebCrypto} {p : Page} {e : PageEvent} (h : ¬ p.Saves e)
    (hstorage : (p.step W e).app.storage.chats = p.app.storage.chats)
    (hchats : (p.step W e).app.state.chats = p.app.state.chats) : p.Lists W e where
  saved hsaves := absurd hsaves h
  unsaved _ := hstorage
  has c _ _ := by rw [hchats]

section Lists

variable {W : WebCrypto} {app app' : App} {p : Page}

/-- What a successful `createChat` does to the lists. -/
theorem App.createChat_lists {name : JsString} {serverIds : List JsString} {chatId keyB64 : JsString}
    {rand : App.ChatRandom} {c : Chat}
    (h : app.createChat name serverIds chatId keyB64 rand = .ok (c, app')) :
    c.id = rand.id.val ∧ app'.state.chats = app.state.chats ++ [c] ∧
      app'.storage.chats = some app'.state.chats := by
  obtain ⟨-, rfl, rfl⟩ := App.createChat_eq_ok h
  exact ⟨rfl, rfl, rfl⟩

theorem App.createChat_eq_error {name : JsString} {serverIds : List JsString}
    {chatId keyB64 : JsString} {rand : App.ChatRandom} {e : Failure}
    (h : app.createChat name serverIds chatId keyB64 rand = .error e) :
    ¬ (name ≠ [] ∧ serverIds ≠ []) := by
  rintro ⟨hname, hservers⟩
  simp [App.createChat, hname, hservers] at h

theorem App.storage_importServers (app : App) (fresh : Nat → JsString)
    (servers : List ExportedServer) :
    (app.importServers fresh servers).1.storage.chats = app.storage.chats := by
  obtain ⟨_, _, _, heq⟩ := app.importServers_eq fresh servers
  rw [heq]

/-- What `importChat` does to the lists: if it succeeds, it creates a chat. -/
theorem App.importChat_lists (app : App) (data : ExportedChat) (fresh : Nat → JsString)
    (rand : App.ChatRandom) :
    (∃ c, (app.importChat data fresh rand).2 = .ok c ∧ c.id = rand.id.val ∧
        (app.importChat data fresh rand).1.state.chats = app.state.chats ++ [c] ∧
        (app.importChat data fresh rand).1.storage.chats =
          some (app.importChat data fresh rand).1.state.chats) ∨
      (∃ e, (app.importChat data fresh rand).2 = .error e) ∧
        (app.importChat data fresh rand).1.state.chats = app.state.chats ∧
        (app.importChat data fresh rand).1.storage.chats = app.storage.chats := by
  have hchats := chats_importServers app fresh data.servers
  have hstorage := storage_importServers app fresh data.servers
  rcases app.importChat_cases data fresh rand with ⟨e, heq | heq⟩ | ⟨serverIds, c, app', hcreate, -, heq⟩
  · rw [heq]
    exact .inr ⟨⟨e, rfl⟩, rfl, rfl⟩
  · rw [heq]
    exact .inr ⟨⟨e, rfl⟩, hchats, hstorage⟩
  · rw [heq]
    obtain ⟨hid, happend, hsaved⟩ := createChat_lists hcreate
    exact .inl ⟨c, rfl, hid, by rw [happend, hchats], hsaved⟩

/-- What one round of the loop of `pollChat` does to the lists: at its end the cursor is saved,
    if it has moved. -/
theorem PollLoop.round_lists {loop : PollLoop} {next : PendingMessage} {rest : List PendingMessage}
    {after : Option Execution}
    (h : (loop.deliver W app next).2.proceed (loop.deliver W app next).1 rest = (app', after)) :
    (∀ c, HasChat app'.state.chats c ↔ HasChat app.state.chats c) ∧
      (if rest = [] ∧ app.lastSince loop.chat.id < max loop.maxTimestamp next.timestamp then
        app'.storage.chats = some app'.state.chats
      else app'.storage.chats = app.storage.chats) := by
  have hsame : app.SameSetup (loop.deliver W app next).1 := loop.sameSetup_deliver next
  cases rest with
  | cons next' rest =>
    cases h
    refine ⟨fun c => by rw [hsame.chats], ?_⟩
    rw [if_neg (by simp), hsame.storage]
  | nil =>
    cases h
    have hmax : (loop.deliver W app next).2.maxTimestamp = max loop.maxTimestamp next.timestamp :=
      (max_def_lt _ _).symm
    have hsince := hsame.lastSince loop.chat.id
    change (∀ c, HasChat (PollLoop.finish _ _).state.chats c ↔ _) ∧
      (if _ then (PollLoop.finish _ _).storage.chats = some (PollLoop.finish _ _).state.chats
        else (PollLoop.finish _ _).storage.chats = _)
    rcases PollLoop.finish_cases (loop.deliver W app next).1 (loop.deliver W app next).2 with
      ⟨hlt, hfinish⟩ | ⟨hle, hfinish⟩
    · -- The cursor moves: the whole list is saved.
      rw [hmax] at hlt
      have hcursor : app.lastSince loop.chat.id < max loop.maxTimestamp next.timestamp :=
        hsince ▸ hlt
      refine ⟨fun c => ?_, ?_⟩
      · rw [hfinish.chats]
        exact (hasChat_withLastSince _ _ _ _).trans (by rw [hsame.chats])
      · rw [if_pos ⟨rfl, hcursor⟩, hfinish.storage, hfinish.chats]
        rfl
    · rw [hmax] at hle
      have hcursor : ¬ app.lastSince loop.chat.id < max loop.maxTimestamp next.timestamp :=
        not_lt.mpr (hsince ▸ hle)
      refine ⟨fun c => by rw [hfinish.chats, hsame.chats], ?_⟩
      rw [if_neg fun h => hcursor h.2, hfinish.storage, hsame.storage]

theorem Page.lists_act (W : WebCrypto) (p : Page) (a : Action) : p.Lists W (.act a) := by
  cases a with
  | addServer url token label id =>
    have hadd : (Action.apply p.app (.addServer url token label id)).storage.chats =
        p.app.storage.chats ∧
        (Action.apply p.app (.addServer url token label id)).state.chats = p.app.state.chats := by
      simp only [Action.apply]
      split
      · rename_i server app' hadd
        rw [App.addServer_eq_ok hadd]
        exact ⟨rfl, rfl⟩
      · exact ⟨rfl, rfl⟩
    exact lists_of_unchanged (fun h => h) hadd.1 hadd.2
  | removeServer id => exact lists_of_unchanged (fun h => h) rfl rfl
  | createChat name serverIds chatId keyB64 rand =>
    cases hcreate : p.app.createChat name serverIds chatId keyB64 rand with
    | error e =>
      have hstep : (p.step W (.act (.createChat name serverIds chatId keyB64 rand))).app = p.app := by
        simp [Page.step, Action.apply, hcreate]
      have hunsaved : ¬ p.Saves (.act (.createChat name serverIds chatId keyB64 rand)) :=
        App.createChat_eq_error hcreate
      exact lists_of_unchanged hunsaved (by rw [hstep]) (by rw [hstep])
    | ok result =>
      obtain ⟨c', app'⟩ := result
      have hstep : (p.step W (.act (.createChat name serverIds chatId keyB64 rand))).app = app' := by
        simp [Page.step, Action.apply, hcreate]
      obtain ⟨hid, happend, hsaved⟩ := App.createChat_lists hcreate
      refine ⟨fun _ => ?_, fun hunsaved => ?_, fun c hspares _ => ?_⟩
      · rw [hstep, hsaved]
      · -- What is created is saved.
        exact absurd (App.createChat_eq_ok hcreate).1 hunsaved
      · rw [hstep, happend]
        exact hasChat_append_ne (hid ▸ hspares)
  | importChat data fresh rand =>
    have hstep : (p.step W (.act (.importChat data fresh rand))).app =
        (p.app.importChat data fresh rand).1 := rfl
    rcases p.app.importChat_lists data fresh rand with ⟨c', hok, hid, happend, hsaved⟩ |
      ⟨⟨e, herror⟩, hchats, hstorage⟩
    · refine ⟨fun _ => hsaved, fun hunsaved => ?_, fun c hspares _ => ?_⟩
      · exact absurd (by rw [Saves, hok]; rfl) hunsaved
      · rw [hstep, happend]
        exact hasChat_append_ne (hid ▸ hspares)
    · have hunsaved : ¬ p.Saves (.act (.importChat data fresh rand)) := by
        rw [Saves, herror]
        exact Bool.false_ne_true
      exact lists_of_unchanged hunsaved hstorage hchats
  | removeChat id =>
    exact ⟨fun _ => rfl, fun h => absurd trivial h, fun c hspares _ => hasChat_filter_ne hspares⟩
  | setActiveChat id =>
    obtain ⟨_, _, _, heq, -⟩ := p.app.setActiveChat_eq id
    have hstep : (p.step W (.act (.setActiveChat id))).app = p.app.setActiveChat id := rfl
    exact lists_of_unchanged (fun h => h) (by rw [hstep, heq]) (by rw [hstep, heq])
  | reload identity =>
    -- The list is loaded, so nothing is said about its chats.
    exact ⟨fun h => h.elim, fun _ => rfl, fun c _ h => absurd rfl (h identity)⟩

/-- **Loading and saving**: what every event does to the list of chats of its instance and to
    the stored one. -/
theorem Page.lists (W : WebCrypto) (p : Page) (e : PageEvent) : p.Lists W e := by
  cases e with
  | act a => exact p.lists_act W a
  | send text ttl rand =>
    have hstep := (p.app_step_start W).1 text ttl rand
    exact lists_of_unchanged (fun h => h) (by rw [hstep]) (by rw [hstep])
  | poll id =>
    have hstep := (p.app_step_start W).2 id
    exact lists_of_unchanged (fun h => h) (by rw [hstep]) (by rw [hstep])
  | resume k r =>
    rcases p.resume_cases W k r with ⟨hstep, hloop, -⟩ | ⟨loop, next, rest, after, rfl, hx, hround⟩ |
      ⟨o, accepted, rfl, -, hstep⟩
    · refine lists_of_unchanged (fun hsaves => ?_) (by rw [hstep]) (by rw [hstep])
      cases r with
      | decrypted =>
        simp only [Saves] at hsaves
        split at hsaves
        · rename_i loop next rest hx
          exact hloop rfl loop next rest hx
        · exact hsaves
      | _ => exact hsaves
    · -- The round that ends the loop saves the cursor, if it has moved.
      obtain ⟨hhas, hstorage⟩ := PollLoop.round_lists hround
      constructor
      · intro hsaves
        simp only [Saves, hx] at hsaves
        rwa [if_pos hsaves] at hstorage
      · intro hunsaved
        simp only [Saves, hx] at hunsaved
        rwa [if_neg hunsaved] at hstorage
      · intro c _ _
        exact hhas c
    · have hsettle : (o.settle p.app accepted).1.storage = p.app.storage ∧
          (o.settle p.app accepted).1.state.chats = p.app.state.chats := by
        rw [Outgoing.settle_fst]
        exact ⟨rfl, rfl⟩
      have hunsaved : ¬ p.Saves (.resume k (.posted accepted)) := fun h => h
      exact lists_of_unchanged hunsaved (by rw [hstep, hsettle.1]) (by rw [hstep, hsettle.2])

end Lists

end Frag
