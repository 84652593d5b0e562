import Frag.Guarantees.Overlap
import Frag.System.Tabs

/-!
# Chats of Several Tabs

Every instance loads the list of chats once and saves its own copy as a whole: when it creates
or removes a chat, and when a poll moves a cursor. A chat that another instance has created
since is not in the copy.

## Main results

- `chat_survives_iff`: a chat stays in the stored list exactly as long as all instances that
  save the list have it in theirs.
-/

namespace Frag

open Runs

/-- The event creates the chat. -/
def Page.Creates (p : Page) (c : Chat) : PageEvent → Prop
  | .act (.createChat name serverIds chatId keyB64 rand) =>
    (p.app.createChat name serverIds chatId keyB64 rand).map Prod.fst = .ok c
  | .act (.importChat data fresh rand) => (p.app.importChat data fresh rand).2 = .ok c
  | _ => False

namespace Tabs

variable {ι : Type} [DecidableEq ι] {W : WebCrypto} {w : Tabs ι} {c : Chat}

/-- The stored list of chats has the chat. -/
def Stored (w : Tabs ι) (c : Chat) : Prop := HasChat (w.storage.chats.getD []) c

/-- An event that writes the stored list is one of an instance whose list has the chat. -/
def Informed (c : Chat) (w : Tabs ι) (e : ι × PageEvent) : Prop :=
  (w.page e.1).Saves e.2 → HasChat (w.tabs e.1).state.chats c

instance (w : Tabs ι) (c : Chat) : Decidable (w.Stored c) :=
  inferInstanceAs (Decidable (HasChat _ _))

instance (c : Chat) (w : Tabs ι) (e : ι × PageEvent) : Decidable (Informed c w e) :=
  inferInstanceAs (Decidable (_ → _))

/-! ## One event -/

/-- An event of an informed instance keeps the chat stored. -/
theorem Stored.step {e : ι × PageEvent} (hspares : e.2.Spares c) (hinformed : Informed c w e)
    (h : w.Stored c) : (w.step W e).Stored c := by
  obtain ⟨i, e⟩ := e
  have hlists := (w.page i).lists W e
  change HasChat (((w.page i).step W e).app.storage.chats.getD []) c
  by_cases hsaves : (w.page i).Saves e
  · rw [hlists.saved hsaves, Option.getD_some, hlists.has c hspares]
    · exact hinformed hsaves
    · rintro identity rfl
      exact hsaves.elim
  · rw [hlists.unsaved hsaves]
    exact h

/-- An instance that does not have the chat overwrites it. -/
theorem not_stored_step {e : ι × PageEvent} (hspares : e.2.Spares c)
    (hinformed : ¬ Informed c w e) : ¬ (w.step W e).Stored c := by
  obtain ⟨i, e⟩ := e
  have hlists := (w.page i).lists W e
  obtain ⟨hsaves, hnot⟩ := Classical.not_imp.mp hinformed
  change ¬ HasChat (((w.page i).step W e).app.storage.chats.getD []) c
  rw [hlists.saved hsaves, Option.getD_some, hlists.has c hspares]
  · exact hnot
  · rintro identity rfl
    exact hsaves.elim

/-- A chat is stored when it is created. -/
theorem stored_of_creates {i : ι} {e : PageEvent} (h : (w.page i).Creates c e) :
    (w.step W (i, e)).Stored c := by
  -- The chat is put last, and the list is saved.
  have hmem : ∀ chats : List Chat, HasChat (chats ++ [c]) c := by
    intro chats
    rw [HasChat, List.map_append]
    exact List.mem_append_right _ List.mem_cons_self
  change HasChat (((w.page i).step W e).app.storage.chats.getD []) c
  cases e with
  | act a =>
    cases a with
    | createChat name serverIds chatId keyB64 rand =>
      simp only [Page.Creates] at h
      cases hcreate : (w.page i).app.createChat name serverIds chatId keyB64 rand with
      | error err =>
        rw [hcreate] at h
        cases h
      | ok result =>
        obtain ⟨c', app'⟩ := result
        rw [hcreate] at h
        cases h
        have hstep : ((w.page i).step W (.act (.createChat name serverIds chatId keyB64 rand))).app =
            app' := by simp [Page.step, Action.apply, hcreate]
        obtain ⟨-, happend, hsaved⟩ := App.createChat_lists hcreate
        rw [hstep, hsaved, Option.getD_some, happend]
        exact hmem _
    | importChat data fresh rand =>
      change HasChat ((((w.page i).app.importChat data fresh rand).1).storage.chats.getD []) c
      rcases (w.page i).app.importChat_lists data fresh rand with ⟨c', hok, -, happend, hsaved⟩ |
        ⟨⟨err, herror⟩, -⟩
      · rw [Page.Creates, hok] at h
        cases h
        rw [hsaved, Option.getD_some, happend]
        exact hmem _
      · rw [Page.Creates, herror] at h
        cases h
    | _ => exact h.elim
  | _ => exact h.elim

end Tabs

/-- **Chats of several tabs**: a chat that an instance has created, and none removes, is in the
    stored list in all states that a run reaches if and only if every instance that writes the
    list in the run has the chat in its own. -/
theorem chat_survives_iff {ι : Type} [DecidableEq ι] (W : WebCrypto) (w : Tabs ι) {i : ι}
    {e : PageEvent} {c : Chat} (hnew : (w.page i).Creates c e) {es : List (ι × PageEvent)}
    (hes : ∀ e ∈ es, e.2.Spares c) :
    (∀ fs, fs <+: es → (run (Tabs.step W) (w.step W (i, e)) fs).Stored c) ↔
      Along (Tabs.step W) (Tabs.Informed c) (w.step W (i, e)) es := by
  have hdom : Along (Tabs.step W) (fun _ e => e.2.Spares c) (w.step W (i, e)) es :=
    along_of_forall hes
  refine along_iff_prefixes (fun w => w.Stored c) (fun w => w.Stored c) hdom ?_ ?_ ?_ ?_
  · exact fun w h => h
  · exact fun w e hspares hinformed h => Tabs.Stored.step hspares hinformed h
  · exact fun w e hspares hinformed _ => Tabs.not_stored_step hspares hinformed
  · exact Tabs.stored_of_creates hnew

/-! ## A background poll -/

/-- Two tabs that are about to be initialised, over a storage with a chat. -/
def sampleTabs : Tabs Bool where
  storage := ⟨some (List.replicate 64 0x62), some Sample.servers, some [Sample.chat]⟩
  tabs _ := { state := App.initialState, running := [] }

/-- Both are initialised. -/
def loadedTabs : Tabs Bool :=
  run (Tabs.step sampleCrypto) sampleTabs [(false, .act (.reload [])), (true, .act (.reload []))]

/-- The chat that one of them creates. -/
def secondChat : Chat where
  id := (Sample.chatObject true).val
  name := js "d"
  serverIds := Sample.serverIds
  chatId := Sample.chatId.val
  keyB64 := Sample.keyB64
  lastSince := 0

def createSecond : PageEvent :=
  .act (.createChat (js "d") Sample.serverIds [] [] (Sample.chatDraw true))

/-- The other one polls the first chat in the background, which has a new message. -/
def backgroundPoll : List (Bool × PageEvent) :=
  (answeredPoll ++ [PageEvent.resume 0 .decrypted]).map fun e => (true, e)

theorem second_chat_survives :
    (run (Tabs.step sampleCrypto) (loadedTabs.step sampleCrypto (false, createSecond))
      ((true, .act (.reload [])) :: backgroundPoll)).Stored secondChat := by
  have hall : ∀ fs, fs <+: (true, .act (.reload [])) :: backgroundPoll →
      (run (Tabs.step sampleCrypto) (loadedTabs.step sampleCrypto (false, createSecond)) fs).Stored
        secondChat :=
    (chat_survives_iff sampleCrypto loadedTabs (by exact rfl) (by decide)).mpr (by decide +kernel)
  exact hall _ List.prefix_rfl

/-- The poll saves a list that does not have the second chat. -/
theorem background_poll_drops_chat :
    (loadedTabs.page false).Creates secondChat createSecond ∧
      (∀ e ∈ backgroundPoll, e.2.Spares secondChat) ∧
      ¬ (run (Tabs.step sampleCrypto) (loadedTabs.step sampleCrypto (false, createSecond))
        backgroundPoll).Stored secondChat := by
  refine ⟨rfl, by decide, ?_⟩
  decide +kernel

end Frag
