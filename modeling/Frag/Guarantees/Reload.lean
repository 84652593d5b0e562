import Frag.Guarantees.Outage

/-!
# Reloading the Page

The servers and chats of a client, with their cursors, are saved whenever they change;
its messages are not saved at all. A reload therefore empties the messages of a chat and
leaves its cursor where it is, and the next poll brings back the messages above the
cursor only.

## Main results

- `World.Saved.step`: what is stored is what is in memory, in every run;
- `history_after_reload`: the history comes back iff the cursor is below all of it.
-/

namespace Frag

open Runs HighWater

variable {B ι : Type} [DecidableEq B] [DecidableEq ι]

namespace World

variable {E : Env B} {cfg : ChatConfig B} {reader : ι} {id : JsString} {w : World B ι}
  {e : Event B ι}

/-! ## The board after a reload -/

omit [DecidableEq B] [DecidableEq ι] in
/-- A stored message of the chat can be fetched iff all its fragments are above the
    cursor. -/
theorem Reading.fetchable_iff (h : Reading E cfg reader id w) {s : Sent ι} (hs : s ∈ w.sent)
    (hin : s.InChat cfg) (hstored : w.Stored E s) :
    Fetchable cfg.sources (view cfg reader id w) s.messageId ↔
      w.StampedAt E s fun t => (w.apps reader).lastSince id < t := by
  constructor
  · intro hfetch p hp r hr hid
    obtain ⟨j, hj⟩ := List.getElem?_of_mem hp
    obtain ⟨t, ht, hlt⟩ := hfetch _ (List.mem_of_getElem? (getElem?_backends h.agreed hs hin hj))
    obtain ⟨r', hr', hid', rfl⟩ := exists_row_of_stamp h.honest h.agreed hs hin hp ht
    obtain rfl := Database.eq_of_id_eq hr hr' (hid.trans hid'.symm)
    exact hlt
  · intro habove b hb
    obtain ⟨j, p, hj, rfl⟩ := exists_post h.agreed hs hin hb
    have hp := List.mem_of_getElem? hj
    obtain ⟨t, ht⟩ := (stored_iff_complete h.honest h.agreed hs hin).mp hstored _ hb
    obtain ⟨r, hr, hid, rfl⟩ := exists_row_of_stamp h.honest h.agreed hs hin hp ht
    exact ⟨r.timestamp, ht, habove p hp r hr hid⟩

/-- A reload keeps the tables, the chat and its cursor, and drops the messages. -/
theorem Saved.reload (h : w.Saved) {chat : Chat} (hfind : w.chat? reader id = some chat)
    (identity : JsString) :
    let w' := w.step E (.act reader (.reload identity))
    w'.chat? reader id = some chat ∧
      (w'.apps reader).state.servers = (w.apps reader).state.servers ∧
      (w'.apps reader).lastSince id = (w.apps reader).lastSince id ∧
      (w'.apps reader).messagesOf id = [] := by
  intro w'
  have happ : w'.apps reader = App.init (w.apps reader).storage identity :=
    Function.update_self _ _ _
  obtain ⟨hservers, hchats⟩ := (h reader).reload identity
  rw [happ]
  refine ⟨?_, hservers, ?_, App.messagesOf_init _ _ _⟩
  · rw [chat?, happ, hchats]
    exact hfind
  · have hfind : (w.apps reader).state.chats.find? (fun c => c.id = id) = some chat := hfind
    rw [App.lastSince, App.chat?, List.find?_append, hchats, hfind, App.lastSince, App.chat?,
      List.find?_append, hfind]
    rfl

end World

/-- **History survives a reload** iff everything that is stored lies above the cursor,
    that is, iff no poll has moved the cursor past a message that is still stored. -/
theorem history_after_reload {E : Env B} {cfg : ChatConfig B} {reader : ι} {id : JsString}
    {w₀ : World B ι} (h₀ : w₀.Blank) (hsaved : w₀.Saved) {es : List (Event B ι)}
    (hes : Along (World.step E) (World.SendStep E cfg) w₀ es) {chat : Chat}
    (hfind : (run (World.step E) w₀ es).chat? reader id = some chat)
    (hc : Holds E cfg ((run (World.step E) w₀ es).apps reader) chat) {up : Server → Bool}
    (hup : (run (World.step E) w₀ es).AllUp reader id up) (identity : JsString) :
    let w := run (World.step E) w₀ es
    (run (World.step E) w [.act reader (.reload identity), .poll reader id up]).ShowsStored
        E cfg reader id ↔
      ∀ s ∈ w.sent, s.InChat cfg → w.Stored E s →
        w.StampedAt E s fun t => (w.apps reader).lastSince id < t := by
  intro w
  obtain ⟨hhonest, hagreed, hsaved⟩ : w.Honest E ∧ w.Agreed E cfg ∧ w.Saved := by
    refine hes.invariant (fun w => w.Honest E ∧ w.Agreed E cfg ∧ w.Saved)
      ⟨h₀.honest, ?_, hsaved⟩ fun w e hok h => ⟨h.1.step hok.1, h.2.1.step hok, h.2.2.step⟩
    intro s hs
    rw [h₀.sent] at hs
    cases hs
  -- `w'` is the world after the reload.
  let w' := w.step E (.act reader (.reload identity))
  obtain ⟨hfind', hservers, hsince, hmsgs⟩ := hsaved.reload (E := E) hfind identity
  have hresolve := App.resolveServers_congr hservers
  have h' : World.Reading E cfg reader id w' :=
    ⟨hhonest.step trivial, hagreed.step ⟨trivial, trivial⟩, chat, hfind', hc.chatId, hc.keyB64,
      by rw [hresolve, hc.backends]⟩
  have hup' : w'.AllUp reader id up := by
    intro chat' hchat' server hserver
    obtain rfl : chat = chat' := Option.some.inj (hfind'.symm.trans hchat')
    exact hup chat hfind server (hresolve _ ▸ hserver)
  have hshown : (World.view cfg reader id w').shown = ∅ := by
    refine Set.eq_empty_iff_forall_notMem.mpr fun m hm => ?_
    have hm : m.val ∈ ((w'.apps reader).messagesOf id).map Message.id := hm
    rw [hmsgs] at hm
    cases hm
  have hstores : ∀ s, w'.StampedAt E s (fun t => (w'.apps reader).lastSince id < t) ↔
      w.StampedAt E s fun t => (w.apps reader).lastSince id < t := by
    intro s
    rw [hsince]
    rfl
  show (w'.step E (.poll reader id up)).ShowsStored E cfg reader id ↔ _
  rw [World.showsStored_poll_iff h' hup']
  constructor
  · intro hcaught s hs hin hstored
    have hcomplete := (World.stored_iff_complete h'.honest h'.agreed hs hin).mp hstored
    rcases hcaught s.messageId hcomplete with hold | hfetch
    · rw [hshown] at hold
      exact absurd hold (Set.notMem_empty _)
    · exact (hstores s).mp ((h'.fetchable_iff hs hin hstored).mp hfetch)
  · intro habove m hm
    obtain ⟨b, hb⟩ := List.exists_mem_of_ne_nil _ cfg.backends_ne
    obtain ⟨t, ht⟩ := hm b hb
    obtain ⟨s, hs, hin, rfl⟩ := h'.exists_sent ht
    have hstored := (World.stored_iff_complete h'.honest h'.agreed hs hin).mpr hm
    exact .inr ((h'.fetchable_iff hs hin hstored).mpr ((hstores s).mpr (habove s hs hin hstored)))

/-- A message is received before the page is reloaded. -/
def readRun : List (Event JsString Bool) :=
  Sample.setup ++ [Sample.say true 1, .post 0 0 100, .post 0 1 100, Sample.look]

/-- One clock, a single message, and no server is down: the reloaded page does not show
    the message, although both servers still store it. -/
theorem reload_loses_history :
    let w := run (World.step Sample.env) Sample.start readRun
    Along (World.step Sample.env)
        (fun w e => w.SendStep Sample.env Sample.config e ∧
          w.PostsInTurn Sample.env Sample.config e ∧
          World.OnPoll false Sample.id (fun up => w.AllUp false Sample.id up) e)
        Sample.start readRun ∧
      w.AllUp false Sample.id (fun _ => true) ∧
      (∀ s ∈ w.sent, s.InChat Sample.config ∧ w.Stored Sample.env s) ∧
      ((w.apps false).messagesOf Sample.id).map Message.text = [js "hi"] ∧
      ¬ (run (World.step Sample.env) w [.act false (.reload []), Sample.look]).ShowsStored
        Sample.env Sample.config false Sample.id := by
  decide +kernel

/-- The page is reloaded before the first poll. -/
def unreadRun : List (Event JsString Bool) :=
  Sample.setup ++ [Sample.say true 1, .post 0 0 100, .post 0 1 100]

theorem reload_before_first_poll :
    let w := run (World.step Sample.env) Sample.start unreadRun
    (∃ s ∈ w.sent, s.InChat Sample.config ∧ w.Stored Sample.env s) ∧
      (run (World.step Sample.env) w [.act false (.reload []), Sample.look]).ShowsStored
        Sample.env Sample.config false Sample.id :=
  ⟨by decide +kernel,
    (history_after_reload Sample.blank_start (fun _ => ⟨rfl, rfl⟩) (by decide +kernel)
      (show _ = some Sample.chat by decide +kernel) (by decide +kernel) (by decide +kernel) []).mpr
        (by decide +kernel)⟩

end Frag
