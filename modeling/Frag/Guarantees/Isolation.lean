import Frag.Backend.Handlers
import Frag.Backend.Calls
import Mathlib.Data.List.Find

/-!
# Chats on One Server

A chat's query filters by chat, but the primary key that decides which POST is stored is
the fragment id alone. So the POSTs of the other chats are invisible to a chat as long as
they do not take one of its ids before it does.

## Main results

- `chat_isolated_iff`: a chat's queries do not depend on the POSTs of other chats, for
  any cursor, iff the chat was the first to POST each of its fragment ids.
-/

namespace Frag

open Runs

/-! ## Arriving POSTs -/

/-- The POSTs are handled in the order of the list, each at its clock reading. -/
def receive (posts : List (FragmentPost Bytes × Int)) : Database :=
  run (fun db p => (makePostFragmentHandler db p.1 p.2).2) .empty posts

/-- The rows that the valid POSTs make. -/
def rowsOf (posts : List (FragmentPost Bytes × Int)) : List (Fragment CString) :=
  (posts.filter fun p => missingMember p.1 = none).map fun p => (p.1.stamped p.2).map cStr

theorem rowsOf_concat (posts : List (FragmentPost Bytes × Int)) (p : FragmentPost Bytes × Int) :
    rowsOf (posts ++ [p]) = rowsOf posts ++
      if missingMember p.1 = none then [(p.1.stamped p.2).map cStr] else [] := by
  rw [rowsOf, List.filter_append, List.map_append, ← rowsOf]
  by_cases h : missingMember p.1 = none
  · simp [h]
  · simp [h]

theorem rows_receive (posts : List (FragmentPost Bytes × Int)) :
    (receive posts).rows = FirstWriter.live Fragment.id (FirstWriter.puts (rowsOf posts)) := by
  induction posts using List.reverseRecOn with
  | nil => rfl
  | append_singleton posts p ih =>
    -- A valid POST is an insert, and an invalid one leaves rows and list as they are.
    rw [receive, run_concat, ← receive, makePostFragmentHandler, rowsOf_concat]
    cases hmissing : missingMember p.1 with
    | some error =>
      rw [if_neg (by simp), List.append_nil]
      exact ih
    | none =>
      rw [if_pos rfl, FirstWriter.live_puts_append, ← ih]
      exact rows_exec (receive posts) (.insertFragment (p.1.stamped p.2))

/-! ## The view of a chat -/

/-- What the chat's GETs return. -/
def chatView (chatId : Bytes) (posts : List (FragmentPost Bytes × Int)) (since : Int) :
    Option (List (Fragment Bytes)) :=
  makeGetFragmentsHandler (receive posts) chatId since

/-- The POSTs that carry a chat id. -/
def ofChat (chatId : Bytes) (posts : List (FragmentPost Bytes × Int)) :
    List (FragmentPost Bytes × Int) :=
  posts.filter fun p => p.1.chatId = chatId

/-- The first valid POST of the id of each valid POST of the chat is one of the chat. -/
def FirstOfItsIds (chatId : Bytes) (posts : List (FragmentPost Bytes × Int)) : Prop :=
  ∀ p ∈ posts, missingMember p.1 = none → p.1.chatId = chatId →
    ∃ q, posts.find? (fun q => missingMember q.1 = none ∧ q.1.id = p.1.id) = some q ∧
      q.1.chatId = chatId

instance (chatId : Bytes) (posts : List (FragmentPost Bytes × Int)) :
    Decidable (FirstOfItsIds chatId posts) :=
  decidable_of_iff (∀ p ∈ posts, missingMember p.1 = none → p.1.chatId = chatId →
      (posts.find? fun q => missingMember q.1 = none ∧ q.1.id = p.1.id).any
        fun q => q.1.chatId = chatId)
    (by simp only [FirstOfItsIds, Option.any_eq_true, decide_eq_true_eq])

/-- The rows of the chat are made of its POSTs. -/
theorem rowsOf_ofChat {chatId : Bytes} {posts : List (FragmentPost Bytes × Int)}
    (hposts : ∀ p ∈ posts, 0 ∉ p.1.chatId) (hchatId : 0 ∉ chatId) :
    rowsOf (ofChat chatId posts) = (rowsOf posts).filter fun r => r.chatId = cStr chatId := by
  rw [rowsOf, rowsOf, ofChat, List.filter_map, List.filter_comm]
  -- Without NUL, chat ids are stored alike only if they are the same.
  refine congrArg _ (List.filter_congr fun p hp => ?_)
  have hmem := (List.mem_filter.mp hp).1
  exact decide_eq_decide.mpr (cStr_inj (hposts p hmem) hchatId).symm

/-- The first row with the id of a POST is made of the first valid POST with that id. -/
theorem find?_rowsOf {posts : List (FragmentPost Bytes × Int)} (hposts : ∀ p ∈ posts, 0 ∉ p.1.id)
    {id : Bytes} (hid : 0 ∉ id) :
    (rowsOf posts).find? (fun r => r.id = cStr id) =
      (posts.find? fun q => missingMember q.1 = none ∧ q.1.id = id).map
        fun p => (p.1.stamped p.2).map cStr := by
  rw [rowsOf, List.find?_map, List.find?_filter]
  refine congrArg _ (List.find?_congr fun p hp => ?_)
  refine decide_eq_decide.mpr (and_congr decide_eq_true_iff ?_)
  exact decide_eq_true_iff.trans (cStr_inj (hposts p hp) hid)

/-- Owning the keys is what the POSTs say about their ids. -/
theorem firstOfItsIds_iff {chatId : Bytes} {posts : List (FragmentPost Bytes × Int)}
    (hposts : ∀ p ∈ posts, 0 ∉ p.1.id ∧ 0 ∉ p.1.chatId) (hchatId : 0 ∉ chatId) :
    FirstOfItsIds chatId posts ↔
      FirstWriter.OwnKeys Fragment.id (fun r => r.chatId = cStr chatId) (rowsOf posts) := by
  have hchat : ∀ p ∈ posts, cStr p.1.chatId = cStr chatId ↔ p.1.chatId = chatId :=
    fun p hp => cStr_inj (hposts p hp).2 hchatId
  have hfind := fun p (hp : p ∈ posts) => find?_rowsOf (fun q hq => (hposts q hq).1) (hposts p hp).1
  constructor
  · intro h r hr hrchat
    obtain ⟨p, hp, rfl⟩ := List.mem_map.mp hr
    obtain ⟨hmem, hvalid⟩ := List.mem_filter.mp hp
    -- The first POST of the id makes the first row of its key.
    obtain ⟨q, hq, hqchat⟩ := h p hmem (by simpa using hvalid)
      ((hchat p hmem).mp (of_decide_eq_true hrchat))
    refine ⟨(q.1.stamped q.2).map cStr, ?_, ?_⟩
    · exact (hfind p hmem).trans (congrArg _ hq)
    · exact decide_eq_true ((hchat q (List.mem_of_find?_eq_some hq)).mpr hqchat)
  · intro h p hmem hvalid hpchat
    have hrow : (p.1.stamped p.2).map cStr ∈ rowsOf posts :=
      List.mem_map.mpr ⟨p, List.mem_filter.mpr ⟨hmem, by simpa using hvalid⟩, rfl⟩
    obtain ⟨r, hr, hrchat⟩ := h _ hrow (decide_eq_true ((hchat p hmem).mpr hpchat))
    -- The first row of the key is made of the first POST of the id.
    obtain ⟨q, hq, rfl⟩ := Option.map_eq_some_iff.mp ((hfind p hmem).symm.trans hr)
    exact ⟨q, hq, (hchat q (List.mem_of_find?_eq_some hq)).mp (of_decide_eq_true hrchat)⟩

/-! ## Isolation -/

/-- **Chats are isolated by their ids.** What a chat's GETs return, for every cursor, is
    the same without the POSTs of all other chats just in case every id that a valid POST
    of the chat carries was first used by a valid POST of the chat. -/
theorem chat_isolated_iff {chatId : Bytes} {posts : List (FragmentPost Bytes × Int)}
    (hposts : ∀ p ∈ posts, 0 ∉ p.1.id ∧ 0 ∉ p.1.chatId) (hchatId : 0 ∉ chatId) :
    (∀ since, chatView chatId posts since = chatView chatId (ofChat chatId posts) since) ↔
      FirstOfItsIds chatId posts := by
  have hrows := rowsOf_ofChat (fun p hp => (hposts p hp).2) hchatId
  constructor
  · intro h p hmem hvalid hpchat
    -- The chat of a valid POST has an id, so its GETs are answered.
    have hne : chatId ≠ [] := hpchat ▸ (missingMember_eq_none.mp hvalid).2.2.1
    refine (firstOfItsIds_iff hposts hchatId).mpr ?_ p hmem hvalid hpchat
    refine FirstWriter.ownKeys_of_subset fun r hr => ?_
    have hchat : r.chatId = cStr chatId := by
      have hput := FirstWriter.mem_live_puts.mp hr
      exact of_decide_eq_true (List.mem_filter.mp (List.mem_of_find?_eq_some hput)).2
    rw [← hrows, ← rows_receive] at hr
    rw [← rows_receive]
    -- The row is above the cursor one second before it, so both queries return it.
    have hview := h (r.timestamp - 1)
    simp only [chatView, makeGetFragmentsHandler, if_neg hne, Option.some.injEq] at hview
    have hget : r.map CString.bytes ∈
        (receive (ofChat chatId posts)).getFragments chatId (r.timestamp - 1) :=
      Database.mem_getFragments.mpr ⟨r, hr, hchat, Int.sub_one_lt_of_le (le_refl _), rfl⟩
    rw [← hview] at hget
    obtain ⟨r', hr', -, -, heq⟩ := Database.mem_getFragments.mp hget
    rwa [← map_cStr_map_bytes r, ← heq, map_cStr_map_bytes]
  · intro h since
    have hlive := FirstWriter.filter_live_puts ((firstOfItsIds_iff hposts hchatId).mp h)
    rw [← hrows, ← rows_receive, ← rows_receive] at hlive
    -- Both queries select the rows above the cursor from the same rows of the chat.
    have hget : (receive posts).getFragments chatId since =
        (receive (ofChat chatId posts)).getFragments chatId since := by
      rw [Database.getFragments, Database.getFragments, ← hlive, List.filter_filter]
      refine congrArg (fun rows => (Database.orderByTimestamp rows).map _)
        (List.filter_congr fun r _ => ?_)
      grind
    rw [chatView, chatView, makeGetFragmentsHandler, makeGetFragmentsHandler, hget]

/-- A POST to a chat. -/
def postTo (chatId id : Bytes) : FragmentPost Bytes :=
  { id, messageId := [0x6D], chatId, senderHash := [0x73], payload := [0x70], ttl := 0 }

/-- Chats with ids of their own do not see each other. -/
theorem distinct_ids_isolate :
    chatView [0x61] [(postTo [0x61] [0x31], 100), (postTo [0x62] [0x32], 101)] 0 =
      chatView [0x61] (ofChat [0x61] [(postTo [0x61] [0x31], 100), (postTo [0x62] [0x32], 101)])
        0 :=
  (chat_isolated_iff (by decide) (by decide)).mpr (by decide) 0

/-- The POSTs of the other chats make a difference to the first GET of the chat `a`. -/
def Interferes (posts : List (FragmentPost Bytes × Int)) : Prop :=
  chatView [0x61] posts 0 ≠ chatView [0x61] (ofChat [0x61] posts) 0

instance (posts : List (FragmentPost Bytes × Int)) : Decidable (Interferes posts) :=
  inferInstanceAs (Decidable (_ ≠ _))

/-- A chat that uses an id first keeps it from the other chats. With a NUL in them, ids that
    differ are taken for the same, and so are chat ids. -/
theorem chats_interfere :
    Interferes [(postTo [0x62] [0x31], 100), (postTo [0x61] [0x31], 101)] ∧
    Interferes [(postTo [0x62] [0x31, 0, 0x62], 100), (postTo [0x61] [0x31, 0, 0x61], 101)] ∧
    Interferes [(postTo [0x61, 0, 0x62] [0x31], 100)] := by
  decide

end Frag
