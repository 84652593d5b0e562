import Frag.Backend.Calls

/-!
# The Table over Whole Runs

A table that is only ever changed by the calls of `Database` is a first-writer-wins map:
what the calls returned determines what it holds.

## Main results

- `table_is_first_writer_wins`: the contents, the count and the effect of every further
  call, read off the results returned so far.
-/

namespace Frag

/-! ## Further calls -/

/-- Under a live id nothing is inserted. -/
theorem insertFragment_of_live {calls : List Call} (h : ∀ c ∈ calls, c.NoNul)
    {f x : Fragment Bytes} (hx : x.NoNul) (hlive : Live (session calls).log x) (hid : x.id = f.id) :
    (session calls).db.insertFragment f = (false, (session calls).db) := by
  have hrow : x.map cStr ∈ (session calls).db.rows := by
    rw [mem_rows_session h, ← (Fragment.map_cStr_eq_iff hx).mp rfl]
    exact hlive
  -- The row of the live fragment has the id.
  have htaken : cStr f.id ∈ (session calls).db.rows.map Fragment.id := by
    rw [← hid]
    exact List.mem_map_of_mem hrow
  rw [Database.insertFragment, dif_pos htaken]

/-- What is live was inserted, so it has no NUL when the calls have none. -/
theorem Live.noNul {calls : List Call} (h : ∀ c ∈ calls, c.NoNul) {x : Fragment Bytes}
    (hlive : Live (session calls).log x) : x.NoNul := by
  obtain ⟨before, e, after, hsplit, rfl, -⟩ := hlive
  have hcalls : (session calls).log.map Prod.fst = calls := map_fst_log_session calls
  have hmem : Call.insertFragment x ∈ calls := by
    rw [← hcalls, hsplit]
    simp
  exact h _ hmem

/-- A chat's query returns what is live in the chat above the cursor. -/
theorem mem_getFragments_session {calls : List Call} (h : ∀ c ∈ calls, c.NoNul) {chatId : Bytes}
    (hchatId : 0 ∉ chatId) {since : Int} {x : Fragment Bytes} :
    x ∈ (session calls).db.getFragments chatId since ↔
      Live (session calls).log x ∧ x.chatId = chatId ∧ since < x.timestamp := by
  rw [Database.mem_getFragments]
  constructor
  · rintro ⟨r, hr, hchat, hsince, rfl⟩
    exact ⟨(mem_rows_session h).mp hr, (eq_cStr_iff hchatId).mp hchat, hsince⟩
  · rintro ⟨hlive, rfl, hsince⟩
    -- Without NUL the row reads back as the fragment.
    have hback := (Fragment.map_cStr_eq_iff (hlive.noNul h)).mp rfl
    refine ⟨x.map cStr, (mem_rows_session h).mpr ?_, rfl, hsince, hback.symm⟩
    rwa [← hback]

/-! ## The whole run -/

/-- **The table is a first-writer-wins map.** After any calls on NUL-free texts: the ids
    are distinct; the count is the balance of the results; a chat's query returns what is
    live in the chat above the cursor, each once and in the order of the timestamps; an
    insert under a live id changes nothing; and a purge removes exactly the expired rows. -/
theorem table_is_first_writer_wins (calls : List Call) (h : ∀ c ∈ calls, c.NoNul) :
    ((session calls).db.rows.map Fragment.id).Nodup ∧
    ((session calls).db.getFragmentCount : Int) = (session calls).log.countP isInsertion
      - (session calls).log.countP isDeletion - ((session calls).log.map purged).sum ∧
    (∀ chatId since, 0 ∉ chatId →
      ((session calls).db.getFragments chatId since).Nodup ∧
      ((session calls).db.getFragments chatId since).Pairwise
        (fun a b => a.timestamp ≤ b.timestamp) ∧
      ∀ x, x ∈ (session calls).db.getFragments chatId since ↔
        Live (session calls).log x ∧ x.chatId = chatId ∧ since < x.timestamp) ∧
    (∀ f x, Live (session calls).log x → x.id = f.id →
      (session calls).db.insertFragment f = (false, (session calls).db)) ∧
    (∀ now r, r ∈ ((session calls).db.purgeExpired now).2.rows ↔
      r ∈ (session calls).db.rows ∧ ¬ r.Expired now) := by
  refine ⟨(session calls).db.primaryKey, getFragmentCount_session calls, ?_, ?_, ?_⟩
  · intro chatId since hchatId
    exact ⟨Database.nodup_getFragments _ _ _, Database.pairwise_getFragments _ _ _,
      fun x => mem_getFragments_session h hchatId⟩
  · intro f x hlive hid
    exact insertFragment_of_live h (hlive.noNul h) hlive hid
  · intro now r
    exact Database.mem_rows_purgeExpired

/-- A fragment of the chat `c`. -/
def storedFragment (id : Bytes) (ttl : Int) : Fragment Bytes :=
  { id, messageId := [0x6D], chatId := [0x63], senderHash := [0x73], payload := [0x70],
    timestamp := 100, ttl }

/-- An id is inserted, inserted again with another ttl, deleted and inserted once more. -/
def reinsertion : List Call :=
  [.insertFragment (storedFragment [0x31] 0), .insertFragment (storedFragment [0x31] 7),
    .deleteFragment [0x31], .insertFragment (storedFragment [0x31] 5), .purgeExpired 104]

/-- The last of these inserts is live. -/
theorem reinsertion_is_live : Live (session reinsertion).log (storedFragment [0x31] 5) :=
  (((table_is_first_writer_wins reinsertion (by decide)).2.2.1 [0x63] 0 (by decide)).2.2
    (storedFragment [0x31] 5)).mp (by decide) |>.1

end Frag
