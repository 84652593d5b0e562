import Mathlib.Algebra.GroupWithZero.Nat
import Frag.Backend.Database
import Frag.Library.FirstWriter

/-!
# Histories of Calls

The member functions of `Database` called one after the other, and the results they
return. A `Session` is the table together with the log of the calls and their
outcomes.

The table is an instance of the first-writer-wins store: `rows_exec` says which
operation of that store each call is, `rows_session` what a whole history leaves.

## Main results

- `rows_session`: the rows are what is live after the operations of the history;
- `mem_rows_session`: a fragment is stored if the log says so;
- `getFragmentCount_session`: the count is the balance of the returned results.
-/

namespace Frag

open Runs

/-! ## Calls -/

/-- The ttl of a fragment has run out at a clock reading. -/
def Fragment.Expired {T : Type} (f : Fragment T) (now : Int) : Prop :=
  0 < f.ttl ∧ f.timestamp + f.ttl ≤ now

instance {T : Type} (f : Fragment T) (now : Int) : Decidable (f.Expired now) :=
  inferInstanceAs (Decidable (0 < f.ttl ∧ f.timestamp + f.ttl ≤ now))

@[simp] theorem Fragment.expired_map {T U : Type} {g : T → U} {f : Fragment T} {now : Int} :
    (f.map g).Expired now ↔ f.Expired now :=
  .rfl

/-- A call of a member function of `Database`; `now` is what `purge_expired` reads
    from the clock. -/
inductive Call where
  | insertFragment (f : Fragment Bytes)
  | getFragments (chatId : Bytes) (since : Int)
  | getMessageFragments (messageId : Bytes)
  | deleteFragment (id : Bytes)
  | purgeExpired (now : Int)
  | getFragmentCount
  deriving DecidableEq

/-- What a call returns. -/
inductive Outcome where
  | flag (b : Bool)
  | number (n : Nat)
  | fragments (l : List (Fragment Bytes))
  deriving DecidableEq

/-- The call, run on a table. -/
def Call.exec (db : Database) : Call → Outcome × Database
  | .insertFragment f =>
    let (inserted, db) := db.insertFragment f
    (.flag inserted, db)
  | .getFragments chatId since => (.fragments (db.getFragments chatId since), db)
  | .getMessageFragments messageId => (.fragments (db.getMessageFragments messageId), db)
  | .deleteFragment id =>
    let (deleted, db) := db.deleteFragment id
    (.flag deleted, db)
  | .purgeExpired now =>
    let (deleted, db) := db.purgeExpired now
    (.number deleted, db)
  | .getFragmentCount => (.number db.getFragmentCount, db)

/-- The texts of a fragment have no NUL, so `c_str()` passes them whole. -/
def Fragment.NoNul (f : Fragment Bytes) : Prop :=
  0 ∉ f.id ∧ 0 ∉ f.messageId ∧ 0 ∉ f.chatId ∧ 0 ∉ f.senderHash ∧ 0 ∉ f.payload

instance (f : Fragment Bytes) : Decidable f.NoNul :=
  inferInstanceAs (Decidable (0 ∉ f.id ∧ 0 ∉ f.messageId ∧ 0 ∉ f.chatId ∧ 0 ∉ f.senderHash ∧
    0 ∉ f.payload))

/-- A row is made of a fragment without NUL just in case it reads back as it. -/
theorem Fragment.map_cStr_eq_iff {f : Fragment Bytes} (hf : f.NoNul) {r : Fragment CString} :
    f.map cStr = r ↔ f = r.map CString.bytes := by
  obtain ⟨hid, hmessageId, hchatId, hsenderHash, hpayload⟩ := hf
  obtain ⟨id, messageId, chatId, senderHash, payload, timestamp, ttl⟩ := r
  cases f
  simp only [Fragment.map, Fragment.mk.injEq] at *
  simp only [eq_comm (a := cStr _), eq_cStr_iff, hid, hmessageId, hchatId, hsenderHash, hpayload,
    not_false_eq_true, eq_comm]

/-- The texts of a call have no NUL. -/
def Call.NoNul : Call → Prop
  | .insertFragment f => f.NoNul
  | .getFragments chatId _ => 0 ∉ chatId
  | .getMessageFragments messageId => 0 ∉ messageId
  | .deleteFragment id => 0 ∉ id
  | .purgeExpired _ => True
  | .getFragmentCount => True

instance : (c : Call) → Decidable c.NoNul
  | .insertFragment f => inferInstanceAs (Decidable f.NoNul)
  | .getFragments chatId _ => inferInstanceAs (Decidable (0 ∉ chatId))
  | .getMessageFragments messageId => inferInstanceAs (Decidable (0 ∉ messageId))
  | .deleteFragment id => inferInstanceAs (Decidable (0 ∉ id))
  | .purgeExpired _ => inferInstanceAs (Decidable True)
  | .getFragmentCount => inferInstanceAs (Decidable True)

/-! ## The operation of a call -/

/-- The operation that a call is on the table as a store keyed by id. -/
def Call.op : Call → FirstWriter.Op (Fragment CString)
  | .insertFragment f => .put (f.map cStr)
  | .deleteFragment id => .drop fun r => r.id = cStr id
  | .purgeExpired now => .drop fun r => r.Expired now
  | .getFragments _ _ => .drop fun _ => false
  | .getMessageFragments _ => .drop fun _ => false
  | .getFragmentCount => .drop fun _ => false

/-- **The statements are the operations of a first-writer-wins store.** -/
theorem rows_exec (db : Database) (c : Call) :
    (c.exec db).2.rows = FirstWriter.apply Fragment.id db.rows c.op := by
  have hread : db.rows = db.rows.filter fun _ => !false := by simp
  cases c with
  | insertFragment f =>
    by_cases hid : cStr f.id ∈ db.rows.map Fragment.id
    · simp [Call.exec, Call.op, FirstWriter.apply, Database.insertFragment, hid]
    · simp [Call.exec, Call.op, FirstWriter.apply, Database.insertFragment, hid]
  | getFragments chatId since => exact hread
  | getMessageFragments messageId => exact hread
  | deleteFragment id =>
    simp [Call.exec, Call.op, FirstWriter.apply, Database.deleteFragment]
  | purgeExpired now =>
    simp only [Call.exec, Call.op, FirstWriter.apply, Database.purgeExpired, decide_not]
    rfl
  | getFragmentCount => exact hread

/-- The table after some calls. -/
def Database.after (db : Database) (calls : List Call) : Database :=
  run (fun db c => (c.exec db).2) db calls

theorem Database.rows_after (db : Database) (calls : List Call) :
    (db.after calls).rows = run (FirstWriter.apply Fragment.id) db.rows (calls.map Call.op) := by
  induction calls generalizing db with
  | nil => rfl
  | cons c calls ih => exact (ih _).trans (by rw [rows_exec, List.map_cons, run_cons])

/-- A row stays until a call drops it. -/
theorem Database.mem_rows_after {db : Database} {calls : List Call} {r : Fragment CString}
    (hr : r ∈ db.rows) (hkeep : ∀ c ∈ calls, ¬ c.op.Drops r) : r ∈ (db.after calls).rows := by
  rw [rows_after]
  refine FirstWriter.mem_run_of_mem hr fun op hop => ?_
  obtain ⟨c, hc, rfl⟩ := List.mem_map.mp hop
  exact hkeep c hc

/-! ## Sessions -/

/-- The table, and the calls made so far with what they returned. -/
structure Session where
  db : Database
  log : List (Call × Outcome)

/-- One more call. -/
def Session.step (s : Session) (c : Call) : Session where
  db := (c.exec s.db).2
  log := s.log ++ [(c, (c.exec s.db).1)]

/-- The calls of a history, from an empty table. -/
def session (calls : List Call) : Session := run Session.step ⟨.empty, []⟩ calls

theorem session_concat (calls : List Call) (c : Call) :
    session (calls ++ [c]) = (session calls).step c :=
  run_concat _ _ _

/-- The log lists the calls. -/
theorem map_fst_log_session (calls : List Call) : (session calls).log.map Prod.fst = calls := by
  induction calls using List.reverseRecOn with
  | nil => rfl
  | append_singleton calls c ih =>
    rw [session_concat, Session.step, List.map_append, ih, List.map_singleton]

/-- The rows are what is live after the operations of the history. -/
theorem rows_session (calls : List Call) :
    (session calls).db.rows = FirstWriter.live Fragment.id (calls.map Call.op) := by
  induction calls using List.reverseRecOn with
  | nil => rfl
  | append_singleton calls c ih =>
    rw [session_concat, List.map_append, List.map_singleton, FirstWriter.live, run_concat,
      Session.step, rows_exec, ih, FirstWriter.live]

/-! ## Reading the log -/

/-- The call removes the fragment: it deletes its id, or purges when its ttl is over. -/
def Call.Undoes (x : Fragment Bytes) : Call → Prop
  | .deleteFragment id => id = x.id
  | .purgeExpired now => x.Expired now
  | _ => False

/-- By the log, the last successful insert of the fragment has not been undone. -/
def Live : List (Call × Outcome) → Fragment Bytes → Prop :=
  FirstWriter.Lasting (fun e x => e = (.insertFragment x, .flag true)) fun e x => e.1.Undoes x

/-- A call without NUL drops the row of a fragment just in case it undoes its insert. -/
theorem Call.drops_op_iff {c : Call} (hc : c.NoNul) {r : Fragment CString} :
    c.op.Drops r ↔ c.Undoes (r.map CString.bytes) := by
  cases c with
  | deleteFragment id =>
    simp only [Call.op, FirstWriter.Op.Drops, Call.Undoes, decide_eq_true_eq, eq_cStr_iff hc]
    exact eq_comm
  | purgeExpired now => simp [Call.op, FirstWriter.Op.Drops, Call.Undoes]
  | insertFragment f => exact .rfl
  | getFragments chatId since => simp [Call.op, FirstWriter.Op.Drops, Call.Undoes]
  | getMessageFragments messageId => simp [Call.op, FirstWriter.Op.Drops, Call.Undoes]
  | getFragmentCount => simp [Call.op, FirstWriter.Op.Drops, Call.Undoes]

/-- An insert that returned true. -/
def isInsertion : Call × Outcome → Bool
  | (.insertFragment _, .flag true) => true
  | _ => false

/-- A delete that returned true. -/
def isDeletion : Call × Outcome → Bool
  | (.deleteFragment _, .flag true) => true
  | _ => false

/-- The number of fragments a purge reports. -/
def purged : Call × Outcome → Nat
  | (.purgeExpired _, .number n) => n
  | _ => 0

/-- An insert returns true if it adds its row, which it does while the id is free. -/
theorem exec_insertFragment_eq_true {db : Database} {f : Fragment Bytes} :
    ((Call.insertFragment f).exec db).1 = .flag true ↔ cStr f.id ∉ db.rows.map Fragment.id := by
  rw [← Database.insertFragment_fst]
  exact Outcome.flag.injEq _ _ ▸ .rfl

/-- What one call does to the number of rows can be read off its outcome. -/
theorem length_rows_exec (db : Database) (c : Call) :
    ((c.exec db).2.rows.length : Int) =
      db.rows.length + (if isInsertion (c, (c.exec db).1) then 1 else 0)
        - (if isDeletion (c, (c.exec db).1) then 1 else 0) - purged (c, (c.exec db).1) := by
  cases c with
  | insertFragment f =>
    have hlen := db.length_rows_insertFragment f
    cases h : (db.insertFragment f).1 <;>
      simp only [Call.exec, h, isInsertion, isDeletion, purged] at hlen ⊢ <;> grind
  | getFragments chatId since => simp [Call.exec, isInsertion, isDeletion, purged]
  | getMessageFragments messageId => simp [Call.exec, isInsertion, isDeletion, purged]
  | deleteFragment id =>
    have hlen := db.length_rows_deleteFragment id
    cases h : (db.deleteFragment id).1 <;>
      simp only [Call.exec, h, isInsertion, isDeletion, purged] at hlen ⊢ <;> grind
  | purgeExpired now =>
    have hlen := db.length_rows_purgeExpired now
    simp only [Call.exec, isInsertion, isDeletion, purged]
    grind
  | getFragmentCount => simp [Call.exec, isInsertion, isDeletion, purged]

/-- **The log tells what is stored.** -/
theorem mem_rows_session {calls : List Call} (h : ∀ c ∈ calls, c.NoNul) {r : Fragment CString} :
    r ∈ (session calls).db.rows ↔ Live (session calls).log (r.map CString.bytes) := by
  induction calls using List.reverseRecOn with
  -- From the end of the history: what the last call does to a row is what its entry says.
  | nil => exact iff_of_false List.not_mem_nil FirstWriter.not_lasting_nil
  | append_singleton calls c ih =>
    have hc : c.NoNul := h c (List.mem_append_right _ List.mem_cons_self)
    -- The call adds the row just in case its entry is a successful insert of the fragment.
    have hput : (c.op = .put r ∧ r.id ∉ (session calls).db.rows.map Fragment.id) ↔
        (c, (c.exec (session calls).db).1) = (.insertFragment (r.map CString.bytes), .flag true) := by
      cases c with
      | insertFragment f =>
        rw [Prod.mk.injEq, exec_insertFragment_eq_true, Call.insertFragment.injEq, Call.op,
          FirstWriter.Op.put.injEq, Fragment.map_cStr_eq_iff hc]
        refine and_congr_right fun hf => ?_
        rw [hf, Fragment.id_map, cStr_bytes]
      | getFragments chatId since => simp [Call.op]
      | getMessageFragments messageId => simp [Call.op]
      | deleteFragment id => simp [Call.op]
      | purgeExpired now => simp [Call.op]
      | getFragmentCount => simp [Call.op]
    rw [session_concat, Session.step, Live, FirstWriter.lasting_concat, rows_exec,
      FirstWriter.mem_apply, hput, Call.drops_op_iff hc,
      ih fun c hc => h c (List.mem_append_left _ hc), Live]

/-- The number of rows is the number of inserts that returned true, less the deletes that
    returned true and what the purges returned. -/
theorem getFragmentCount_session (calls : List Call) :
    ((session calls).db.getFragmentCount : Int) = (session calls).log.countP isInsertion
      - (session calls).log.countP isDeletion - ((session calls).log.map purged).sum := by
  induction calls using List.reverseRecOn with
  | nil => rfl
  | append_singleton calls c ih =>
    rw [session_concat]
    -- The last entry counts for what its call did to the number of rows.
    simp only [Session.step, Database.getFragmentCount, length_rows_exec] at ih ⊢
    rw [List.countP_append, List.countP_append, List.map_append, List.sum_append,
      List.countP_singleton, List.countP_singleton]
    simp only [List.map_cons, List.map_nil, List.sum_cons, List.sum_nil]
    grind

end Frag
