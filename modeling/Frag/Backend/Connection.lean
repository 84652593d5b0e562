import Frag.Backend.Calls
import Mathlib.Data.Fintype.Defs
import Mathlib.Logic.Function.Basic

/-!
# The Shared Connection

All threads of the server use one SQLite connection. In serialized mode every API call is
atomic, but a member function of `Database` makes several of them, and between two of them
other threads may make theirs. The number of rows that a statement changed is kept per
connection, and `sqlite3_changes` returns that of the last statement of any thread.

## Main results

- `Connection.Reported.step`: what calls report is right as long as no statement disagrees
  with one whose report is outstanding.
-/

namespace Frag

open Runs

/-! ## Writing calls -/

/-- A call that runs a statement and asks how many rows it changed. -/
inductive Write where
  | insertFragment (f : Fragment Bytes)
  | deleteFragment (id : Bytes)
  | purgeExpired (now : Int)
  deriving DecidableEq

/-- The call that a write is. -/
def Write.call : Write → Call
  | .insertFragment f => .insertFragment f
  | .deleteFragment id => .deleteFragment id
  | .purgeExpired now => .purgeExpired now

/-- A call of the C API: `sqlite3_prepare_v2`, the `sqlite3_bind_…`, `sqlite3_step`,
    `sqlite3_finalize` and `sqlite3_changes`. -/
inductive ApiCall where
  | prepare
  | bind
  | step
  | finalize
  | changes
  deriving DecidableEq

/-- The API calls of a write, in order. -/
def Write.program : Write → List ApiCall
  | .insertFragment _ => [.prepare, .bind, .step, .finalize, .changes]
  | .deleteFragment _ => [.prepare, .bind, .step, .finalize, .changes]
  | .purgeExpired _ => [.prepare, .bind, .step, .changes, .finalize]

/-- The number of rows that the statement of a write changes. -/
def Write.rows (db : Database) : Write → Nat
  | .insertFragment f => if (db.insertFragment f).1 then 1 else 0
  | .deleteFragment id => if (db.deleteFragment id).1 then 1 else 0
  | .purgeExpired now => (db.purgeExpired now).1

/-- The table after a write. -/
def Write.apply (db : Database) (w : Write) : Database := (w.call.exec db).2

/-- The table after some writes. -/
def afterWrites (db : Database) (ws : List Write) : Database := run Write.apply db ws

/-- The number of rows that the `i`-th of some writes changes. -/
def rowsChanged (db : Database) (ws : List Write) (i : Nat) : Nat :=
  ws[i]?.elim 0 (Write.rows (afterWrites db (ws.take i)))

/-- Later writes do not change what an earlier one did. -/
theorem rowsChanged_append {db : Database} {ws vs : List Write} {i : Nat} (hi : i < ws.length) :
    rowsChanged db (ws ++ vs) i = rowsChanged db ws i := by
  rw [rowsChanged, rowsChanged, List.getElem?_append_left hi,
    List.take_append_of_le_length (Nat.le_of_lt hi)]

theorem rowsChanged_length (db : Database) (ws : List Write) (w : Write) :
    rowsChanged db (ws ++ [w]) ws.length = w.rows (afterWrites db ws) := by
  simp [rowsChanged]

/-! ## The connection -/

/-- A call in progress: the API calls it has yet to make and, once its statement has been
    executed, the position of it among all statements and the rows it changed. -/
structure Thread where
  write : Write
  todo : List ApiCall
  executed : Option (Nat × Nat)

/-- The table, the change counter and the threads; the statements in the order of their
    execution, and what `sqlite3_changes` returned to the thread of each, once it has. -/
structure Connection (T : Type) where
  db : Database
  changes : Nat
  threads : T → Option Thread
  executed : List Write
  reports : Nat → Option Nat

/-- An event: a thread enters a member function, or makes its next API call. -/
inductive ApiEvent (T : Type) where
  | enter (t : T) (w : Write)
  | next (t : T)

variable {T : Type} [DecidableEq T]

namespace Connection

/-- A connection on which no call is in progress. -/
def idle (db : Database) : Connection T := ⟨db, 0, fun _ => none, [], fun _ => none⟩

/-- A thread that is in no member function enters one. -/
def enter (s : Connection T) (t : T) (w : Write) : Connection T :=
  match s.threads t with
  | some _ => s
  | none => { s with threads := Function.update s.threads t (some ⟨w, w.program, none⟩) }

/-- The next API call of a thread, or its return. -/
def next (s : Connection T) (t : T) : Connection T :=
  match s.threads t with
  | none => s
  | some th =>
    match th.todo with
    -- Nothing is left to do: the member function returns.
    | [] => { s with threads := Function.update s.threads t none }
    | call :: todo =>
      match call with
      -- The statement is executed, and the counter is that of its changes.
      | .step =>
        { s with
          db := Write.apply s.db th.write
          changes := th.write.rows s.db
          threads := Function.update s.threads t
            (some ⟨th.write, todo, some (s.executed.length, th.write.rows s.db)⟩)
          executed := s.executed ++ [th.write] }
      -- The counter may be that of a statement of another thread by now.
      | .changes =>
        { s with
          threads := Function.update s.threads t (some ⟨th.write, todo, th.executed⟩)
          reports := th.executed.elim s.reports fun e =>
            Function.update s.reports e.1 (some s.changes) }
      | .prepare | .bind | .finalize =>
        { s with threads := Function.update s.threads t (some ⟨th.write, todo, th.executed⟩) }

/-- One event. -/
def step (s : Connection T) : ApiEvent T → Connection T
  | .enter t w => s.enter t w
  | .next t => s.next t

/-! ## What is reported -/

/-- The write whose statement the thread is about to execute. -/
def statement (s : Connection T) (t : T) : Option Write :=
  (s.threads t).bind fun th => if th.todo.head? = some .step then some th.write else none

/-- The statement that the thread has executed without having asked for its changes: its
    position, and the rows it changed. -/
def outstanding (s : Connection T) (t : T) : Option (Nat × Nat) :=
  (s.threads t).bind fun th => if .changes ∈ th.todo then th.executed else none

/-- A statement about to be executed agrees with those whose reports are outstanding on
    whether it changes a row. -/
def Agrees (s : Connection T) : ApiEvent T → Prop
  | .enter _ _ => True
  | .next t => ∀ w ∈ s.statement t, ∀ u ≠ t, ∀ e ∈ s.outstanding u,
      (0 < w.rows s.db ↔ 0 < e.2)

instance [Fintype T] (s : Connection T) : (e : ApiEvent T) → Decidable (s.Agrees e)
  | .enter _ _ => .isTrue trivial
  | .next t =>
    decidable_of_iff (∀ w ∈ (s.statement t).toList, ∀ u ≠ t, ∀ e ∈ (s.outstanding u).toList,
      (0 < w.rows s.db ↔ 0 < e.2)) (by simp only [Option.mem_toList, Option.mem_def, Agrees])

omit [DecidableEq T] in
theorem outstanding_eq_some {s : Connection T} {t : T} {e : Nat × Nat} :
    s.outstanding t = some e ↔
      ∃ th, s.threads t = some th ∧ th.executed = some e ∧ .changes ∈ th.todo := by
  rw [outstanding, Option.bind_eq_some_iff]
  refine exists_congr fun th => and_congr_right fun _ => ?_
  rw [Option.ite_none_right_eq_some, and_comm]

/-- The table is what the executed statements leave, and every number of rows that was
    reported, or is about to be, tells whether the statement changed a row. -/
structure Reported (db : Database) (s : Connection T) : Prop where
  table : s.db = afterWrites db s.executed
  reported : ∀ i n, s.reports i = some n →
    i < s.executed.length ∧ (0 < n ↔ 0 < rowsChanged db s.executed i)
  awaiting : ∀ t e, s.outstanding t = some e →
    e.1 < s.executed.length ∧ e.2 = rowsChanged db s.executed e.1 ∧ (0 < s.changes ↔ 0 < e.2)

omit [DecidableEq T] in
theorem Reported.idle (db : Database) : Reported db (idle db : Connection T) where
  table := rfl
  reported i n h := by cases h
  awaiting t e h := by cases h

variable {db : Database} {s s' : Connection T} {t u : T} {e : Nat × Nat}

/-- When one thread is set, its own record says what it awaits, and the others await what
    they did. -/
theorem outstanding_of_update {th : Option Thread}
    (hs' : s'.threads = Function.update s.threads t th) (h : s'.outstanding u = some e) :
    (u = t ∧ ∃ th', th = some th' ∧ th'.executed = some e ∧ .changes ∈ th'.todo) ∨
      (u ≠ t ∧ s.outstanding u = some e) := by
  obtain ⟨th', hth', hexec, hmem⟩ := outstanding_eq_some.mp h
  rw [hs'] at hth'
  by_cases hu : u = t
  · subst hu
    rw [Function.update_self] at hth'
    exact .inl ⟨rfl, th', hth', hexec, hmem⟩
  · rw [Function.update_of_ne hu] at hth'
    exact .inr ⟨hu, outstanding_eq_some.mpr ⟨th', hth', hexec, hmem⟩⟩

theorem Reported.enter (h : Reported db s) (t : T) (w : Write) : Reported db (s.enter t w) := by
  unfold Connection.enter
  split
  · exact h
  · -- The thread that enters has executed nothing yet, and the others await what they did.
    refine ⟨h.table, h.reported, fun u e hu => ?_⟩
    rcases outstanding_of_update rfl hu with ⟨-, th, ⟨⟩, hexec, -⟩ | ⟨-, hold⟩
    · cases hexec
    · exact h.awaiting u e hold

omit [DecidableEq T] in
/-- A step without a statement keeps what it does not report. -/
theorem Reported.of_outstanding (h : Reported db s) (hdb : s'.db = s.db)
    (hchanges : s'.changes = s.changes) (hexecuted : s'.executed = s.executed)
    (hreports : ∀ i n, s'.reports i = some n →
      i < s.executed.length ∧ (0 < n ↔ 0 < rowsChanged db s.executed i))
    (houtstanding : ∀ t e, s'.outstanding t = some e → s.outstanding t = some e) :
    Reported db s' where
  table := by rw [hdb, hexecuted, h.table]
  reported := by
    rw [hexecuted]
    exact hreports
  awaiting t e ht := by
    rw [hexecuted, hchanges]
    exact h.awaiting t e (houtstanding t e ht)

/-- An API call leaves the rest of what a thread has to do. -/
theorem outstanding_of_todo {th : Thread} {call : ApiCall} {todo : List ApiCall}
    (hth : s.threads t = some th) (htodo : th.todo = call :: todo)
    (hs' : s'.threads = Function.update s.threads t (some ⟨th.write, todo, th.executed⟩))
    (h : s'.outstanding u = some e) : s.outstanding u = some e := by
  rcases outstanding_of_update hs' h with ⟨rfl, th', ⟨⟩, hexec, hmem⟩ | ⟨-, hold⟩
  · exact outstanding_eq_some.mpr ⟨th, hth, hexec, htodo ▸ List.mem_cons_of_mem _ hmem⟩
  · exact hold

theorem Reported.next (h : Reported db s) (hagrees : s.Agrees (.next t)) :
    Reported db (s.next t) := by
  unfold Connection.next
  cases hth : s.threads t with
  | none => exact h
  | some th =>
    simp only
    -- The next API call decides; only `step` and `changes` touch what is shared.
    cases htodo : th.todo with
    | nil =>
      -- The thread returns and awaits nothing.
      refine h.of_outstanding rfl rfl rfl h.reported fun u e hu => ?_
      rcases outstanding_of_update rfl hu with ⟨-, th', ⟨⟩, -⟩ | ⟨-, hold⟩
      exact hold
    | cons call todo =>
      cases call with
      | step =>
        have hstatement : s.statement t = some th.write := by simp [statement, hth, htodo]
        refine ⟨?_, fun i n hi => ?_, fun u e hu => ?_⟩
        · rw [afterWrites, run_concat, h.table, afterWrites]
        · obtain ⟨hlt, hiff⟩ := h.reported i n hi
          rw [rowsChanged_append hlt, List.length_append]
          exact ⟨Nat.lt_add_right _ hlt, hiff⟩
        · rcases outstanding_of_update rfl hu with ⟨-, th', ⟨⟩, hexec, -⟩ | ⟨hne, hold⟩
          · -- The thread itself: the counter is what its statement changed.
            obtain rfl := Option.some.inj hexec
            rw [rowsChanged_length, ← h.table, List.length_append]
            exact ⟨Nat.lt_succ_self _, rfl, .rfl⟩
          · -- Another thread: its statement agrees with this one.
            obtain ⟨hlt, heq, -⟩ := h.awaiting u e hold
            rw [rowsChanged_append hlt, List.length_append]
            exact ⟨Nat.lt_add_right _ hlt, heq, hagrees _ hstatement u hne e hold⟩
      | changes =>
        refine h.of_outstanding rfl rfl rfl (fun i n hi => ?_) fun u e =>
          outstanding_of_todo hth htodo rfl
        cases hexec : th.executed with
        | none =>
          simp only [hexec, Option.elim_none] at hi
          exact h.reported i n hi
        | some e =>
          simp only [hexec, Option.elim_some] at hi
          by_cases hie : i = e.1
          · -- The counter still agrees with what the statement of the thread changed.
            have hout : s.outstanding t = some e :=
              outstanding_eq_some.mpr ⟨th, hth, hexec, htodo ▸ List.mem_cons_self⟩
            obtain ⟨hlt, heq, hiff⟩ := h.awaiting t e hout
            rw [hie, Function.update_self] at hi
            obtain rfl := Option.some.inj hi
            rw [hie, ← heq]
            exact ⟨hlt, hiff⟩
          · rw [Function.update_of_ne hie] at hi
            exact h.reported i n hi
      | prepare =>
        exact h.of_outstanding rfl rfl rfl h.reported fun u e => outstanding_of_todo hth htodo rfl
      | bind =>
        exact h.of_outstanding rfl rfl rfl h.reported fun u e => outstanding_of_todo hth htodo rfl
      | finalize =>
        exact h.of_outstanding rfl rfl rfl h.reported fun u e => outstanding_of_todo hth htodo rfl

/-- **Reports stay right** while the statements agree. -/
theorem Reported.step (h : Reported db s) {e : ApiEvent T} (hagrees : s.Agrees e) :
    Reported db (s.step e) := by
  cases e with
  | enter t w => exact h.enter t w
  | next t => exact h.next hagrees

end Connection

end Frag
