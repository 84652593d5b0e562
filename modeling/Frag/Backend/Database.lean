import Frag.Basic
import Mathlib.Data.List.Sort

/-!
# The Fragment Table

`Database` of `database.cpp`: the table `fragments` with its primary key on `id`
and the SQL statements of the CRUD functions, run without SQLite errors. The rows
are listed in rowid order (a new row is appended), and the primary key is a field
of the structure.

Texts are bound through `c_str()`, so a stored text is a `CString`: the bytes of
the `std::string` before its first NUL.
-/

namespace Frag

/-- The table `fragments`. -/
structure Database where
  rows : List (Fragment CString)
  primaryKey : (rows.map Fragment.id).Nodup

/-- A row is what the fragment read back from it would be stored as. -/
theorem map_cStr_map_bytes (r : Fragment CString) : (r.map CString.bytes).map cStr = r := by
  cases r
  simp [Fragment.map]

namespace Database

/-- A freshly initialised schema. -/
def empty : Database := ⟨[], List.nodup_nil⟩

/-! ## Statements -/

/-- `INSERT OR IGNORE INTO fragments … VALUES (?,?,?,?,?,?,?)`: whether a row was
    added, and the table. -/
def insertFragment (db : Database) (f : Fragment Bytes) : Bool × Database :=
  if h : cStr f.id ∈ db.rows.map Fragment.id then (false, db)
  else (true, {
    rows := db.rows ++ [f.map cStr]
    primaryKey := by
      -- The new id is none of the old ones.
      rw [List.map_append, List.nodup_append]
      refine ⟨db.primaryKey, by simp, ?_⟩
      rintro a ha b hb rfl
      rw [List.map_singleton, List.mem_singleton] at hb
      exact h (by simpa [hb] using ha) })

/-- `ORDER BY timestamp ASC`, rows with equal timestamps in rowid order. -/
def orderByTimestamp (rows : List (Fragment CString)) : List (Fragment CString) :=
  rows.insertionSort fun a b => a.timestamp ≤ b.timestamp

/-- `SELECT … WHERE chat_id = ? AND timestamp > ? ORDER BY timestamp ASC` -/
def getFragments (db : Database) (chatId : Bytes) (since : Int) : List (Fragment Bytes) :=
  (orderByTimestamp (db.rows.filter fun r => r.chatId = cStr chatId ∧ since < r.timestamp)).map
    fun r => r.map CString.bytes

/-- `SELECT … WHERE message_id = ? ORDER BY timestamp ASC` -/
def getMessageFragments (db : Database) (messageId : Bytes) : List (Fragment Bytes) :=
  (orderByTimestamp (db.rows.filter fun r => r.messageId = cStr messageId)).map
    fun r => r.map CString.bytes

private theorem primaryKey_filter (db : Database) (p : Fragment CString → Bool) :
    ((db.rows.filter p).map Fragment.id).Nodup :=
  db.primaryKey.sublist (List.filter_sublist.map Fragment.id)

/-- `DELETE FROM fragments WHERE id = ?`: whether a row was removed, and the table. -/
def deleteFragment (db : Database) (id : Bytes) : Bool × Database :=
  (db.rows.any (fun r => r.id = cStr id),
    { rows := db.rows.filter fun r => r.id ≠ cStr id
      primaryKey := primaryKey_filter db _ })

/-- `DELETE FROM fragments WHERE ttl > 0 AND (timestamp + ttl) <= ?`: the number of
    rows removed, and the table. -/
def purgeExpired (db : Database) (now : Int) : Nat × Database :=
  (db.rows.countP (fun r => 0 < r.ttl ∧ r.timestamp + r.ttl ≤ now),
    { rows := db.rows.filter fun r => ¬ (0 < r.ttl ∧ r.timestamp + r.ttl ≤ now)
      primaryKey := primaryKey_filter db _ })

/-- `SELECT COUNT(*) FROM fragments` -/
def getFragmentCount (db : Database) : Nat := db.rows.length

/-! ## What the statements do to the rows -/

/-- First writer wins: an insert adds its row unless the id is taken. -/
theorem mem_rows_insertFragment {db : Database} {f : Fragment Bytes} {r : Fragment CString} :
    r ∈ (db.insertFragment f).2.rows ↔
      r ∈ db.rows ∨ (cStr f.id ∉ db.rows.map Fragment.id ∧ r = f.map cStr) := by
  unfold insertFragment
  split
  · rename_i h
    simp [h]
  · rename_i h
    simp [h]

theorem insertFragment_fst {db : Database} {f : Fragment Bytes} :
    (db.insertFragment f).1 = true ↔ cStr f.id ∉ db.rows.map Fragment.id := by
  unfold insertFragment
  split <;> simp_all

/-- The row of an id is unique. -/
theorem eq_of_id_eq {db : Database} {r r' : Fragment CString} (hr : r ∈ db.rows)
    (hr' : r' ∈ db.rows) (h : r.id = r'.id) : r = r' :=
  List.inj_on_of_nodup_map db.primaryKey hr hr' h

theorem mem_rows_purgeExpired {db : Database} {now : Int} {r : Fragment CString} :
    r ∈ (db.purgeExpired now).2.rows ↔
      r ∈ db.rows ∧ ¬ (0 < r.ttl ∧ r.timestamp + r.ttl ≤ now) := by
  simp only [purgeExpired, List.mem_filter, decide_eq_true_eq]

/-- An id is the id of at most one row. -/
theorem countP_id (db : Database) (id : CString) :
    db.rows.countP (fun r => r.id = id) = if id ∈ db.rows.map Fragment.id then 1 else 0 := by
  have hcount : db.rows.countP (fun r => r.id = id) = (db.rows.map Fragment.id).count id := by
    rw [List.count, List.countP_map]
    exact List.countP_congr fun r _ => by simp
  rw [hcount]
  split
  · rename_i hmem
    exact List.count_eq_one_of_mem db.primaryKey hmem
  · rename_i hmem
    exact List.count_eq_zero_of_not_mem hmem

/-- An insert that returns true adds one row, and no other insert does. -/
theorem length_rows_insertFragment (db : Database) (f : Fragment Bytes) :
    (db.insertFragment f).2.rows.length =
      db.rows.length + if (db.insertFragment f).1 then 1 else 0 := by
  unfold insertFragment
  split
  · rfl
  · exact List.length_append

/-- A delete that returns true removes one row, and no other delete does. -/
theorem length_rows_deleteFragment (db : Database) (id : Bytes) :
    db.rows.length = (db.deleteFragment id).2.rows.length +
      if (db.deleteFragment id).1 then 1 else 0 := by
  have hany : (db.deleteFragment id).1 = true ↔ cStr id ∈ db.rows.map Fragment.id := by
    simp [deleteFragment]
  -- The rows with the id are at most one, and they are what the filter removes.
  simp only [hany, ← countP_id]
  rw [Nat.add_comm]
  simpa [deleteFragment, List.countP_eq_length_filter] using
    List.length_eq_length_filter_add (l := db.rows) fun r => decide (r.id = cStr id)

/-- A purge returns the number of rows it removes. -/
theorem length_rows_purgeExpired (db : Database) (now : Int) :
    db.rows.length = (db.purgeExpired now).2.rows.length + (db.purgeExpired now).1 := by
  rw [Nat.add_comm, purgeExpired, List.countP_eq_length_filter]
  simpa only [decide_not] using List.length_eq_length_filter_add (l := db.rows)
    fun r => decide (0 < r.ttl ∧ r.timestamp + r.ttl ≤ now)

/-- An insert that leaves the table as it is is one under a taken id. -/
theorem insertFragment_snd_eq_iff {db : Database} {f : Fragment Bytes} :
    (db.insertFragment f).2 = db ↔ cStr f.id ∈ db.rows.map Fragment.id := by
  constructor
  · intro h
    by_contra hfree
    have hlen := db.length_rows_insertFragment f
    rw [insertFragment_fst.mpr hfree, if_pos rfl, h] at hlen
    exact absurd hlen (Nat.succ_ne_self _).symm
  · intro h
    rw [insertFragment, dif_pos h]

/-- A delete that leaves the table as it is is one of an id that is not stored. -/
theorem deleteFragment_snd_eq_iff {db : Database} {id : Bytes} :
    (db.deleteFragment id).2 = db ↔ cStr id ∉ db.rows.map Fragment.id := by
  constructor
  · -- Had a row the id, it would be in the filtered table.
    intro h hmem
    obtain ⟨r, hr, hid⟩ := List.mem_map.mp hmem
    rw [← h] at hr
    exact absurd hid (by simpa [deleteFragment] using (List.mem_filter.mp hr).2)
  · intro h
    have hrows : (db.deleteFragment id).2.rows = db.rows :=
      List.filter_eq_self.mpr fun r hr =>
        decide_eq_true fun hid => h (List.mem_map.mpr ⟨r, hr, hid⟩)
    cases db
    simpa [deleteFragment] using hrows

@[simp] theorem mem_orderByTimestamp {rows : List (Fragment CString)} {r : Fragment CString} :
    r ∈ orderByTimestamp rows ↔ r ∈ rows :=
  List.mem_insertionSort _

/-- A chat's query returns its rows above the cursor. -/
theorem mem_getFragments {db : Database} {chatId : Bytes} {since : Int} {x : Fragment Bytes} :
    x ∈ db.getFragments chatId since ↔
      ∃ r ∈ db.rows, r.chatId = cStr chatId ∧ since < r.timestamp ∧ r.map CString.bytes = x := by
  simp [getFragments, and_assoc]

theorem mem_getMessageFragments {db : Database} {messageId : Bytes} {x : Fragment Bytes} :
    x ∈ db.getMessageFragments messageId ↔
      ∃ r ∈ db.rows, r.messageId = cStr messageId ∧ r.map CString.bytes = x := by
  simp [getMessageFragments, and_assoc]

theorem nodup_rows (db : Database) : db.rows.Nodup := List.Nodup.of_map _ db.primaryKey

/-- No row is returned twice. -/
theorem nodup_getFragments (db : Database) (chatId : Bytes) (since : Int) :
    (db.getFragments chatId since).Nodup := by
  have hinj : Function.Injective fun r : Fragment CString => r.map CString.bytes :=
    Function.LeftInverse.injective map_cStr_map_bytes
  have hrows : (orderByTimestamp (db.rows.filter fun r =>
      r.chatId = cStr chatId ∧ since < r.timestamp)).Nodup :=
    (List.perm_insertionSort _ _).nodup_iff.mpr (db.nodup_rows.filter _)
  exact hrows.map hinj

/-- The rows are returned in the order of their timestamps. -/
theorem pairwise_getFragments (db : Database) (chatId : Bytes) (since : Int) :
    (db.getFragments chatId since).Pairwise fun a b => a.timestamp ≤ b.timestamp := by
  rw [getFragments, List.pairwise_map]
  exact List.pairwise_insertionSort (fun a b : Fragment CString => a.timestamp ≤ b.timestamp) _

end Database

end Frag
