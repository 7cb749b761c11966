/-
Module: RiftRoute.Library.KeyedTable
Purpose: Finite tables whose rows carry their own primary key, and tables with
  a second unique column, the mark: what each update leaves at every key, and
  when rows saved one after the other, refusals ignored, arrive whole.
Trusted boundary: none
-/
import Mathlib.Data.List.Nodup

/-- Rows with a primary key: no two rows share one. -/
structure KeyedTable {α κ : Type} (key : α → κ) where
  rows : List α
  nodup : (rows.map key).Nodup

namespace KeyedTable

open List

variable {α κ : Type} {key : α → κ}

/-- The table without rows. -/
def empty : KeyedTable key := ⟨[], nodup_nil⟩

variable [DecidableEq κ]

def find (table : KeyedTable key) (k : κ) : Option α := table.rows.find? fun row => key row = k

variable {row : α} {table : KeyedTable key}

@[simp] theorem find_empty (k : κ) : (empty : KeyedTable key).find k = none := rfl

theorem key_of_find {k : κ} (found : table.find k = some row) : key row = k := by
  simpa using find?_some found

theorem mem_of_find {k : κ} (found : table.find k = some row) : row ∈ table.rows :=
  List.mem_of_find?_eq_some found

omit [DecidableEq κ] in
theorem key_injOn {first second : α}
    (firstMember : first ∈ table.rows) (secondMember : second ∈ table.rows)
    (same : key first = key second) : first = second :=
  inj_on_of_nodup_map table.nodup firstMember secondMember same

theorem find_of_mem (member : row ∈ table.rows) : table.find (key row) = some row := by
  have present : (table.find (key row)).isSome := by
    rw [find, find?_isSome]
    exact ⟨row, member, by simp⟩
  obtain ⟨other, found⟩ := Option.isSome_iff_exists.mp present
  rw [found, key_injOn (mem_of_find found) member (key_of_find found)]

theorem find_eq_none_iff {k : κ} : table.find k = none ↔ ∀ row ∈ table.rows, key row ≠ k := by
  simp [find]

/-! ### Adding a row -/

/-- Replace the row of the same key in place, or append the row. -/
def putRows (key : α → κ) (row : α) : List α → List α
  | [] => [row]
  | head :: tail =>
    if key head = key row then row :: tail else head :: putRows key row tail

theorem map_key_putRows (row : α) (rows : List α) : (putRows key row rows).map key =
      if key row ∈ rows.map key then rows.map key
      else rows.map key ++ [key row] := by
  induction rows with
  | nil => simp [putRows]
  | cons head tail ih =>
    by_cases same : key head = key row
    · simp [putRows, same]
    · have differs : ¬ key row = key head := fun equal => same equal.symm
      simp only [putRows, same, if_false, map_cons, ih, mem_cons, differs, false_or]
      split <;> simp

theorem find?_putRows (row : α) (rows : List α) (k : κ) :
    (putRows key row rows).find? (fun other => key other = k) = if key row = k then some row
      else rows.find? fun other => key other = k := by
  induction rows with
  | nil =>
    by_cases hit : key row = k <;> simp [putRows, hit]
  | cons head tail ih =>
    by_cases same : key head = key row
    · by_cases hit : key row = k
      · simp [putRows, same, hit]
      · simp [putRows, same, hit]
    · simp only [putRows, same, if_false]
      by_cases headHit : key head = k
      · have rowMiss : ¬ key row = k := by
          intro equal
          exact same (headHit.trans equal.symm)
        simp [headHit, rowMiss]
      · simp [headHit, ih]

/-- `INSERT … ON CONFLICT DO UPDATE`: the row of this key becomes `row`. -/
def put (table : KeyedTable key) (row : α) : KeyedTable key where
  rows := putRows key row table.rows
  nodup := by
    rw [map_key_putRows]
    split
    · exact table.nodup
    · rename_i absent
      exact List.Nodup.append table.nodup (nodup_singleton _)
        (by simpa [disjoint_singleton] using absent)

@[simp] theorem find_put (table : KeyedTable key) (row : α) (k : κ) :
    (table.put row).find k = if key row = k then some row else table.find k :=
  find?_putRows row table.rows k

/-- The rows after an upsert: the new one, and those of other keys. -/
theorem mem_put {other : α} : other ∈ (table.put row).rows ↔
      other = row ∨ other ∈ table.rows ∧ key other ≠ key row := by
  constructor
  · intro member
    have found := find_of_mem member
    rw [find_put] at found
    split at found
    case isTrue => exact .inl (Option.some.inj found).symm
    case isFalse differs =>
      exact .inr ⟨mem_of_find found, fun same => differs same.symm⟩
  · rintro (rfl | ⟨member, differs⟩)
    · exact mem_of_find (k := key other) (by simp)
    · apply mem_of_find (k := key other)
      rw [find_put, if_neg fun same => differs same.symm]
      exact find_of_mem member

theorem find_foldl_put {rows : List α} (distinct : (rows.map key).Nodup) (member : row ∈ rows) :
    (rows.foldl put table).find (key row) = some row := by
  induction rows generalizing table with
  | nil => simp at member
  | cons first rest ih =>
    rw [map_cons, nodup_cons] at distinct
    rcases mem_cons.mp member with rfl | later
    · have stays : ∀ (others : List α) (t : KeyedTable key), key row ∉ others.map key →
            (others.foldl put t).find (key row) = t.find (key row) := by
        intro others
        induction others with
        | nil => exact fun _ _ => rfl
        | cons other others unchanged =>
          intro t absent
          rw [map_cons, mem_cons, not_or] at absent
          rw [foldl_cons, unchanged _ absent.2, find_put,
            if_neg fun same => absent.1 same.symm]
      rw [foldl_cons, stays rest _ distinct.1, find_put, if_pos rfl]
    · exact ih distinct.2 later

/-- Add a row unless its key is taken, in which case nothing changes. -/
def insertNew (table : KeyedTable key) (row : α) : KeyedTable key :=
  if (table.find (key row)).isSome then table else table.put row

@[simp] theorem find_insertNew (table : KeyedTable key) (row : α) (k : κ) :
    (table.insertNew row).find k =
      if key row = k then (table.find k).or (some row) else table.find k := by
  unfold insertNew
  by_cases hit : key row = k
  · subst hit
    cases taken : table.find (key row) with
    | none => simp
    | some old => simp [taken]
  · split <;> simp [hit]

/-! ### Changing rows -/

/-- `UPDATE` of every row, leaving the keys. -/
def mapRows (table : KeyedTable key) (change : α → α)
    (keeps : ∀ row, key (change row) = key row) : KeyedTable key where
  rows := table.rows.map change
  nodup := by
    rw [map_map, show key ∘ change = key from funext keeps]
    exact table.nodup

@[simp] theorem find_mapRows (table : KeyedTable key) (change : α → α)
    (keeps : ∀ row, key (change row) = key row) (k : κ) :
    (table.mapRows change keeps).find k = (table.find k).map change := by
  cases found : table.find k with
  | none =>
    rw [Option.map_none]
    rw [find_eq_none_iff] at found ⊢
    intro row member
    obtain ⟨before, inTable, rfl⟩ := mem_map.mp member
    rw [keeps]
    exact found before inTable
  | some row =>
    have changed : change row ∈ (table.mapRows change keeps).rows :=
      mem_map_of_mem (mem_of_find found)
    have here := find_of_mem changed
    rw [keeps, key_of_find found] at here
    rw [here, Option.map_some]

/-! ### Removing rows -/

def keep (table : KeyedTable key) (accept : α → Bool) : KeyedTable key where
  rows := table.rows.filter accept
  nodup := (filter_sublist.map key).nodup table.nodup

@[simp] theorem find_keep (table : KeyedTable key) (accept : α → Bool)
    (k : κ) : (table.keep accept).find k = (table.find k).filter accept := by
  cases found : table.find k with
  | none =>
    rw [Option.filter_none]
    rw [find_eq_none_iff] at found ⊢
    intro row member
    exact found row (mem_of_mem_filter member)
  | some row =>
    have member := mem_of_find found
    have keyEq := key_of_find found
    by_cases accepted : accept row
    · rw [Option.filter_some, if_pos accepted]
      have kept : row ∈ (table.keep accept).rows := mem_filter.mpr ⟨member, accepted⟩
      simpa [keyEq] using find_of_mem kept
    · rw [Option.filter_some, if_neg accepted, find_eq_none_iff]
      intro other otherMember sameKey
      obtain ⟨otherInTable, otherAccepted⟩ := mem_filter.mp otherMember
      have equal := key_injOn otherInTable member (sameKey.trans keyEq.symm)
      exact accepted (equal ▸ otherAccepted)

/-- `DELETE … WHERE key = k`. -/
def erase (table : KeyedTable key) (k : κ) : KeyedTable key := table.keep fun row => key row ≠ k

@[simp] theorem find_erase (table : KeyedTable key) (gone k : κ) :
    (table.erase gone).find k = if gone = k then none else table.find k := by
  rw [erase, find_keep]
  cases found : table.find k with
  | none => simp
  | some row =>
    have keyEq := key_of_find found
    by_cases hit : gone = k
    · simp [hit, keyEq]
    · have miss : ¬ k = gone := fun equal => hit equal.symm
      simp [hit, keyEq, miss]

/-- Remove the row of a key only when it satisfies `hit`. -/
def eraseIf (table : KeyedTable key) (k : κ) (hit : α → Bool) : KeyedTable key :=
  table.keep fun row => !(decide (key row = k) && hit row)

@[simp] theorem find_eraseIf (table : KeyedTable key) (gone : κ) (hit : α → Bool) (k : κ) :
    (table.eraseIf gone hit).find k = if gone = k then (table.find k).filter (fun row => !hit row)
      else table.find k := by
  rw [eraseIf, find_keep]
  cases found : table.find k with
  | none => simp
  | some row =>
    have keyEq := key_of_find found
    by_cases same : gone = k
    · simp [same, keyEq, Option.filter_some]
    · have miss : ¬ k = gone := fun equal => same equal.symm
      simp [same, keyEq, miss, Option.filter_some]

end KeyedTable

/-- Rows with a primary key and a second column no two rows share. -/
structure UniqueTable {α κ μ : Type} (key : α → κ) (mark : α → μ) extends
    KeyedTable key where
  marks : (rows.map mark).Nodup

namespace UniqueTable

open List

variable {α κ μ : Type} {key : α → κ} {mark : α → μ}

variable {table : UniqueTable key mark}

theorem mark_injOn {first second : α}
    (firstMember : first ∈ table.rows) (secondMember : second ∈ table.rows)
    (same : mark first = mark second) : first = second :=
  inj_on_of_nodup_map table.marks firstMember secondMember same

/-- Another row carries this one's mark. -/
def Clash (table : UniqueTable key mark) (row : α) : Prop :=
  ∃ other ∈ table.rows, mark other = mark row ∧ key other ≠ key row

variable [DecidableEq κ]

instance [DecidableEq μ] (table : UniqueTable key mark) (row : α) : Decidable (table.Clash row) :=
  inferInstanceAs (Decidable (∃ other ∈ table.rows, _))

variable {row : α}

theorem marks_put (free : ¬ table.Clash row) :
    ((table.toKeyedTable.put row).rows.map mark).Nodup := by
  apply List.Nodup.map_on ?_ (List.Nodup.of_map key (table.toKeyedTable.put row).nodup)
  intro first firstMember second secondMember same
  rcases KeyedTable.mem_put.mp firstMember with rfl | ⟨old, apart⟩
  · rcases KeyedTable.mem_put.mp secondMember with rfl | ⟨old, apart⟩
    · rfl
    · exact absurd ⟨second, old, same.symm, apart⟩ free
  · rcases KeyedTable.mem_put.mp secondMember with rfl | ⟨other, _⟩
    · exact absurd ⟨first, old, same, apart⟩ free
    · exact mark_injOn old other same

variable [DecidableEq μ]

/-- `INSERT … ON CONFLICT(key) DO UPDATE`: refused when another row carries
the mark. -/
def upsert (table : UniqueTable key mark) (row : α) : Option (UniqueTable key mark) :=
  if free : ¬ table.Clash row then
    some { table.toKeyedTable.put row with marks := marks_put free }
  else none

/-- An upsert whose refusal changes nothing. -/
def save (table : UniqueTable key mark) (row : α) : UniqueTable key mark :=
  (table.upsert row).getD table

/-- `DELETE … WHERE mark = m`. -/
def deleteMark (table : UniqueTable key mark) (m : μ) : UniqueTable key mark :=
  { table.toKeyedTable.keep fun row => mark row ≠ m with
    marks := (filter_sublist.map mark).nodup table.marks }

omit [DecidableEq κ] in
theorem mem_deleteMark {m : μ} :
    row ∈ (table.deleteMark m).rows ↔ row ∈ table.rows ∧ mark row ≠ m := by
  simp [deleteMark, KeyedTable.keep]

omit [DecidableEq κ] in
/-- The rows left after several deletions. -/
theorem mem_foldl_deleteMark {ms : List μ} :
    row ∈ (ms.foldl deleteMark table).rows ↔ row ∈ table.rows ∧ mark row ∉ ms := by
  induction ms generalizing table with
  | nil => simp
  | cons m ms ih =>
    rw [foldl_cons, ih, mem_deleteMark, mem_cons, not_or, and_assoc]

/-! ### One save -/

theorem find_save (table : UniqueTable key mark) (row : α) (k : κ) : (table.save row).find k =
      if key row = k ∧ ¬ table.Clash row then some row else table.find k := by
  by_cases free : ¬ table.Clash row
  · simp [save, upsert, free]
  · simp [save, upsert, free]

theorem find_save_of_ne {k : κ}
    (differs : key row ≠ k) : (table.save row).find k = table.find k := by
  rw [find_save, if_neg fun hit => differs hit.1]

omit [DecidableEq μ] in
theorem find_ne_of_clash (clash : table.Clash row) : table.find (key row) ≠ some row := by
  obtain ⟨other, member, marked, apart⟩ := clash
  intro found
  apply apart
  rw [mark_injOn member (KeyedTable.mem_of_find found) marked]

/-! ### A list of rows saved in turn -/

variable {rows : List α}

/-- Saves of other keys leave a row as it is. -/
theorem find_foldl_save_of_not_mem {k : κ} (absent : k ∉ rows.map key) :
    (rows.foldl save table).find k = table.find k := by
  induction rows generalizing table with
  | nil => rfl
  | cons row rows ih =>
    rw [map_cons, mem_cons, not_or] at absent
    rw [foldl_cons, ih absent.2, find_save_of_ne fun same => absent.1 same.symm]

/-- No row later in the list is stored under the mark of an earlier one. -/
def InTurn (table : UniqueTable key mark) (rows : List α) : Prop :=
  rows.Pairwise fun p q => ∀ r ∈ table.rows, key r = key q → mark r ≠ mark p

def Replaced (table : UniqueTable key mark) (rows : List α) : Prop :=
  ∀ p ∈ rows, ∀ r ∈ table.rows, mark r = mark p → key r ∈ rows.map key

omit [DecidableEq κ] [DecidableEq μ] in
theorem not_clash_head (inTurn : table.InTurn (row :: rows))
    (replaced : table.Replaced (row :: rows)) : ¬ table.Clash row := by
  rintro ⟨other, member, marked, apart⟩
  have listed := replaced row mem_cons_self other member marked
  rw [map_cons, mem_cons] at listed
  rcases listed with same | later
  · exact apart same
  · obtain ⟨q, inRows, same⟩ := mem_map.mp later
    exact (pairwise_cons.mp inTurn).1 q inRows other member same.symm marked

theorem find_foldl_save (keys : (rows.map key).Nodup) (marks : (rows.map mark).Nodup)
    (inTurn : table.InTurn rows) (replaced : table.Replaced rows) (k : κ) :
    (rows.foldl save table).find k = (rows.find? fun row => key row = k).or (table.find k) := by
  induction rows generalizing table with
  | nil => simp
  | cons row rows ih =>
    rw [map_cons, nodup_cons] at keys marks
    have free := not_clash_head inTurn replaced
    have step : table.save row = { table.toKeyedTable.put row with marks := marks_put free } := by
      simp [save, upsert, free]
    have rowsAfter : ∀ r, r ∈ (table.save row).rows ↔
        r = row ∨ r ∈ table.rows ∧ key r ≠ key row := by
      intro r
      rw [step]
      exact KeyedTable.mem_put
    have laterTurn : (table.save row).InTurn rows := by
      refine List.Pairwise.imp_of_mem ?_ (pairwise_cons.mp inTurn).2
      intro p q _ qMember apart r member same
      rcases (rowsAfter r).mp member with rfl | ⟨old, _⟩
      · exact absurd (mem_map.mpr ⟨q, qMember, same.symm⟩) keys.1
      · exact apart r old same
    have laterReplaced : (table.save row).Replaced rows := by
      intro p pMember r member marked
      rcases (rowsAfter r).mp member with rfl | ⟨old, apart⟩
      · exact absurd (mem_map.mpr ⟨p, pMember, marked.symm⟩) marks.1
      · have listed := replaced p (mem_cons_of_mem _ pMember) r old marked
        rw [map_cons, mem_cons] at listed
        exact listed.resolve_left apart
    rw [foldl_cons, ih keys.2 marks.2 laterTurn laterReplaced, find_save]
    by_cases hit : key row = k
    · have absent : rows.find? (fun row => key row = k) = none := by
        rw [find?_eq_none]
        intro other member same
        apply keys.1
        rw [hit, ← of_decide_eq_true same]
        exact mem_map_of_mem member
      rw [absent, if_pos ⟨hit, free⟩, find?_cons_of_pos (by simpa using hit)]
      rfl
    · rw [if_neg fun held => hit held.1, find?_cons_of_neg (by simpa using hit)]

theorem not_saved {before after : List α} {other : α}
    (keys : ((before ++ row :: after).map key).Nodup)
    (member : other ∈ table.rows) (marked : mark other = mark row)
    (apart : key other ≠ key row) (pending : key other ∉ before.map key) :
    ((before ++ row :: after).foldl save table).find (key row) ≠ some row := by
  rw [map_append, map_cons, nodup_append] at keys
  have later : key row ∉ after.map key := (nodup_cons.mp keys.2.1).1
  rw [foldl_append, foldl_cons, find_foldl_save_of_not_mem later]
  have stays : (before.foldl save table).find (key other) = some other := by
    rw [find_foldl_save_of_not_mem pending]
    exact KeyedTable.find_of_mem member
  have clash : (before.foldl save table).Clash row :=
    ⟨other, KeyedTable.mem_of_find stays, marked, apart⟩
  rw [find_save, if_neg fun held => held.2 clash]
  exact find_ne_of_clash clash

/-- A list of rows saved in turn arrives whole exactly when no row is stored
under the mark of an earlier one, and every stored row with one of the marks
is replaced. -/
theorem saved_iff (keys : (rows.map key).Nodup) (marks : (rows.map mark).Nodup) :
    (∀ row ∈ rows, (rows.foldl save table).find (key row) = some row) ↔
      table.InTurn rows ∧ table.Replaced rows := by
  constructor
  · intro arrived
    have taken : ∀ before p after, rows = before ++ p :: after →
        ∀ r ∈ table.rows, mark r = mark p → key r ≠ key p → key r ∈ before.map key := by
      intro before p after split r member marked apart
      by_contra pending
      subst split
      exact not_saved keys member marked apart pending (arrived p (by simp))
    refine ⟨?_, ?_⟩
    · apply pairwise_iff_forall_sublist.mpr
      intro p q pair r member same marked
      obtain ⟨first, second, split, inFirst, inSecond⟩ := cons_sublist_iff.mp pair
      obtain ⟨before, between, rfl⟩ := append_of_mem inFirst
      have later : q ∈ second := singleton_sublist.mp inSecond
      rw [append_assoc, cons_append] at split
      have distinct := keys
      rw [split, map_append, map_cons, map_append,
        nodup_append, nodup_cons] at distinct
      have qKey : key q ∈ between.map key ++ second.map key :=
        mem_append_right _ (mem_map_of_mem later)
      have apart : key r ≠ key p := by
        rw [same]
        exact fun equal => distinct.2.1.1 (equal ▸ qKey)
      have earlier := taken before p _ split r member marked apart
      rw [same] at earlier
      exact distinct.2.2 _ earlier _ (mem_cons_of_mem _ qKey) rfl
    · intro p pMember r member marked
      obtain ⟨before, after, split⟩ := append_of_mem pMember
      by_cases same : key r = key p
      · rw [same]
        exact mem_map_of_mem pMember
      · rw [split, map_append]
        exact mem_append_left _ (taken before p after split r member marked same)
  · rintro ⟨inTurn, replaced⟩ row member
    have listed : rows.find? (fun other => key other = key row) = some row :=
      KeyedTable.find_of_mem (show row ∈ (⟨rows, keys⟩ : KeyedTable key).rows from member)
    rw [find_foldl_save keys marks inTurn replaced, listed]
    rfl

end UniqueTable
