/-
Module: RiftRoute.Safety.Records
Purpose: The records applies make when they commit (`Options.OnCommit`), with
  applies numbered in the order they take the lock, and what a step does to a
  transaction's record and to its slot in the pending table.
Trusted boundary: human-reviewed spec
-/
import RiftRoute.Safety.Resolutions

namespace RiftRoute

/-- What became of a transaction's record. -/
inductive RecState where
  /-- On probation: a record may still take its place. -/
  | recOpen
  /-- Its record has run. -/
  | recCommitted
  /-- Its record is dropped. -/
  | recRolledBack
deriving DecidableEq, Repr

/-- The record of a transaction; applies built beside it refer to it past its
end. -/
structure Slot where
  id : String
  state : RecState := .recOpen
  /-- The apply whose record it is, if that one has one. -/
  onCommit : Option Nat
deriving DecidableEq

/-- How an apply left the lock. -/
inductive Fate where
  /-- A dry run, a build error, a guardrail or a change that awaits
  confirmation: nothing was touched. -/
  | refused
  /-- There was nothing to change. -/
  | unchanged
  /-- An operation failed, and it was undone. -/
  | failed
  /-- Unguarded: committed at once. -/
  | committed
  | probation (id : String)
deriving DecidableEq, Repr

/-- An apply that has left the lock. -/
structure Ended where
  number : Nat
  builtOnRecord : Bool
  /-- The transactions that were on probation when it was last built. -/
  beside : List String
  fate : Fate

structure Records where
  /-- The applies that took the lock so far; the last of them has this
  number. -/
  applies : Nat := 0
  /-- The apply that holds the lock was built with an `OnCommit`. -/
  carries : Bool := false
  slots : KeyedTable Slot.id := .empty
  /-- The applies whose record has run, in that order. -/
  ran : List Nat := []
  ended : List Ended := []

namespace Records

variable (r : Records) (id : String)

def stateOf : Option RecState := (r.slots.find id).map Slot.state

/-- An apply takes the lock. -/
def lock : Records := { r with applies := r.applies + 1, carries := false }

/-- The apply leaves the lock.  Route operations carry no record and are not
counted. -/
def close (q : Prepare) (fate : Fate) : Records :=
  if q.ownership then
    { r with
      carries := false
      ended := r.ended ++ [{ number := r.applies
                             builtOnRecord := q.builtOnRecord
                             beside := q.beside, fate := fate }] }
  else r

/-- A change that committed at once is recorded. -/
def recordNow : Records :=
  if r.carries then { r with ran := r.ran ++ [r.applies] } else r

/-- A transaction goes on probation. -/
def register : Records :=
  { r with
    slots := r.slots.put
      { id := id, onCommit := if r.carries then some r.applies else none } }

/-- A record takes the place of an open one. -/
def takePlace (k : Nat) (slots : KeyedTable Slot.id) (id : String) : KeyedTable Slot.id :=
  match slots.find id with
  | some slot =>
    if slot.state = .recOpen then slots.put { slot with onCommit := some k }
    else slots
  | none => slots

/-- A change that changed nothing, built while the transactions `beside` were
on probation. -/
def recordUnchanged (builtOnRecord : Bool) (beside : List String) : Records :=
  if r.carries = false then r
  else if beside ≠ [] ∧ builtOnRecord then r
  else if beside.any fun id => r.stateOf id = some .recRolledBack then r
  else
    let openOnes := beside.filter fun id => r.stateOf id = some .recOpen
    if openOnes = [] then { r with ran := r.ran ++ [r.applies] }
    else { r with slots := openOnes.foldl (takePlace r.applies) r.slots }

/-- A transaction's record is closed as it resolves: run if it commits,
dropped otherwise. -/
def settleRecord (commit : Bool) : Records :=
  match r.slots.find id with
  | some slot =>
    if slot.state = .recOpen then
      if commit then
        { r with
          slots := r.slots.put
            { slot with state := .recCommitted, onCommit := none }
          ran := r.ran ++ slot.onCommit.toList }
      else
        { r with
          slots := r.slots.put
            { slot with state := .recRolledBack, onCommit := none } }
    else r
  | none => r

/-- What a step of the protocol does to the records. -/
def after (p : Serving) (e : Event) : Records :=
  match e, p.holder with
  | .lockApply _ _ _, _ => r.lock
  | .prepare .superseded, .preparing q =>
    -- what is built again starts from the options it came with
    if q.beside ≠ [] ∧ q.builtOnRecord then { r with carries := false } else r
  | .giveUp, .preparing q => r.close q .refused
  | .undone _, .executing x => r.close x.prepared .failed
  | .finish _, .executing x =>
    if x.prepared.unguarded then r.recordNow.close x.prepared .committed
    else (r.register x.id).close x.prepared (.probation x.id)
  | _, _ => r

end Records

/-! ### The process with its records -/

/-- A serving process and its applies' records. -/
structure Recording where
  world : World
  serving : Serving := {}
  records : Records := {}
  started : List String := []
  resolved : List (String × Outcome) := []

inductive RecordEvent where
  | serving (e : Event)
  /-- `Apply`, which is handed its set, asks what is on probation only after
  it has read the owned routes. -/
  | onProbation
  /-- The build sets `OnCommit`, or it came with the options. -/
  | setOnCommit
  /-- The plan is empty: the apply records that and is done. -/
  | unchanged
  /-- A resolver closes its transaction's record. -/
  | settleRecord (id : String)

namespace Recording

/-- The transaction whose record must be closed before an event: a rollback
closes it first of all, a commit before the transaction is done. -/
def closesFirst : Event → Option String
  | .resolver id (.rollbackOp _) => some id
  | .resolver id (.rollbackRecord _) => some id
  | .resolver id (.rollbackEnd _) => some id
  | .finishTx id => some id
  | _ => none

def step (M : Matching) (platform : String) (s : Recording) : RecordEvent → Option Recording
  | .serving e =>
    if (closesFirst e).any fun id => s.records.stateOf id = some .recOpen then
      none
    else
      (s.serving.step M platform s.world e).map fun (w, p) =>
        { world := w, serving := p, records := s.records.after s.serving e
          started := s.started ++ (s.serving.starts e).toList
          resolved := s.resolved ++ (s.serving.resolves e).toList }
  | .onProbation =>
    match s.serving.holder with
    | .preparing q =>
      if q.ownership ∧ q.builtOnRecord = false ∧ q.stage = .read then
        let beside := s.serving.pending.rows.filter PendingTx.ownership
        some { s with
          serving := { s.serving with
            holder := .preparing
              { q with beside := beside.map PendingTx.id } } }
      else none
    | _ => none
  | .setOnCommit =>
    match s.serving.holder with
    | .preparing q =>
      if q.ownership ∧ q.stage = .built then
        some { s with records := { s.records with carries := true } }
      else none
    | _ => none
  | .unchanged =>
    match s.serving.holder with
    | .preparing q =>
      if q.ownership ∧ q.stage = .planned ∧ q.plan.ops = [] then
        some { s with
          serving := { s.serving with holder := .free }
          records := (s.records.recordUnchanged q.builtOnRecord
            q.beside).close q .unchanged }
      else none
    | _ => none
  | .settleRecord id =>
    match s.serving.pending.find id with
    | some t =>
      match t.phase with
      | .settled =>
        some { s with records := s.records.settleRecord id true }
      | .rollingBack _ _ _ =>
        some { s with records := s.records.settleRecord id false }
      | _ => none
    | none => none

end Recording

/-- A process that records its changes, over a provider. -/
def recording (M : Matching) (platform : String) : Machine Recording RecordEvent where
  step := Recording.step M platform

def Committed (resolved : List (String × Outcome)) (id : String) : Prop :=
  (id, .committed) ∈ resolved ∧ (id, .rolledBack) ∉ resolved

/-- An apply whose record may run: it was not refused and did not fail, its
transaction is fine, and so are those it was built beside, where it changed
nothing or was built on what they recorded. -/
structure Ended.Stands (fine : String → Prop) (a : Ended) : Prop where
  notRefused : a.fate ≠ .refused
  notFailed : a.fate ≠ .failed
  probation : ∀ id, a.fate = .probation id → fine id
  beside : a.fate = .unchanged ∨ a.builtOnRecord = true → ∀ id ∈ a.beside, fine id

/-- The records follow the kernel. -/
structure Recording.Follows (s : Recording) : Prop where
  /-- No record runs twice. -/
  once : s.records.ran.Nodup
  /-- They run in the order in which their applies took the lock. -/
  order : s.records.ran.Pairwise (· < ·)
  /-- Only changes are recorded that stand. -/
  stands : ∀ a ∈ s.records.ended, a.number ∈ s.records.ran → a.Stands (Committed s.resolved)
  /-- Each is one of an apply that is done under the lock. -/
  ended : ∀ k ∈ s.records.ran, ∃ a ∈ s.records.ended, a.number = k

open List

theorem Ended.Stands.mono {fine also : String → Prop} {a : Ended}
    (held : a.Stands fine) (weaker : ∀ id, fine id → also id) :
    a.Stands also where
  notRefused := held.notRefused
  notFailed := held.notFailed
  probation id fate := weaker id (held.probation id fate)
  beside depends id member := weaker id (held.beside depends id member)

namespace Records

/-- The transaction's record has run. -/
def HasCommitted (r : Records) (id : String) : Prop := r.stateOf id = some .recCommitted

def Carries (r : Records) (id : String) (k : Nat) : Prop :=
  ∃ slot, r.slots.find id = some slot ∧ slot.state = .recOpen ∧ slot.onCommit = some k

/-- An apply known by its number stands as long as these do. -/
def StandsAs (r : Records) (k : Nat) (fine : String → Prop) : Prop :=
  ∃ a ∈ r.ended, a.number = k ∧ a.Stands fine

/-- What holds of the records; `busy` says that an apply holds the lock. -/
structure Kept (r : Records) (busy : Prop) : Prop where
  sorted : r.ran.Pairwise (· < ·)
  bound : ∀ a ∈ r.ended, a.number ≤ r.applies
  before : busy → ∀ a ∈ r.ended, a.number < r.applies
  distinct : (r.ended.map Ended.number).Nodup
  stands : ∀ k ∈ r.ran, r.StandsAs k r.HasCommitted
  carried : ∀ id k, r.Carries id k → r.StandsAs k (fun other => other = id ∨ r.HasCommitted other) ∧
      ∀ j ∈ r.ran, j < k

variable {r r' : Records} {busy : Prop}

variable {fine : String → Prop} {k : Nat}

theorem StandsAs.mono {also : String → Prop}
    (held : r.StandsAs k fine) (more : ∀ a ∈ r.ended, a ∈ r'.ended)
    (weaker : ∀ id, fine id → also id) : r'.StandsAs k also := by
  obtain ⟨a, member, isNumber, stands⟩ := held
  exact ⟨a, more a member, isNumber, stands.mono weaker⟩

variable {id : String}

theorem Carries.isOpen (carried : r.Carries id k) : r.stateOf id = some .recOpen := by
  obtain ⟨slot, found, isOpen, _⟩ := carried
  rw [stateOf, found, Option.map_some, isOpen]

theorem Kept.start : ({} : Records).Kept False where
  sorted := List.Pairwise.nil
  bound _ member := absurd member not_mem_nil
  before busy := busy.elim
  distinct := nodup_nil
  stands _ member := absurd member not_mem_nil
  carried id k := by
    rintro ⟨slot, found, _⟩
    cases found

theorem Kept.ran_lt (held : r.Kept busy) (isBusy : busy) {j : Nat}
    (member : j ∈ r.ran) : j < r.applies := by
  obtain ⟨a, isEnded, rfl, _⟩ := held.stands j member
  exact held.before isBusy a isEnded

theorem Kept.lock (held : r.Kept False) : r.lock.Kept True where
  sorted := held.sorted
  bound a member := (held.bound a member).trans (Nat.le_succ _)
  before _ a member := Nat.lt_succ_of_le (held.bound a member)
  distinct := held.distinct
  stands := held.stands
  carried := held.carried

theorem Kept.ends (held : r.Kept True) {a : Ended}
    (isLast : a.number = r.applies) (applies : r'.applies = r.applies)
    (ended : r'.ended = r.ended ++ [a])
    (keeps : ∀ id, r.HasCommitted id → r'.HasCommitted id)
    (ran : r'.ran = r.ran ∨ r'.ran = r.ran ++ [r.applies] ∧
      a.Stands r'.HasCommitted ∧ ∀ id k, ¬ r'.Carries id k)
    (carried : ∀ id k, r'.Carries id k → r.Carries id k ∨ k = r.applies ∧
      a.Stands fun other => other = id ∨ r'.HasCommitted other) :
    r'.Kept False := by
  have more : ∀ b ∈ r.ended, b ∈ r'.ended := by
    intro b member
    rw [ended]
    exact mem_append_left _ member
  have isEnded : a ∈ r'.ended := by
    rw [ended]
    exact mem_append_right _ (mem_singleton.mpr rfl)
  have earlier : ∀ j ∈ r.ran, j < r.applies := fun j => held.ran_lt trivial
  have stillStands : ∀ k ∈ r.ran, r'.StandsAs k r'.HasCommitted :=
    fun k member => (held.stands k member).mono more keeps
  constructor
  · rcases ran with same | ⟨appended, _, _⟩
    · rw [same]
      exact held.sorted
    · rw [appended]
      refine pairwise_append.mpr ⟨held.sorted, pairwise_singleton _ _, ?_⟩
      intro j member last isLast
      rw [mem_singleton.mp isLast]
      exact earlier j member
  · intro b member
    rw [ended] at member
    rw [applies]
    rcases mem_append.mp member with old | new
    · exact held.bound b old
    · rw [mem_singleton.mp new, isLast]
  · exact False.elim
  · rw [ended, map_append]
    refine concat_eq_append ▸ held.distinct.concat ?_
    intro listed
    obtain ⟨b, member, same⟩ := mem_map.mp listed
    have lt := held.before trivial b member
    omega
  · intro k member
    rcases ran with same | ⟨appended, stands, _⟩
    · exact stillStands k (same ▸ member)
    · rw [appended] at member
      rcases mem_append.mp member with old | new
      · exact stillStands k old
      · exact ⟨a, isEnded, isLast.trans (mem_singleton.mp new).symm, stands⟩
  · intro id k carries
    rcases ran with same | ⟨_, _, none⟩
    · rw [same]
      rcases carried id k carries with old | ⟨rfl, stands⟩
      · obtain ⟨stands, above⟩ := held.carried id k old
        exact ⟨stands.mono more fun other => Or.imp_right (keeps other), above⟩
      · exact ⟨⟨a, isEnded, isLast, stands⟩, earlier⟩
    · exact absurd carries (none id k)

/-! ### The ends of an apply -/

variable {q : Prepare}

section

variable (r : Records) (q : Prepare) (fate : Fate)

@[simp] theorem close_slots :
    (r.close q fate).slots = r.slots := by
  unfold close
  split <;> rfl

@[simp] theorem close_ran :
    (r.close q fate).ran = r.ran := by
  unfold close
  split <;> rfl

@[simp] theorem close_applies :
    (r.close q fate).applies = r.applies := by
  unfold close
  split <;> rfl

end

theorem close_ended (policy : q.ownership = true) (r : Records) (fate : Fate) :
    (r.close q fate).ended = r.ended ++ [{ number := r.applies
                                           builtOnRecord := q.builtOnRecord
                                           beside := q.beside
                                           fate := fate }] := by
  rw [close, if_pos policy]

theorem carries_congr (same : r'.slots = r.slots) : r'.Carries id k ↔ r.Carries id k := by
  rw [Carries, Carries, same]

theorem hasCommitted_congr (same : r'.slots = r.slots) :
    r'.HasCommitted id ↔ r.HasCommitted id := by
  rw [HasCommitted, HasCommitted, stateOf, stateOf, same]

theorem Kept.close (held : r.Kept True) (policy : q.ownership = true) (fate : Fate) :
    (r.close q fate).Kept False := by
  have slots := close_slots r q fate
  exact held.ends rfl (by simp) (close_ended policy r fate)
    (fun _ => (hasCommitted_congr slots).mpr) (.inl (by simp))
    fun _ _ carries => .inl ((carries_congr slots).mp carries)

theorem stands_ahead {a : Ended}
    (ahead : a.fate = .committed ∨ ∃ id, a.fate = .probation id ∧ fine id)
    (built : a.builtOnRecord = true → a.beside = []) : a.Stands fine where
  notRefused := by rcases ahead with fate | ⟨_, fate, _⟩ <;> simp [fate]
  notFailed := by rcases ahead with fate | ⟨_, fate, _⟩ <;> simp [fate]
  probation id fate := by
    rcases ahead with isCommitted | ⟨other, isProbation, fine⟩
    · rw [fate] at isCommitted
      cases isCommitted
    · rw [fate] at isProbation
      obtain rfl := Fate.probation.inj isProbation
      exact fine
  beside depends id member := by
    rcases depends with isUnchanged | onRecord
    · rcases ahead with fate | ⟨_, fate, _⟩ <;> simp [fate] at isUnchanged
    · rw [built onRecord] at member
      cases member

theorem Kept.commitNow (held : r.Kept True) (policy : q.ownership = true)
    (built : q.builtOnRecord = true → q.beside = [])
    (none : ∀ id k, ¬ r.Carries id k) :
    (r.recordNow.close q .committed).Kept False := by
  by_cases carries : r.carries = true
  · have isNow : r.recordNow = { r with ran := r.ran ++ [r.applies] } := by
      rw [recordNow, if_pos carries]
    have slots : (r.recordNow.close q .committed).slots = r.slots := by
      simp [isNow]
    have none' : ∀ id k, ¬ (r.recordNow.close q .committed).Carries id k :=
      fun id k carries => none id k ((carries_congr slots).mp carries)
    have ended := close_ended policy r.recordNow .committed
    rw [isNow] at ended none' slots ⊢
    exact held.ends rfl (by simp) ended (fun _ => (hasCommitted_congr slots).mpr)
      (.inr ⟨by simp, stands_ahead (.inl rfl) built, none'⟩)
      fun id k carries => absurd carries (none' id k)
  · have isSame : r.recordNow = r := by
      rw [recordNow, if_neg carries]
    rw [isSame]
    exact held.close policy .committed

theorem find_register (r : Records) (id other : String) : (r.register id).slots.find other =
      if id = other then
        some { id := id, onCommit := if r.carries then some r.applies else none }
      else r.slots.find other := by
  rw [register, KeyedTable.find_put]

variable {other : String}

theorem hasCommitted_register (fresh : r.slots.find id = none) (held : r.HasCommitted other) :
    (r.register id).HasCommitted other := by
  have apart : id ≠ other := by
    rintro rfl
    rw [HasCommitted, stateOf, fresh] at held
    cases held
  rw [HasCommitted, stateOf, find_register, if_neg apart]
  exact held

theorem carries_register (carried : (r.register id).Carries other k) :
    r.Carries other k ∨ other = id ∧ r.carries = true ∧ k = r.applies := by
  obtain ⟨slot, found, isOpen, isRecord⟩ := carried
  rw [find_register] at found
  split at found
  · rename_i here
    obtain rfl := Option.some.inj found
    refine .inr ⟨here.symm, ?_⟩
    split at isRecord
    · rename_i carries
      exact ⟨carries, (Option.some.inj isRecord).symm⟩
    · cases isRecord
  · exact .inl ⟨slot, found, isOpen, isRecord⟩

theorem Kept.probation (held : r.Kept True) (policy : q.ownership = true)
    (built : q.builtOnRecord = true → q.beside = [])
    (fresh : r.slots.find id = none) :
    ((r.register id).close q (.probation id)).Kept False := by
  have slots := close_slots (r.register id) q (.probation id)
  refine held.ends rfl ?_ (close_ended policy _ _) ?_ (.inl ?_) ?_
  · simp [register]
  · intro other committed
    exact (hasCommitted_congr slots).mpr (hasCommitted_register fresh committed)
  · simp [register]
  · intro other k carries
    rcases carries_register ((carries_congr slots).mp carries) with
      old | ⟨rfl, _, rfl⟩
    · exact .inl old
    · exact .inr ⟨rfl, stands_ahead (.inr ⟨_, rfl, .inl rfl⟩) built⟩

theorem Kept.registerNone (held : r.Kept busy)
    (none : r.carries = false) (fresh : r.slots.find id = .none) :
    (r.register id).Kept busy where
  sorted := held.sorted
  bound := held.bound
  before := held.before
  distinct := held.distinct
  stands k member := (held.stands k member).mono (fun _ same => same)
    fun _ => hasCommitted_register fresh
  carried other k carries := by
    rcases carries_register carries with old | ⟨_, isRecord, _⟩
    · obtain ⟨stands, above⟩ := held.carried other k old
      exact ⟨stands.mono (fun _ same => same) fun _ =>
        Or.imp_right (hasCommitted_register fresh), above⟩
    · rw [none] at isRecord
      cases isRecord

/-! ### A change that changes nothing -/

theorem find_takePlace (k : Nat) (slots : KeyedTable Slot.id) (id other : String) :
    (takePlace k slots id).find other = (slots.find other).map fun slot =>
        if id = other ∧ slot.state = .recOpen then
          { slot with onCommit := some k }
        else slot := by
  unfold takePlace
  by_cases here : id = other
  · subst here
    cases found : slots.find id with
    | none => simp [found]
    | some slot =>
      have keyEq : slot.id = id := KeyedTable.key_of_find found
      by_cases isOpen : slot.state = .recOpen
      · simp [isOpen, KeyedTable.find_put, keyEq]
      · simp [isOpen, found]
  · cases found : slots.find id with
    | none => simp [here]
    | some slot =>
      have keyEq : slot.id = id := KeyedTable.key_of_find found
      by_cases isOpen : slot.state = .recOpen
      · simp [isOpen, KeyedTable.find_put, keyEq, here]
      · simp [isOpen, here]

theorem find_foldl_takePlace (k : Nat) (ids : List String)
    (slots : KeyedTable Slot.id) (other : String) :
    (ids.foldl (takePlace k) slots).find other = (slots.find other).map fun slot =>
        if other ∈ ids ∧ slot.state = .recOpen then
          { slot with onCommit := some k }
        else slot := by
  induction ids generalizing slots with
  | nil => simp
  | cons id ids ih =>
    rw [foldl_cons, ih, find_takePlace, Option.map_map]
    congr 1
    funext slot
    by_cases isOpen : slot.state = .recOpen
    · by_cases here : id = other
      · simp [here, isOpen]
      · simp [here, isOpen, Ne.symm here]
    · simp [isOpen]

theorem stateOf_takePlaces (r : Records) (k : Nat) (ids : List String) (id : String) :
    ({ r with slots := ids.foldl (takePlace k) r.slots } : Records).stateOf id = r.stateOf id := by
  rw [stateOf, stateOf, find_foldl_takePlace, Option.map_map]
  congr 1
  funext slot
  dsimp only [Function.comp]
  split <;> rfl

theorem carries_takePlaces {j : Nat} {ids : List String}
    (carried : ({ r with slots := ids.foldl (takePlace k) r.slots } : Records).Carries id j) :
    r.Carries id j ∨ j = k ∧ id ∈ ids ∧ r.stateOf id = some .recOpen := by
  have isOpen := carried.isOpen
  rw [stateOf_takePlaces] at isOpen
  obtain ⟨slot, found, slotOpen, isRecord⟩ := carried
  rw [find_foldl_takePlace] at found
  obtain ⟨before, wasThere, rfl⟩ := Option.map_eq_some_iff.mp found
  split at isRecord
  · rename_i taken
    exact .inr ⟨(Option.some.inj isRecord).symm, taken.1, isOpen⟩
  · rename_i notTaken
    rw [if_neg notTaken] at slotOpen
    exact .inl ⟨before, wasThere, slotOpen, isRecord⟩

/-- What the unchanged apply's record does: nothing, it runs, or it takes the
place of those that the open transactions beside it carry. -/
inductive Unchanged (r : Records) (builtOnRecord : Bool)
    (beside : List String) : Records → Prop where
  | dropped : Unchanged r builtOnRecord beside r
  | ran (clean : ∀ id ∈ beside, r.stateOf id ≠ some .recRolledBack)
      (closed : ∀ id ∈ beside, r.stateOf id ≠ some .recOpen) :
      Unchanged r builtOnRecord beside { r with ran := r.ran ++ [r.applies] }
  | taken (clean : ∀ id ∈ beside, r.stateOf id ≠ some .recRolledBack) :
      Unchanged r builtOnRecord beside
        { r with slots := (beside.filter fun id =>
            r.stateOf id = some .recOpen).foldl (takePlace r.applies) r.slots }

theorem unchanged_recordUnchanged (r : Records) (builtOnRecord : Bool) (beside : List String) :
    r.Unchanged builtOnRecord beside (r.recordUnchanged builtOnRecord beside) := by
  unfold recordUnchanged
  split
  · exact .dropped
  · split
    · exact .dropped
    · split
      · exact .dropped
      · rename_i noneRolledBack
        have clean : ∀ id ∈ beside, r.stateOf id ≠ some .recRolledBack := by
          simpa using noneRolledBack
        dsimp only
        split
        · rename_i noneOpen
          refine .ran clean ?_
          simpa using noneOpen
        · exact .taken clean

theorem hasCommitted_of_closed (known : r.stateOf id ≠ none)
    (notOpen : r.stateOf id ≠ some .recOpen)
    (clean : r.stateOf id ≠ some .recRolledBack) : r.HasCommitted id := by
  rw [HasCommitted]
  cases state : r.stateOf id with
  | none => exact absurd state known
  | some isState =>
    cases isState with
    | recOpen => exact absurd state notOpen
    | recRolledBack => exact absurd state clean
    | recCommitted => rfl

theorem stands_unchanged {a : Ended}
    (fate : a.fate = .unchanged) (beside : ∀ id ∈ a.beside, fine id) :
    a.Stands fine where
  notRefused := by simp [fate]
  notFailed := by simp [fate]
  probation id isProbation := by simp [fate] at isProbation
  beside _ := beside

theorem Kept.unchanged (held : r.Kept True) (policy : q.ownership = true)
    (known : ∀ id ∈ q.beside, r.stateOf id ≠ none)
    (beside : ∀ id k, r.Carries id k → id ∈ q.beside)
    (alone : ∀ id other, r.stateOf id = some .recOpen →
      r.stateOf other = some .recOpen → id = other) :
    ((r.recordUnchanged q.builtOnRecord q.beside).close q .unchanged).Kept False := by
  have shape := unchanged_recordUnchanged r q.builtOnRecord q.beside
  generalize r.recordUnchanged q.builtOnRecord q.beside = next at shape ⊢
  cases shape with
  | dropped => exact held.close policy .unchanged
  | ran clean closed =>
    -- what is carried would be open beside it
    have none : ∀ id k, ¬ r.Carries id k := fun id k carries =>
      closed id (beside id k carries) carries.isOpen
    have stands := stands_unchanged (a := ⟨r.applies, q.builtOnRecord,
      q.beside, .unchanged⟩) rfl fun id member =>
        hasCommitted_of_closed (known id member) (closed id member) (clean id member)
    have slots := close_slots { r with ran := r.ran ++ [r.applies] } q .unchanged
    exact held.ends rfl (by simp) (close_ended policy _ _) (fun _ => (hasCommitted_congr slots).mpr)
      (.inr ⟨by simp, stands.mono fun _ => (hasCommitted_congr slots).mpr,
        fun id k carries => none id k ((carries_congr slots).mp carries)⟩)
      fun id k carries => .inl ((carries_congr slots).mp carries)
  | taken clean =>
    have sameState := stateOf_takePlaces r r.applies (q.beside.filter fun id =>
      r.stateOf id = some .recOpen)
    refine held.ends (a := ⟨r.applies, q.builtOnRecord, q.beside,
      .unchanged⟩) rfl (by simp) (close_ended policy _ _) ?_
      (.inl (by simp)) ?_
    · intro id committed
      refine (hasCommitted_congr (close_slots _ _ _)).mpr ?_
      exact (sameState id).trans committed
    · intro id k carries
      rcases carries_takePlaces ((carries_congr
        (close_slots _ _ _)).mp carries) with old | ⟨rfl, _, isOpen⟩
      · exact .inl old
      · refine .inr ⟨rfl, stands_unchanged rfl fun other member => ?_⟩
        by_cases otherOpen : r.stateOf other = some .recOpen
        · exact .inl (alone other id otherOpen isOpen)
        · refine .inr ((hasCommitted_congr (close_slots _ _ _)).mpr ?_)
          exact (sameState other).trans (hasCommitted_of_closed (known other member) otherOpen
              (clean other member))

/-! ### A transaction's record is closed -/

theorem find_settleRecord (r : Records) (id other : String) (commit : Bool) :
    (r.settleRecord id commit).slots.find other = (r.slots.find other).map fun slot =>
        if id = other ∧ slot.state = .recOpen then
          { slot with
            state := if commit then .recCommitted else .recRolledBack
            onCommit := none }
        else slot := by
  unfold settleRecord
  cases found : r.slots.find id with
  | none =>
    by_cases here : id = other
    · subst here
      simp [found]
    · simp [here]
  | some slot =>
    have keyEq : slot.id = id := KeyedTable.key_of_find found
    by_cases isOpen : slot.state = .recOpen
    · by_cases here : id = other
      · subst here
        cases commit <;> simp [isOpen, KeyedTable.find_put, keyEq, found]
      · cases commit <;> simp [isOpen, KeyedTable.find_put, keyEq, here]
    · by_cases here : id = other
      · subst here
        simp [isOpen, found]
      · simp [isOpen, here]

theorem stateOf_settleRecord (r : Records) (id other : String) (commit : Bool) :
    (r.settleRecord id commit).stateOf other = if id = other ∧ r.stateOf id = some .recOpen then
        some (if commit then .recCommitted else .recRolledBack)
      else r.stateOf other := by
  rw [stateOf, find_settleRecord, stateOf, stateOf]
  by_cases here : id = other
  · subst here
    cases found : r.slots.find id with
    | none => simp
    | some slot => by_cases isOpen : slot.state = .recOpen <;> simp [isOpen]
  · simp [here]

theorem ended_settleRecord (r : Records) (id : String) (commit : Bool) :
    (r.settleRecord id commit).ended = r.ended ∧ (r.settleRecord id commit).applies = r.applies ∧
      (r.settleRecord id commit).carries = r.carries := by
  unfold settleRecord
  split
  · split
    · split <;> exact ⟨rfl, rfl, rfl⟩
    · exact ⟨rfl, rfl, rfl⟩
  · exact ⟨rfl, rfl, rfl⟩

theorem ran_settleRecord (r : Records) (id : String) (commit : Bool) :
    (r.settleRecord id commit).ran = r.ran ∨ commit = true ∧ ∃ k, r.Carries id k ∧
        (r.settleRecord id commit).ran = r.ran ++ [k] := by
  cases found : r.slots.find id with
  | none => simp [settleRecord, found]
  | some slot =>
    by_cases isOpen : slot.state = .recOpen
    · cases commit with
      | false => simp [settleRecord, found, isOpen]
      | true =>
        cases isRecord : slot.onCommit with
        | none => simp [settleRecord, found, isOpen, isRecord]
        | some k =>
          refine .inr ⟨rfl, k, ⟨slot, found, isOpen, isRecord⟩, ?_⟩
          simp [settleRecord, found, isOpen, isRecord]
    · simp [settleRecord, found, isOpen]

variable {commit : Bool}

theorem hasCommitted_settleRecord (held : r.HasCommitted other) :
    (r.settleRecord id commit).HasCommitted other := by
  rw [HasCommitted, stateOf_settleRecord]
  split
  · rename_i here
    rw [HasCommitted, ← here.1, here.2] at held
    cases held
  · exact held

theorem carries_settleRecord (carried : (r.settleRecord id commit).Carries other k) :
    r.Carries other k ∧ other ≠ id := by
  obtain ⟨slot, found, slotOpen, isRecord⟩ := carried
  rw [find_settleRecord] at found
  obtain ⟨before, wasThere, rfl⟩ := Option.map_eq_some_iff.mp found
  split at isRecord
  · cases isRecord
  rename_i notSettled
  rw [if_neg notSettled] at slotOpen
  refine ⟨⟨before, wasThere, slotOpen, isRecord⟩, ?_⟩
  rintro rfl
  exact notSettled ⟨rfl, slotOpen⟩

theorem Kept.settleRecord (held : r.Kept busy) (alone : ∀ other k, r.Carries other k → other = id) :
    (r.settleRecord id commit).Kept busy := by
  obtain ⟨ended, applies, _⟩ := ended_settleRecord r id commit
  have more : ∀ a ∈ r.ended, a ∈ (r.settleRecord id commit).ended := by
    rw [ended]
    exact fun _ same => same
  have none : ∀ other k, ¬ (r.settleRecord id commit).Carries other k := by
    intro other k carries
    obtain ⟨before, apart⟩ := carries_settleRecord carries
    exact apart (alone other k before)
  refine ⟨?_, by rw [ended, applies]; exact held.bound, by rw [ended, applies]; exact held.before,
    by rw [ended]; exact held.distinct, ?_,
    fun other k carries => absurd carries (none other k)⟩
  · rcases ran_settleRecord r id commit with same | ⟨_, k, carried, ran⟩
    · rw [same]
      exact held.sorted
    · rw [ran]
      refine pairwise_append.mpr ⟨held.sorted, pairwise_singleton _ _, ?_⟩
      intro j member last isLast
      rw [mem_singleton.mp isLast]
      exact (held.carried id k carried).2 j member
  · have still : ∀ j ∈ r.ran, (r.settleRecord id commit).StandsAs j
        (r.settleRecord id commit).HasCommitted := fun j member =>
      (held.stands j member).mono more fun _ => hasCommitted_settleRecord
    intro j member
    rcases ran_settleRecord r id commit with same | ⟨commits, k, carried, ran⟩
    · exact still j (same ▸ member)
    · rw [ran] at member
      rcases mem_append.mp member with old | new
      · exact still j old
      · rw [mem_singleton.mp new]
        refine (held.carried id k carried).1.mono more ?_
        rintro other (rfl | committed)
        · rw [HasCommitted, stateOf_settleRecord, if_pos ⟨rfl, carried.isOpen⟩, if_pos commits]
        · exact hasCommitted_settleRecord committed

end Records

end RiftRoute

namespace RiftRoute

open Records

variable {M : Matching} {platform : String}

/-- Whether the lock's holder is an apply, not a route operation. -/
def Holder.policy : Holder → Bool
  | .preparing q => q.ownership
  | .executing x => x.prepared.ownership
  | _ => false

theorem Holder.policy_settle {holder : Holder} {settling next : Settling}
    (waits : holder.settling = some settling) :
    (holder.settle next).policy = holder.policy := by
  cases holder with
  | free | executing => cases waits
  | preparing | panicking => rfl

/-! ### What a step does to the pending transactions and the slots -/

/-- The pending table after a step, and the slots. -/
inductive Serving.PendingStep (M : Matching) (w w' : World) (p p' : Serving) :
    Event → Prop where
  | same {e : Event} (pending : p'.pending = p.pending)
      (slots : ∀ r : Records, (r.after p e).slots = r.slots) :
      PendingStep M w w' p p' e
  | decided {e : Event} (id : String) (decision : Decision)
      (pending : p'.pending = p.pending.decide id decision)
      (slots : ∀ r : Records, (r.after p e).slots = r.slots) :
      PendingStep M w w' p p' e
  | resolved {id : String} {t t' : PendingTx} {r : ResolveEvent}
      (found : p.pending.find id = some t) (moves : t.Moves M w r w' t')
      (pending : p'.pending = p.pending.put t') :
      PendingStep M w w' p p' (.resolver id r)
  | finished {id : String} (pending : p'.pending = p.pending.erase id) :
      PendingStep M w w' p p' (.finishTx id)
  | probation {x : Execution} {fails : Bool} (holds : p.holder = .executing x)
      (guarded : x.prepared.unguarded = false)
      (pending : p'.pending = p.pending.put x.pendingTx) :
      PendingStep M w w' p p' (.finish fails)

theorem Records.slots_recordNow (r : Records) : r.recordNow.slots = r.slots := by
  unfold recordNow
  split <;> rfl

theorem Serving.pendingStep_of_finish {w w' : World} {p p' : Serving} {fails : Bool}
    (stepped : p.step M platform w (.finish fails) = some (w', p')) :
    Serving.PendingStep M w w' p p' (.finish fails) := by
  obtain ⟨x, holds, ⟨unguarded, rfl⟩ | ⟨guarded, _, rfl⟩⟩ := Serving.finish_of_step stepped
  · refine .same rfl fun r => ?_
    simp [after, holds, unguarded, slots_recordNow]
  · exact .probation holds guarded rfl

theorem Serving.pendingStep_of_step {w w' : World} {p p' : Serving} {e : Event}
    (stepped : p.step M platform w e = some (w', p')) :
    Serving.PendingStep M w w' p p' e := by
  cases Serving.moves_of_step stepped with
  | lockApply | lockRouteOp | await | journal | execute | panicStart | panicLock | panicFlush =>
    exact .same rfl fun _ => rfl
  | @prepare q q' e holds _ =>
    refine .same rfl fun r => ?_
    cases e with
    | superseded =>
      simp only [after, holds]
      split <;> rfl
    | _ => simp [after]
  | giveUp holds | undone _ holds => exact .same rfl fun r => by simp [after, holds]
  | ask | decide => exact .decided _ _ rfl fun _ => rfl
  | resolver r found resolved =>
    exact .resolved found (PendingTx.moves_of_step resolved) rfl
  | finishTx found settled => exact .finished rfl
  | finishUnguarded | finishGuarded => exact Serving.pendingStep_of_finish stepped

/-! ### The slots and the pending transactions -/

/-- How the slots go with the pending transactions and with what is
resolved. -/
structure SlotsKept (p : Serving) (r : Records) (started : List String)
    (resolved : List (String × Outcome)) : Prop where
  pending : ∀ id t, p.pending.find id = some t → r.stateOf id ≠ none
  isPending : ∀ id, r.stateOf id = some .recOpen → p.pending.find id ≠ none
  policy : ∀ id k t, r.Carries id k → p.pending.find id = some t → t.ownership = true
  settled : ∀ id t, r.stateOf id = some .recOpen → p.pending.find id = some t → t.phase = .settled →
    (id, .committed) ∈ resolved
  committed : ∀ id, r.HasCommitted id → (id, .committed) ∈ resolved
  issued : ∀ id, r.stateOf id ≠ none → id ∈ started
  executing : ∀ x, p.holder = .executing x → r.stateOf x.id = none

theorem SlotsKept.start : SlotsKept {} {} [] [] where
  pending _ _ found := by cases found
  isPending _ isOpen := by cases isOpen
  policy _ _ _ _ found := by cases found
  settled _ _ _ found := by cases found
  committed _ committed := by cases committed
  issued _ known := absurd rfl known
  executing _ holds := by cases holds

section Slots

variable {w w' : World} {p p' : Serving} {e : Event} {r r' : Records}
  {started more : List String} {resolved resolved' : List (String × Outcome)}

section

variable (held : SlotsKept p r started resolved)

include held

theorem SlotsKept.keep (slots : r'.slots = r.slots)
    (back : ∀ id t, p'.pending.find id = some t → ∃ before,
      p.pending.find id = some before ∧ t.ownership = before.ownership ∧
        (t.phase = .settled → r.stateOf id = some .recOpen →
          before.phase = .settled ∨ (id, .committed) ∈ resolved'))
    (still : ∀ id, r.stateOf id = some .recOpen → p.pending.find id ≠ none →
      p'.pending.find id ≠ none)
    (executing : ∀ x, p'.holder = .executing x → r.stateOf x.id = none)
    (starts : ∀ id ∈ started, id ∈ more)
    (resolves : ∀ tx ∈ resolved, tx ∈ resolved') :
    SlotsKept p' r' more resolved' := by
  have sameState : ∀ id, r'.stateOf id = r.stateOf id := by
    intro id
    rw [stateOf, stateOf, slots]
  constructor
  · intro id t found
    obtain ⟨before, wasThere, _⟩ := back id t found
    rw [sameState]
    exact held.pending id before wasThere
  · intro id isOpen
    rw [sameState] at isOpen
    exact still id isOpen (held.isPending id isOpen)
  · intro id k t carries found
    obtain ⟨before, wasThere, sameOwnership, _⟩ := back id t found
    rw [sameOwnership]
    exact held.policy id k before ((carries_congr slots).mp carries) wasThere
  · intro id t isOpen found settled
    rw [sameState] at isOpen
    obtain ⟨before, wasThere, _, bySettled⟩ := back id t found
    rcases bySettled settled isOpen with wasSettled | commits
    · exact resolves _ (held.settled id before isOpen wasThere wasSettled)
    · exact commits
  · intro id committed
    exact resolves _ (held.committed id ((hasCommitted_congr slots).mp committed))
  · intro id known
    rw [sameState] at known
    exact starts id (held.issued id known)
  · intro x holds
    rw [sameState]
    exact executing x holds

theorem SlotsKept.executing_of_step (accounted : TxAccounted p started resolved)
    (moves : p.Moves M platform w e w' p') {x' : Execution}
    (holds : p'.holder = .executing x') : r.stateOf x'.id = none := by
  cases Serving.executedBy_of_moves moves holds with
  | same wasExecuting => exact held.executing x' wasExecuting
  | stepped wasExecuting _ sameId =>
    rw [sameId]
    exact held.executing _ wasExecuting
  | started _ _ _ _ idIs =>
    by_contra known
    have wasStarted := accounted.issued _ (held.issued _ known)
    rw [idIs] at wasStarted
    exact p.nextTxID_fresh _ wasStarted

theorem SlotsKept.probation (accounted : TxAccounted p started resolved)
    (carries : r.carries = true → p.holder.policy = true)
    {x : Execution} (holds : p.holder = .executing x)
    (slots : r'.slots = (r.register x.id).slots)
    (pending : p'.pending = p.pending.put x.pendingTx)
    (freed : p'.holder = .free) : SlotsKept p' r' started resolved := by
  have none : ∀ id, p.pending.find id = .none := accounted.one.executing x holds
  have findPending : ∀ id, p'.pending.find id = if x.id = id then some x.pendingTx else .none := by
    intro id
    rw [pending, KeyedTable.find_put, none]
    rfl
  have state : ∀ id, r'.stateOf id = if x.id = id then some .recOpen else r.stateOf id := by
    intro id
    rw [stateOf, slots, find_register]
    split
    · rfl
    · rfl
  have closed : ∀ id, r.stateOf id ≠ some .recOpen := fun id isOpen =>
    held.isPending id isOpen (none id)
  constructor
  · intro id t found
    rw [findPending] at found
    rw [state]
    split at found
    · rename_i here
      simp [here]
    · cases found
  · intro id isOpen
    rw [state] at isOpen
    rw [findPending]
    split at isOpen
    · rename_i here
      simp [here]
    · exact absurd isOpen (closed id)
  · intro id k t carried found
    rw [findPending] at found
    split at found
    · obtain rfl := Option.some.inj found
      rcases carries_register ((carries_congr slots).mp carried)
        with old | ⟨_, isRecord, _⟩
      · exact absurd old.isOpen (closed id)
      · have policy := carries isRecord
        rw [holds] at policy
        exact policy
    · cases found
  · intro id t isOpen found settled
    rw [findPending] at found
    split at found
    · obtain rfl := Option.some.inj found
      cases settled
    · cases found
  · intro id committed
    rw [HasCommitted, state] at committed
    split at committed
    · cases committed
    exact held.committed id committed
  · intro id known
    rw [state] at known
    split at known
    · rename_i here
      rw [← here]
      refine (accounted.account x.id).mpr (.inl ⟨x.prepared.plan, ?_⟩)
      exact Serving.mem_inFlight.mpr (.inl ⟨x, holds, rfl, rfl⟩)
    · exact held.issued id known
  · intro x' isExecuting
    rw [freed] at isExecuting
    cases isExecuting

end

theorem SlotsKept.committed_of_settled {id : String} {t t' : PendingTx}
    {event : ResolveEvent} (moved : t.Moves M w event w' t')
    (settled : t'.phase = .settled)
    (closes : ∀ other, Recording.closesFirst (.resolver id event) = some other →
      r.stateOf other ≠ some .recOpen)
    (isOpen : r.stateOf id = some .recOpen) :
    (id, .committed) ∈ resolved ++ (p.resolves (.resolver id event)).toList := by
  rcases moved.settles.2 with ⟨unsettled, _⟩ | ⟨_, ⟨fails, rfl⟩ | ⟨fails, rfl⟩⟩
  · exact absurd settled unsettled
  · rw [p.resolves_commit]
    exact List.mem_append_right _ (List.mem_singleton.mpr rfl)
  · exact absurd isOpen (closes id rfl)

theorem SlotsKept.step (held : SlotsKept p r started resolved)
    (accounted : TxAccounted p started resolved)
    (carries : r.carries = true → p.holder.policy = true)
    (closes : ∀ id, Recording.closesFirst e = some id → r.stateOf id ≠ some .recOpen)
    (stepped : p.step M platform w e = some (w', p')) :
    SlotsKept p' (r.after p e) (started ++ (p.starts e).toList)
      (resolved ++ (p.resolves e).toList) := by
  have moves := Serving.moves_of_step stepped
  have executing : ∀ x, p'.holder = .executing x → r.stateOf x.id = none :=
    fun x => held.executing_of_step accounted moves
  have starts : ∀ id ∈ started, id ∈ started ++ (p.starts e).toList :=
    fun id => List.mem_append_left _
  have resolves : ∀ tx ∈ resolved, tx ∈ resolved ++ (p.resolves e).toList :=
    fun tx => List.mem_append_left _
  cases Serving.pendingStep_of_step stepped with
  | same pending slots =>
    refine held.keep (slots r) ?_ ?_ executing starts resolves
    · intro id t found
      rw [pending] at found
      exact ⟨t, found, rfl, fun settled _ => .inl settled⟩
    · intro id _ isPending
      rw [pending]
      exact isPending
  | decided id decision pending slots =>
    refine held.keep (slots r) ?_ ?_ executing starts resolves
    · intro other t found
      rw [pending] at found
      obtain ⟨before, wasThere, _, _, sameOwnership, samePhase⟩ := Pending.find_decide found
      exact ⟨before, wasThere, sameOwnership, fun settled _ => .inl (samePhase ▸ settled)⟩
    · intro other _ isPending
      rw [pending, Pending.find_decide_eq]
      simpa using isPending
  | @resolved id t t' event found moved pending =>
    refine held.keep rfl ?_ ?_ executing starts resolves
    · intro other u foundAfter
      rw [pending, KeyedTable.find_put] at foundAfter
      split at foundAfter
      · rename_i here
        obtain rfl := Option.some.inj foundAfter
        have keyEq := KeyedTable.key_of_find found
        obtain rfl : id = other := by
          rw [← here, ← keyEq]
          exact moved.keeps.1.symm
        refine ⟨t, found, moved.keeps.2.2, fun settled isOpen => .inr ?_⟩
        exact SlotsKept.committed_of_settled moved settled closes isOpen
      · exact ⟨u, foundAfter, rfl, fun settled _ => .inl settled⟩
    · intro other _ isPending
      rw [pending, KeyedTable.find_put]
      split
      · simp
      · exact isPending
  | @finished id pending =>
    refine held.keep rfl ?_ ?_ executing starts resolves
    · intro other t found
      rw [pending, KeyedTable.find_erase] at found
      split at found
      · cases found
      exact ⟨t, found, rfl, fun settled _ => .inl settled⟩
    · intro other isOpen isPending
      rw [pending, KeyedTable.find_erase]
      split
      · rename_i here
        exact absurd isOpen (here ▸ closes id rfl)
      · exact isPending
  | @probation x fails holds guarded pending =>
    have slots : (r.after p (.finish fails)).slots = (r.register x.id).slots := by
      simp [after, holds, guarded]
    have nothing : p.resolves (.finish fails) = none := by
      simp [Serving.resolves, holds, guarded]
    have freed : p'.holder = .free := by
      cases moves <;> rfl
    rw [nothing]
    simpa [Serving.starts] using held.probation accounted carries holds slots pending freed

theorem Records.known_after (r : Records)
    (stepped : p.step M platform w e = some (w', p')) {id : String}
    (known : r.stateOf id ≠ none) : (r.after p e).stateOf id ≠ none := by
  have same : ∀ {r' : Records}, r'.slots = r.slots → r'.stateOf id ≠ none := by
    intro r' slots
    rw [stateOf, slots]
    exact known
  cases Serving.pendingStep_of_step stepped with
  | same _ slots | decided _ _ _ slots => exact same (slots r)
  | resolved | finished => exact known
  | @probation x fails holds guarded _ =>
    have slots : (r.after p (.finish fails)).slots = (r.register x.id).slots := by
      simp [after, holds, guarded]
    rw [stateOf, slots, find_register]
    split
    · simp
    · exact known

theorem SlotsKept.settleRecord (held : SlotsKept p r started resolved)
    {id : String} {t : PendingTx} {commit : Bool}
    (found : p.pending.find id = some t)
    (settled : commit = true → t.phase = .settled) :
    SlotsKept p (r.settleRecord id commit) started resolved := by
  have before : ∀ other, (r.settleRecord id commit).stateOf other =
      some .recOpen → r.stateOf other = some .recOpen := by
    intro other isOpen
    rw [stateOf_settleRecord] at isOpen
    split at isOpen
    · cases commit <;> cases isOpen
    · exact isOpen
  have known : ∀ other, (r.settleRecord id commit).stateOf other = none ↔
      r.stateOf other = none := by
    intro other
    rw [stateOf_settleRecord]
    split
    · rename_i here
      rw [← here.1, here.2]
      simp
    · rfl
  constructor
  · intro other u foundOther
    rw [ne_eq, known]
    exact held.pending other u foundOther
  · intro other isOpen
    exact held.isPending other (before other isOpen)
  · intro other k u carries foundOther
    exact held.policy other k u (carries_settleRecord carries).1 foundOther
  · intro other u isOpen foundOther
    exact held.settled other u (before other isOpen) foundOther
  · intro other committed
    rw [HasCommitted, stateOf_settleRecord] at committed
    split at committed
    · rename_i here
      cases commit with
      | false => cases committed
      | true => exact here.1 ▸ held.settled id t here.2 found (settled rfl)
    · exact held.committed other committed
  · intro other isKnown
    rw [ne_eq, known] at isKnown
    exact held.issued other isKnown
  · intro x holds
    rw [known]
    exact held.executing x holds

end Slots

end RiftRoute
