/-
Module: RiftRoute.Library.Cells
Purpose: States of independent cells and operations on one cell each: what a
  run leaves in a cell is what the operations of that cell leave.  Maps where
  the last write to a key decides, also under a coarser key.
Trusted boundary: none
-/
import Mathlib.Data.List.Induction
import Mathlib.Data.List.Perm.Basic
import Mathlib.Data.List.Basic

/-- A state seen as a family of cells, and operations on it that each act on
at most one cell.  `view_step` is the locality law. -/
structure CellSystem (S Op κ σ : Type) [DecidableEq κ] where
  step : S → Op → S
  view : S → κ → σ
  cell : Op → Option κ
  act : Op → σ → σ
  view_step : ∀ s op k, view (step s op) k =
      if cell op = some k then act op (view s k) else view s k

namespace CellSystem

open List

variable {S Op κ σ : Type} [DecidableEq κ] (C : CellSystem S Op κ σ)

/-- Run operations in order. -/
def run (s : S) (ops : List Op) : S := ops.foldl C.step s

/-- The operations of one cell, in order. -/
def opsAt (k : κ) (ops : List Op) : List Op := ops.filter fun op => C.cell op = some k

/-- The effect of a list of operations on one cell's content. -/
def runAt (content : σ) (ops : List Op) : σ :=
  ops.foldl (fun content op => C.act op content) content

@[simp] theorem run_nil (s : S) : C.run s [] = s := rfl

@[simp] theorem run_cons (s : S) (op : Op) (ops : List Op) :
    C.run s (op :: ops) = C.run (C.step s op) ops := rfl

@[simp] theorem runAt_nil (content : σ) : C.runAt content [] = content := rfl

theorem runAt_append (content : σ) (first second : List Op) : C.runAt content (first ++ second) =
      C.runAt (C.runAt content first) second :=
  foldl_append

@[simp] theorem opsAt_append (k : κ) (first second : List Op) :
    C.opsAt k (first ++ second) = C.opsAt k first ++ C.opsAt k second :=
  filter_append ..

/-- Locality along a whole run: a cell only sees its own operations. -/
theorem view_run (s : S) (ops : List Op) (k : κ) :
    C.view (C.run s ops) k = C.runAt (C.view s k) (C.opsAt k ops) := by
  induction ops generalizing s with
  | nil => rfl
  | cons op ops ih =>
    rw [run_cons, ih, C.view_step]
    by_cases hit : C.cell op = some k
    · simp [opsAt, runAt, hit]
    · simp [opsAt, hit]

/-- Where operations overwrite their cell, the last one decides. -/
theorem view_run_overwrite {left : Op → σ} (overwrites : ∀ op content, C.act op content = left op)
    (s : S) (ops : List Op) (k : κ) :
    C.view (C.run s ops) k = (C.opsAt k ops).getLast?.elim (C.view s k) left := by
  rw [C.view_run]
  cases opsAt : C.opsAt k ops using reverseRecOn with
  | nil => rfl
  | append_singleton front last =>
    rw [runAt_append, getLast?_append, getLast?_singleton]
    exact overwrites last _

/-- The last operation of a cell, and nothing of that cell after it. -/
theorem getLast?_opsAt_eq_some_iff {k : κ} {ops : List Op} {last : Op} :
    (C.opsAt k ops).getLast? = some last ↔
      ∃ before after, ops = before ++ last :: after ∧ C.cell last = some k ∧
        ∀ op ∈ after, C.cell op ≠ some k := by
  rw [getLast?_eq_some_iff]
  constructor
  · rintro ⟨front, split⟩
    obtain ⟨before, rest, rfl, _, tail⟩ := filter_eq_append_iff.mp split
    obtain ⟨skipped, after, rfl, _, here, none⟩ := filter_eq_cons_iff.mp tail
    refine ⟨before ++ skipped, after, by simp, by simpa using here, ?_⟩
    intro op member
    simpa using filter_eq_nil_iff.mp none op member
  · rintro ⟨before, after, rfl, here, none⟩
    refine ⟨C.opsAt k before, ?_⟩
    have afterNone : C.opsAt k after = [] := by
      simpa [opsAt, filter_eq_nil_iff] using none
    rw [opsAt_append, append_cancel_left_eq]
    show List.filter _ (last :: after) = [last]
    rw [filter_cons_of_pos (by simpa using here)]
    exact congrArg _ afterNone

/-- Operations that reach no cell `k` leave it as it was. -/
theorem view_run_of_untouched {s : S} {ops : List Op} {k : κ}
    (untouched : ∀ op ∈ ops, C.cell op ≠ some k) :
    C.view (C.run s ops) k = C.view s k := by
  have none : C.opsAt k ops = [] := by
    simpa [opsAt, filter_eq_nil_iff] using untouched
  rw [C.view_run, none, runAt_nil]

/-- Operations that all leave a cell with the same content leave it there. -/
theorem view_run_of_agreed {left : Op → σ}
    (overwrites : ∀ op content, C.act op content = left op) {s : S}
    {ops : List Op} {k : κ} {content : σ}
    (agreed : ∀ op ∈ ops, C.cell op = some k → left op = content)
    (touched : ∃ op ∈ ops, C.cell op = some k) :
    C.view (C.run s ops) k = content := by
  obtain ⟨op, member, here⟩ := touched
  have listed : op ∈ C.opsAt k ops := mem_filter.mpr ⟨member, decide_eq_true here⟩
  obtain ⟨last, isLast⟩ :=
    Option.ne_none_iff_exists'.mp (getLast?_eq_none_iff.not.mpr (ne_nil_of_mem listed))
  have lastListed := mem_of_getLast? isLast
  obtain ⟨lastMember, lastHere⟩ := mem_filter.mp lastListed
  rw [C.view_run_overwrite overwrites, isLast]
  exact agreed last lastMember (of_decide_eq_true lastHere)

/-- Two blocks of operations reach no common cell. -/
def Separated (first second : List Op) : Prop := ∀ k, C.opsAt k first = [] ∨ C.opsAt k second = []

theorem Separated.symm {first second : List Op}
    (separated : C.Separated first second) : C.Separated second first :=
  fun k => (separated k).symm

theorem separated_of_cells {first second : List Op} (apart : ∀ op ∈ first, ∀ other ∈ second,
      C.cell op = none ∨ C.cell op ≠ C.cell other) :
    C.Separated first second := by
  intro k
  by_cases reached : ∃ op ∈ first, C.cell op = some k
  · obtain ⟨op, member, here⟩ := reached
    refine .inr (filter_eq_nil_iff.mpr ?_)
    intro other otherMember there
    rcases apart op member other otherMember with noCell | differ
    · rw [here] at noCell
      cases noCell
    · exact differ (here.trans (of_decide_eq_true there).symm)
  · refine .inl (filter_eq_nil_iff.mpr ?_)
    intro op member here
    exact reached ⟨op, member, of_decide_eq_true here⟩

section

variable {blocks reordered : List (List Op)} (perm : blocks.Perm reordered)
  (separated : blocks.Pairwise C.Separated)

include perm separated

theorem opsAt_flatten_perm (k : κ) :
    C.opsAt k blocks.flatten = C.opsAt k reordered.flatten := by
  induction perm with
  | nil => rfl
  | cons block _ ih =>
    rw [pairwise_cons] at separated
    simp [ih separated.2]
  | swap first second rest =>
    rw [pairwise_cons] at separated
    have apart := separated.1 first mem_cons_self k
    rcases apart with empty | empty <;> simp [empty]
  | trans perm _ firstHypothesis secondHypothesis =>
    have again := (perm.pairwise_iff (Separated.symm C)).mp separated
    rw [firstHypothesis separated, secondHypothesis again]

/-- The visiting order of pairwise separated blocks does not show in any
cell. -/
theorem view_run_perm (s : S) (k : κ) :
    C.view (C.run s blocks.flatten) k = C.view (C.run s reordered.flatten) k := by
  rw [C.view_run, C.view_run, C.opsAt_flatten_perm perm separated]

end

end CellSystem

/-! ### Cells with at most one value -/

/-- Operations on a cell that holds at most one value. -/
inductive SlotOp (ε : Type) where
  | fill (value : ε)
  | clear (hit : ε → Bool)

namespace SlotOp

open List

variable {ε : Type}

/-- Filling a taken slot changes nothing; clearing removes a matching value
only. -/
def act : SlotOp ε → Option ε → Option ε
  | .fill value, slot => slot.or (some value)
  | .clear hit, slot => slot.filter fun value => !hit value

@[simp] theorem act_fill_none (value : ε) : act (.fill value) none = some value := rfl

@[simp] theorem act_fill_some (value held : ε) : act (.fill value) (some held) = some held := rfl

@[simp] theorem act_clear_none (hit : ε → Bool) : act (.clear hit) none = none := rfl

variable (slot : Option ε)

def run (ops : List (SlotOp ε)) : Option ε :=
  ops.foldl (fun slot op => op.act slot) slot

@[simp] theorem run_nil : run slot [] = slot := rfl

@[simp] theorem run_cons (op : SlotOp ε) (ops : List (SlotOp ε)) :
    run slot (op :: ops) = run (op.act slot) ops := rfl

theorem run_append (first second : List (SlotOp ε)) :
    run slot (first ++ second) = run (run slot first) second :=
  foldl_append

section Families

variable {α β : Type} (value : α → ε) (hit : β → ε → Bool)

/-- Several fills: an empty slot takes the first, a taken one keeps its
value. -/
theorem run_fill (filled : List α) :
    run slot (filled.map fun a => .fill (value a)) = slot.or (filled.head?.map value) := by
  induction filled generalizing slot with
  | nil => simp
  | cons a filled ih =>
    rw [map_cons, run_cons, ih]
    cases slot <;> simp [act]

/-- Several clears: the value stays unless one of them hits it. -/
theorem run_clear (cleared : List β) :
    run slot (cleared.map fun b => .clear (hit b)) =
      slot.filter fun e => cleared.all fun b => !hit b e := by
  induction cleared generalizing slot with
  | nil => cases slot <;> simp [Option.filter_some]
  | cons b cleared ih =>
    rw [map_cons, run_cons, ih]
    simp only [act, Option.filter_filter, all_cons]

theorem run_clear_fill (cleared : List β) (filled : List α) :
    run slot ((cleared.map fun b => .clear (hit b)) ++ filled.map fun a => .fill (value a)) =
      (slot.filter fun e => cleared.all fun b => !hit b e).or (filled.head?.map value) := by
  rw [run_append, run_clear, run_fill]

theorem run_clear_fill_back {slot : Option ε} {cleared : List β} {filled : List α}
    (held : ∀ a ∈ filled, slot = some (value a)) (covered : filled = [] → cleared = []) :
    run slot ((cleared.map fun b => .clear (hit b)) ++ filled.map fun a => .fill (value a)) =
      slot := by
  rw [run_clear_fill]
  cases filled with
  | nil =>
    rw [covered rfl]
    cases slot <;> rfl
  | cons a filled =>
    rw [held a mem_cons_self, Option.filter_some, head?_cons]
    split <;> rfl

end Families

section

variable {α : Type} (value : α → ε) (hit : α → ε → Bool) (hitsOwn : ∀ a, hit a (value a) = true)

include hitsOwn

/-- Fills undone by clears: the slot is as before, as long as each fill's
value is among the cleared ones and no clear takes what was there. -/
theorem run_fill_clear (slot : Option ε)
    {filled cleared : List α} (covered : filled ⊆ cleared)
    (spared : ∀ e ∈ slot, ∀ a ∈ cleared, hit a e = false) :
    run slot ((filled.map fun a => .fill (value a)) ++
      cleared.map fun a => .clear (hit a)) = slot := by
  rw [run_append, run_fill, run_clear]
  cases slot with
  | some e =>
    rw [Option.some_or, Option.filter_some, if_pos]
    rw [all_eq_true]
    intro a member
    simp [spared e rfl a member]
  | none =>
    cases filled with
    | nil => rfl
    | cons a filled =>
      rw [head?_cons, Option.none_or, Option.map_some, Option.filter_some, if_neg]
      rw [all_eq_true]
      intro all
      have missed := all a (covered mem_cons_self)
      simp [hitsOwn] at missed

/-- A value replaced by others, which are cleared again before it is put
back. -/
theorem run_replace_refill (old : α)
    {filled cleared : List α} (covered : filled ⊆ cleared) :
    run (some (value old)) (.clear (hit old) :: (filled.map fun a => .fill (value a)) ++
        ((cleared.map fun a => .clear (hit a)) ++ [.fill (value old)])) =
      some (value old) := by
  have emptied : act (.clear (hit old)) (some (value old)) = none := by
    simp [act, Option.filter_some, hitsOwn]
  have undone := run_fill_clear value hit hitsOwn none covered (by simp)
  rw [cons_append, run_cons, emptied, ← append_assoc, run_append, undone]
  rfl

end

end SlotOp

/-- Writes to a map of values that know their key. -/
inductive MapOp (α : Type) where
  | put (value : α)
  | drop (value : α)
  | clear

namespace MapOp

variable {α κ : Type}

/-- Whether a write reaches a key. -/
def touches (key : α → κ) (k : κ) : MapOp α → Prop
  | .put value => key value = k
  | .drop value => key value = k
  | .clear => True

variable [DecidableEq κ]

def write (key : α → κ) (k : κ) (held : Option α) : MapOp α → Option α
  | .put value => if key value = k then some value else held
  | .drop value => if key value = k then none else held
  | .clear => none

theorem write_of_not_touches {key : α → κ} {k : κ} {op : MapOp α}
    (elsewhere : ¬ op.touches key k) (held : Option α) :
    write key k held op = held := by
  cases op with
  | put | drop => exact if_neg elsewhere
  | clear => exact absurd trivial elsewhere

end MapOp

namespace LastWrite

open List

open MapOp

section Coarse

variable {α κ κ' : Type}

theorem touches_coarse {key : α → κ} (coarse : κ → κ') {k : κ} {op : MapOp α}
    (reached : op.touches key k) :
    op.touches (fun value => coarse (key value)) (coarse k) := by
  cases op with
  | put | drop => exact congrArg coarse reached
  | clear => trivial

/-- No value that should stay is followed by a write to its coarse key. -/
def NoClobber (key : α → κ) (coarse : κ → κ') (ops : List (MapOp α)) : Prop :=
  ∀ before value after, ops = before ++ .put value :: after →
    (∀ op ∈ after, ¬ op.touches key (key value)) →
    ∀ op ∈ after, ¬ op.touches (fun other => coarse (key other)) (coarse (key value))

theorem suffix_of_untouched {key : α → κ} {value : α} {before after before' after' : List (MapOp α)}
    (split : before ++ MapOp.put value :: after = before' ++ MapOp.put value :: after')
    (untouched : ∀ op ∈ after, ¬ op.touches key (key value)) :
    after <:+ after' := by
  rcases append_eq_append_iff.mp split with
    ⟨between, _, rest⟩ | ⟨between, _, rest⟩
  · cases between with
    | nil =>
      obtain ⟨_, rfl⟩ := List.cons.inj rest
      exact suffix_refl _
    | cons first between =>
      -- the second put stands in the first's tail, which it reaches
      obtain ⟨_, rfl⟩ := List.cons.inj rest
      have member : MapOp.put value ∈ between ++ MapOp.put value :: after' := by simp
      exact absurd rfl (untouched _ member)
  · cases between with
    | nil =>
      obtain ⟨_, rfl⟩ := List.cons.inj rest
      exact suffix_refl _
    | cons first between =>
      obtain ⟨_, rfl⟩ := List.cons.inj rest
      exact ⟨between ++ [MapOp.put value], by simp⟩

end Coarse

variable {α κ : Type} [DecidableEq κ]

/-- The value a key holds after a sequence of writes. -/
def lastPut (key : α → κ) (ops : List (MapOp α)) (k : κ) : Option α := ops.foldl (write key k) none

theorem lastPut_snoc (key : α → κ) (ops : List (MapOp α)) (op : MapOp α) (k : κ) :
    lastPut key (ops ++ [op]) k = write key k (lastPut key ops k) op :=
  foldl_append

theorem lastPut_eq_some_iff {key : α → κ} {ops : List (MapOp α)} {k : κ} {value : α} :
    lastPut key ops k = some value ↔
      ∃ before after, ops = before ++ .put value :: after ∧ key value = k ∧
        ∀ op ∈ after, ¬ op.touches key k := by
  induction ops using reverseRecOn with
  | nil => simp [lastPut]
  | append_singleton ops op ih =>
    rw [lastPut_snoc]
    constructor
    · intro held
      by_cases elsewhere : op.touches key k
      · -- the last write reaches the key, so it is the put itself
        cases op with
        | put other =>
          have here : key other = k := elsewhere
          obtain rfl : other = value := by
            simpa [write, here] using held
          exact ⟨ops, [], rfl, here, by simp⟩
        | drop other =>
          have here : key other = k := elsewhere
          simp [write, here] at held
        | clear => simp [write] at held
      · rw [write_of_not_touches elsewhere] at held
        obtain ⟨before, after, rfl, here, untouched⟩ := ih.mp held
        refine ⟨before, after ++ [op], by simp, here, ?_⟩
        intro other member
        rcases mem_append.mp member with member | last
        · exact untouched other member
        · rwa [mem_singleton.mp last]
    · rintro ⟨before, after, split, here, untouched⟩
      rcases eq_nil_or_concat after with rfl | ⟨front, last, rfl⟩
      · obtain ⟨rfl, same⟩ := append_inj' split rfl
        obtain rfl := singleton_inj.mp same
        simp [write, here]
      · have regrouped : ops ++ [op] = (before ++ .put value :: front) ++ [last] := by
          simpa using split
        obtain ⟨rfl, same⟩ := append_inj' regrouped rfl
        obtain rfl := singleton_inj.mp same
        rw [write_of_not_touches (untouched op (by simp))]
        apply ih.mpr
        refine ⟨before, front, rfl, here, ?_⟩
        intro other member
        exact untouched other (by simp [member])

theorem lastPut_isSome_of_puts (key : α → κ) {values : List α} {value : α}
    (member : value ∈ values) :
    (lastPut key (values.map .put) (key value)).isSome := by
  induction values using reverseRecOn with
  | nil => exact absurd member not_mem_nil
  | append_singleton values last ih =>
    rw [map_append, map_singleton, lastPut_snoc]
    by_cases here : key last = key value
    · simp [write, here]
    · have earlier : value ∈ values := by
        rcases mem_append.mp member with earlier | same
        · exact earlier
        · exact absurd (by rw [mem_singleton.mp same]) here
      simpa [write, here] using ih earlier

/-- A map kept under a coarse key answers for the fine key exactly when
nothing clobbers a value that should stay. -/
theorem coarse_faithful_iff {κ' : Type} [DecidableEq κ'] (key : α → κ)
    (coarse : κ → κ') (ops : List (MapOp α)) :
    (∀ k, (lastPut (fun value => coarse (key value)) ops (coarse k)).filter
        (fun value => key value = k) = lastPut key ops k) ↔
      NoClobber key coarse ops := by
  constructor
  · intro faithful before value after split untouched
    have stays : lastPut key ops (key value) = some value :=
      lastPut_eq_some_iff.mpr ⟨before, after, split, rfl, untouched⟩
    have held := (Option.filter_eq_some_iff.mp ((faithful (key value)).trans stays)).1
    obtain ⟨before', after', split', _, untouched'⟩ := lastPut_eq_some_iff.mp held
    have suffix := suffix_of_untouched (split.symm.trans split') untouched
    intro op member
    exact untouched' op (suffix.subset member)
  · intro noClobber k
    cases fine : lastPut key ops k with
    | some value =>
      obtain ⟨before, after, split, rfl, untouched⟩ := lastPut_eq_some_iff.mp fine
      have held : lastPut (fun value => coarse (key value)) ops (coarse (key value)) = some value :=
        lastPut_eq_some_iff.mpr ⟨before, after, split, rfl,
          noClobber before value after split untouched⟩
      simp [held]
    | none =>
      rw [Option.filter_eq_none_iff]
      intro value held
      obtain ⟨before, after, split, _, untouched⟩ := lastPut_eq_some_iff.mp held
      intro same
      have here : key value = k := by simpa using same
      have stays : lastPut key ops k = some value :=
        lastPut_eq_some_iff.mpr ⟨before, after, split, here, fun op member reached =>
            untouched op member (touches_coarse coarse reached)⟩
      rw [fine] at stays
      exact absurd stays (by simp)

end LastWrite
