/-
Module: RiftRoute.Provider.PfConf
Purpose: The hooks in macOS's packet-filter configuration: two marked blocks
  after the user's own text, whatever is inserted and removed.
Trusted boundary: human-reviewed spec
Main exports: ensureHook, dropHook, HookOp.run
-/
import RiftRoute.Library.Bytes
import RiftRoute.Library.Texts

namespace RiftRoute

open List

open Bytes (newline utf8)
open Occurrences

/-! ### Edits of the text -/

namespace PfConf

def anchorRow (anchor : String) : Bytes := utf8 ("anchor \"" ++ anchor ++ "\"")

/-- A marked, reversible block that references one anchor. -/
def block (first last : Bytes) (anchor : String) : Bytes :=
  first ++ [newline] ++ anchorRow anchor ++ [newline] ++ last ++ [newline]

def has (conf first : Bytes) : Bool := (index first conf).isSome

/-- The text, ended where it is not. -/
def ended (conf : Bytes) : Bytes :=
  if conf ≠ [] ∧ conf.getLast? ≠ some newline then conf ++ [newline] else conf

def insert (conf first last : Bytes) (anchor : String) : Bytes :=
  if has conf first then conf else ended conf ++ block first last anchor

def remove (conf first last : Bytes) : Bytes :=
  match index first conf with
  | none => conf
  | some i =>
    match index last (conf.drop i) with
    -- malformed: left for a human
    | none => conf
    | some j =>
      let k := i + j + last.length
      let k := if conf[k]? = some newline then k + 1 else k
      conf.take i ++ conf.drop k

end PfConf

namespace Mac

open PfConf (ended anchorRow)

def pfAnchorName : String := "riftroute"

def pfHookBegin : Bytes := utf8 "# >>> riftroute (managed — do not edit) >>>"

def pfHookEnd : Bytes := utf8 "# <<< riftroute (managed — do not edit) <<<"

def pfHookBlock : Bytes :=
  pfHookBegin ++ [newline] ++ anchorRow pfAnchorName ++ [newline] ++ pfHookEnd ++ [newline]

def pfHasHook (conf : Bytes) : Bool := (index pfHookBegin conf).isSome

def pfInsertHook (conf : Bytes) : Bytes :=
  if pfHasHook conf then conf else ended conf ++ pfHookBlock

/-- Go's `strings.TrimPrefix` of a line break. -/
def trimNewline (text : Bytes) : Bytes :=
  if text.head? = some newline then text.drop 1 else text

def pfRemoveHook (conf : Bytes) : Bytes :=
  match index pfHookBegin conf with
  | none => conf
  | some start =>
    -- the end marker is looked for from the start of the file
    match index pfHookEnd conf with
    | none => conf.take start
    | some stop =>
      conf.take start ++ trimNewline (conf.drop (stop + pfHookEnd.length))

end Mac

namespace KillSwitch

def pfAnchor : String := "riftroute_ks"

def pfHookBegin : Bytes := utf8 "# >>> riftroute kill switch (managed — do not edit) >>>"

def pfHookEnd : Bytes := utf8 "# <<< riftroute kill switch (managed — do not edit) <<<"

/-- What `ensureHook` writes. -/
def ensureHook (conf : Bytes) : Bytes :=
  if PfConf.has conf pfHookBegin then conf
  else PfConf.insert conf pfHookBegin pfHookEnd pfAnchor

/-- What `dropHook` writes. -/
def dropHook (conf : Bytes) : Bytes :=
  if PfConf.has conf pfHookBegin then PfConf.remove conf pfHookBegin pfHookEnd
  else conf

end KillSwitch

namespace PfConf

/-- The two hooks. -/
inductive Hook where
  | policy
  | killSwitch
deriving DecidableEq, Repr

namespace Hook

def first : Hook → Bytes
  | policy => Mac.pfHookBegin
  | killSwitch => KillSwitch.pfHookBegin

def last : Hook → Bytes
  | policy => Mac.pfHookEnd
  | killSwitch => KillSwitch.pfHookEnd

def anchor : Hook → String
  | policy => Mac.pfAnchorName
  | killSwitch => KillSwitch.pfAnchor

end Hook

inductive HookOp where
  | insert (hook : Hook)
  | remove (hook : Hook)
deriving DecidableEq, Repr

def HookOp.inserts : HookOp → Bool
  | .insert _ => true
  | .remove _ => false

def HookOp.hook : HookOp → Hook
  | .insert hook => hook
  | .remove hook => hook

def HookOp.apply (conf : Bytes) : HookOp → Bytes
  | .insert .policy => Mac.pfInsertHook conf
  | .insert .killSwitch => KillSwitch.ensureHook conf
  | .remove .policy => Mac.pfRemoveHook conf
  | .remove .killSwitch => KillSwitch.dropHook conf

def HookOp.run (ops : List HookOp) (conf : Bytes) : Bytes := ops.foldl HookOp.apply conf

def HookOp.EndsRemoved (hook : Hook) (ops : List HookOp) : Prop :=
  (ops.filter (·.hook = hook)).getLast? ≠ some (.insert hook)

instance (hook : Hook) (ops : List HookOp) : Decidable (HookOp.EndsRemoved hook ops) :=
  inferInstanceAs (Decidable (_ ≠ _))

/-- No marker stands in the text. -/
def Unmarked (text : Bytes) : Prop := ∀ hook : Hook, ¬ hook.first <:+: text ∧ ¬ hook.last <:+: text

/-! ### Blocks -/

namespace Hook

/-- A hook's block before its end marker. -/
def head (hook : Hook) : Bytes := hook.first ++ newline :: (anchorRow hook.anchor ++ [newline])

def block (hook : Hook) : Bytes := hook.head ++ (hook.last ++ [newline])

theorem newline_not_mem_first (hook : Hook) : newline ∉ hook.first := by
  cases hook <;> decide

theorem newline_not_mem_last (hook : Hook) : newline ∉ hook.last := by
  cases hook <;> decide

theorem first_in_block_iff {hook other : Hook} : hook.first <:+: other.block ↔ hook = other := by
  cases hook <;> cases other <;> decide +kernel

theorem last_in_block_iff {hook other : Hook} : hook.last <:+: other.block ↔ hook = other := by
  cases hook <;> cases other <;> decide +kernel

theorem last_not_in_head (hook : Hook) : ¬ hook.last <:+: hook.head := by
  cases hook <;> decide +kernel

theorem closed_head (hook : Hook) : Closed newline hook.head := by
  rw [head, ← cons_append, ← append_assoc]
  exact Closed.append_sep newline _

theorem closed_block (hook : Hook) : Closed newline hook.block := by
  rw [block, ← append_assoc]
  exact Closed.append_sep newline _

end Hook

variable {conf : Bytes}

theorem ended_of_closed (closed : Closed newline conf) : ended conf = conf := by
  apply if_neg
  rintro ⟨some, open_⟩
  rcases closed.eq_nil_or_append with rfl | ⟨front, rfl⟩
  · exact some rfl
  · exact open_ getLast?_concat

theorem closed_ended (conf : Bytes) : Closed newline (ended conf) := by
  unfold ended
  split
  case isTrue => exact Closed.append_sep newline conf
  case isFalse finished =>
    intro last member
    by_contra other
    apply finished
    constructor
    · rintro rfl
      cases member
    · intro same
      rw [same] at member
      cases member
      exact other rfl

theorem unmarked_ended {text : Bytes} (unmarked : Unmarked text) : Unmarked (ended text) := by
  unfold ended
  split
  case isFalse => exact unmarked
  case isTrue =>
    intro hook
    have ends : ∀ mark : Bytes, newline ∉ mark → mark ≠ [] →
        ¬ mark <:+: text → ¬ mark <:+: text ++ [newline] := by
      intro mark plain some absent inside
      rcases (infix_cut_iff plain).mp inside with early | late
      · exact absent early
      · exact some (infix_nil.mp late)
    constructor
    · apply ends _ hook.newline_not_mem_first _ (unmarked hook).1
      cases hook <;> decide
    · apply ends _ hook.newline_not_mem_last _ (unmarked hook).2
      cases hook <;> decide

section Cut

variable {hook : Hook} {front : Bytes} (rest : Bytes)
  (closed : Closed newline front)

include closed

theorem index_first (absent : ¬ hook.first <:+: front) :
    index hook.first (front ++ (hook.block ++ rest)) = some front.length := by
  rw [Hook.block, Hook.head, append_assoc, append_assoc]
  exact index_closed _ hook.newline_not_mem_first closed absent

theorem index_last (absent : ¬ hook.last <:+: front) :
    index hook.last (front ++ (hook.block ++ rest)) = some (front ++ hook.head).length := by
  have regroup : front ++ (hook.block ++ rest) =
      (front ++ hook.head) ++ (hook.last ++ (newline :: rest)) := by
    simp [Hook.block]
  rw [regroup]
  apply index_closed _ hook.newline_not_mem_last (closed.append hook.closed_head)
  rw [infix_closed_iff hook.newline_not_mem_last closed]
  exact not_or.mpr ⟨absent, hook.last_not_in_head⟩

theorem remove_block (absent : ¬ hook.first <:+: front) :
    remove (front ++ (hook.block ++ rest)) hook.first hook.last = front ++ rest := by
  have inside : index hook.last (hook.block ++ rest) = some hook.head.length := by
    have whole := @index_last hook [] rest (Closed.nil newline) (by cases hook <;> decide)
    simpa using whole
  have after : front ++ (hook.block ++ rest) =
      (front ++ (hook.head ++ hook.last)) ++ newline :: rest := by
    simp [Hook.block]
  have stop : front.length + hook.head.length + hook.last.length =
      (front ++ (hook.head ++ hook.last)).length := by
    simp [Nat.add_assoc]
  have next : (front ++ (hook.head ++ hook.last) ++ newline :: rest)[
      (front ++ (hook.head ++ hook.last)).length]? = some newline := by
    rw [List.getElem?_append_right (Nat.le_refl _), Nat.sub_self]
    rfl
  rw [remove, index_first rest closed absent]
  simp only [drop_left, inside, take_left]
  rw [stop, after, if_pos next, drop_append]
  simp

theorem pfRemoveHook_block (noFirst : ¬ Hook.policy.first <:+: front)
    (noLast : ¬ Hook.policy.last <:+: front) :
    Mac.pfRemoveHook (front ++ (Hook.policy.block ++ rest)) = front ++ rest := by
  have start : index Mac.pfHookBegin (front ++ (Hook.policy.block ++ rest)) =
      some front.length := index_first rest closed noFirst
  have stop : index Mac.pfHookEnd (front ++ (Hook.policy.block ++ rest)) =
      some (front ++ Hook.policy.head).length := index_last rest closed noLast
  have after : front ++ (Hook.policy.block ++ rest) =
      (front ++ Hook.policy.head ++ Mac.pfHookEnd) ++ newline :: rest := by
    simp [Hook.block, Hook.last]
  have tail : (front ++ (Hook.policy.block ++ rest)).drop
      ((front ++ Hook.policy.head).length + Mac.pfHookEnd.length) =
      newline :: rest := by
    rw [after, ← length_append]
    exact drop_left
  rw [Mac.pfRemoveHook, start]
  simp only [stop, tail, take_left]
  rfl

end Cut

/-! ### What an edit does -/

variable {hook : Hook}

theorem apply_insert_present (present : hook.first <:+: conf) :
    HookOp.apply conf (.insert hook) = conf := by
  have found := index_isSome_iff.mpr present
  cases hook with
  | policy | killSwitch => exact if_pos found

theorem apply_insert_absent (absent : ¬ hook.first <:+: conf) :
    HookOp.apply conf (.insert hook) = ended conf ++ hook.block := by
  have missed := fun found => absent (index_isSome_iff.mp found)
  cases hook with
  | policy =>
    refine (if_neg missed).trans ?_
    simp [Mac.pfHookBlock, Hook.block, Hook.head, Hook.first, Hook.last, Hook.anchor]
  | killSwitch =>
    refine (if_neg missed).trans ((if_neg missed).trans ?_)
    simp [block, Hook.block, Hook.head, Hook.first, Hook.last, Hook.anchor]

theorem apply_remove_absent (absent : ¬ hook.first <:+: conf) :
    HookOp.apply conf (.remove hook) = conf := by
  have missed := index_eq_none absent
  cases hook with
  | policy =>
    change Mac.pfRemoveHook conf = conf
    change index Mac.pfHookBegin conf = none at missed
    rw [Mac.pfRemoveHook, missed]
  | killSwitch =>
    exact if_neg fun found => absent (index_isSome_iff.mp found)

theorem apply_remove_block {front : Bytes} (rest : Bytes)
    (closed : Closed newline front) (noFirst : ¬ hook.first <:+: front)
    (noLast : ¬ hook.last <:+: front) :
    HookOp.apply (front ++ (hook.block ++ rest)) (.remove hook) = front ++ rest := by
  cases hook with
  | policy => exact pfRemoveHook_block rest closed noFirst noLast
  | killSwitch =>
    have found : has (front ++ (Hook.killSwitch.block ++ rest)) KillSwitch.pfHookBegin := by
      have start := index_first rest closed noFirst
      exact Option.isSome_of_mem start
    exact (if_pos found).trans (remove_block rest closed noFirst)

/-! ### The file and the hooks it holds -/

/-- The user's text with the hooks' blocks after it. -/
def layout (base : Bytes) (hooks : List Hook) : Bytes := base ++ hooks.flatMap Hook.block

/-- The hooks held after an edit. -/
def HookOp.track (hooks : List Hook) : HookOp → List Hook
  | .insert hook => if hook ∈ hooks then hooks else hooks ++ [hook]
  | .remove hook => hooks.erase hook

theorem nodup_track {hooks : List Hook} (once : hooks.Nodup) (op : HookOp) :
    (op.track hooks).Nodup := by
  cases op with
  | insert hook =>
    rw [HookOp.track]
    split
    case isTrue => exact once
    case isFalse apart =>
      refine nodup_append.mpr ⟨once, by simp, ?_⟩
      intro other member last same
      rw [mem_singleton] at same
      rintro rfl
      exact apart (same ▸ member)
  | remove hook => exact once.erase hook

theorem closed_layout {base : Bytes} (closed : Closed newline base)
    (hooks : List Hook) : Closed newline (layout base hooks) := by
  refine closed.append ?_
  induction hooks with
  | nil => exact Closed.nil newline
  | cons hook hooks ih =>
    exact hook.closed_block.append ih

theorem infix_layout_iff {base mark : Bytes} (closed : Closed newline base)
    (plain : newline ∉ mark) (absent : ¬ mark <:+: base)
    (own : ∀ other : Hook, mark <:+: other.block ↔ hook = other)
    (hooks : List Hook) :
    mark <:+: layout base hooks ↔ hook ∈ hooks := by
  have within : ∀ hooks : List Hook, mark <:+: hooks.flatMap Hook.block ↔ hook ∈ hooks := by
    intro hooks
    induction hooks with
    | nil =>
      rw [flatMap_nil, infix_nil]
      constructor
      · rintro rfl
        exact absurd nil_infix absent
      · intro member
        cases member
    | cons other hooks ih =>
      rw [flatMap_cons, infix_closed_iff plain other.closed_block, ih, own, mem_cons]
  rw [layout, infix_closed_iff plain closed, within]
  exact or_iff_right absent

section Layout

variable {base : Bytes} (closed : Closed newline base)
  (unmarked : Unmarked base)

include closed unmarked

theorem first_in_layout_iff (hook : Hook) (hooks : List Hook) :
    hook.first <:+: layout base hooks ↔ hook ∈ hooks :=
  infix_layout_iff closed hook.newline_not_mem_first (unmarked hook).1
    (fun _ => Hook.first_in_block_iff) hooks

theorem last_in_layout_iff (hook : Hook) (hooks : List Hook) :
    hook.last <:+: layout base hooks ↔ hook ∈ hooks :=
  infix_layout_iff closed hook.newline_not_mem_last (unmarked hook).2
    (fun _ => Hook.last_in_block_iff) hooks

theorem apply_layout {hooks : List Hook} (once : hooks.Nodup) (op : HookOp) :
    op.apply (layout base hooks) = layout base (op.track hooks) := by
  have first := fun hook => first_in_layout_iff closed unmarked hook
  cases op with
  | insert hook =>
    rw [HookOp.track]
    split
    case isTrue member =>
      exact apply_insert_present ((first hook hooks).mpr member)
    case isFalse apart =>
      rw [apply_insert_absent fun inside => apart ((first hook hooks).mp inside),
        ended_of_closed (closed_layout closed hooks)]
      simp [layout]
  | remove hook =>
    rw [HookOp.track]
    by_cases member : hook ∈ hooks
    · obtain ⟨before, after, rfl⟩ := append_of_mem member
      have apart : hook ∉ before := fun early =>
        (nodup_append.mp once).2.2 hook early hook mem_cons_self rfl
      have cut : layout base (before ++ hook :: after) =
          layout base before ++ (hook.block ++ after.flatMap Hook.block) := by
        simp [layout]
      rw [erase_append_right _ apart, erase_cons_head, cut,
        apply_remove_block _ (closed_layout closed before)]
      · simp [layout]
      · exact fun inside => apart ((first hook before).mp inside)
      · exact fun inside => apart ((last_in_layout_iff closed unmarked hook before).mp inside)
    · rw [erase_of_not_mem member, apply_remove_absent]
      exact fun inside => member ((first hook hooks).mp inside)

theorem run_layout {hooks : List Hook} (once : hooks.Nodup) (ops : List HookOp) :
    HookOp.run ops (layout base hooks) = layout base (ops.foldl HookOp.track hooks) := by
  induction ops generalizing hooks with
  | nil => rfl
  | cons op ops ih =>
    rw [HookOp.run, foldl_cons, apply_layout closed unmarked once op]
    exact ih (nodup_track once op)

end Layout

theorem mem_track_iff (hook : Hook) (ops : List HookOp) :
    hook ∈ ops.foldl HookOp.track [] ↔ ¬ HookOp.EndsRemoved hook ops := by
  have nodup : ∀ ops : List HookOp, (ops.foldl HookOp.track []).Nodup := by
    intro ops
    exact foldlRecOn ops HookOp.track nodup_nil fun hooks once op _ => nodup_track once op
  induction ops using reverseRecOn with
  | nil => simp [HookOp.EndsRemoved]
  | append_singleton ops op ih =>
    have others : op.hook ≠ hook → (hook ∈ op.track (ops.foldl HookOp.track []) ↔
          hook ∈ ops.foldl HookOp.track []) := by
      intro differs
      cases op with
      | insert other =>
        rw [HookOp.track]
        split
        · rfl
        · rw [mem_append, mem_singleton]
          exact or_iff_left (Ne.symm differs)
      | remove other => exact mem_erase_of_ne (Ne.symm differs)
    rw [foldl_append, foldl_cons, foldl_nil, HookOp.EndsRemoved, filter_append]
    by_cases same : op.hook = hook
    · rw [filter_cons_of_pos (by simpa using same), filter_nil,
        getLast?_concat, not_not, Option.some_inj]
      subst same
      cases op with
      | insert other =>
        simp only [HookOp.hook, HookOp.track, iff_true]
        split <;> simp_all
      | remove other =>
        simp [HookOp.hook, HookOp.track, (nodup ops).mem_erase_iff]
    · rw [filter_cons_of_neg (by simpa using same), filter_nil,
        append_nil, others same]
      exact ih

theorem run_ended {text : Bytes} (unmarked : Unmarked text) (ops : List HookOp) :
    HookOp.run ops text = if ops.any HookOp.inserts then HookOp.run ops (ended text) else text := by
  induction ops with
  | nil => rfl
  | cons op ops ih =>
    cases op with
    | insert hook =>
      -- the first insertion writes the same to both texts
      have first := apply_insert_absent (unmarked hook).1
      have second := apply_insert_absent (unmarked_ended unmarked hook).1
      rw [ended_of_closed (closed_ended text)] at second
      have some : (HookOp.insert hook :: ops).any HookOp.inserts := rfl
      rw [if_pos some, HookOp.run, HookOp.run, foldl_cons, foldl_cons, first, second]
    | remove hook =>
      have first := apply_remove_absent (unmarked hook).1
      have second := apply_remove_absent (unmarked_ended unmarked hook).1
      have rest : (HookOp.remove hook :: ops).any HookOp.inserts = ops.any HookOp.inserts := rfl
      rw [rest, HookOp.run, HookOp.run, foldl_cons, foldl_cons, first, second]
      exact ih

/-- Once both hooks are removed, the file is the user's text; a line break is
left where the text did not end in one and a hook was inserted. -/
theorem hooks_removed (text : Bytes) (unmarked : Unmarked text) (ops : List HookOp)
    (removed : ∀ hook : Hook, HookOp.EndsRemoved hook ops) :
    HookOp.run ops text = if ops.any HookOp.inserts ∧ text ≠ [] ∧ text.getLast? ≠ some newline then
        text ++ [newline]
      else text := by
  have none : ops.foldl HookOp.track [] = [] := by
    apply eq_nil_iff_forall_not_mem.mpr
    intro hook member
    exact (mem_track_iff hook ops).mp member (removed hook)
  have cleared : HookOp.run ops (ended text) = ended text := by
    have whole := run_layout (closed_ended text) (unmarked_ended unmarked) nodup_nil ops
    simpa [none, layout] using whole
  rw [run_ended unmarked ops, cleared, ended]
  split_ifs <;> simp_all

/-- A configuration that does not end its last line. -/
def openConf : Bytes := utf8 "anchor \"com.apple/*\""

def bothHooks : List HookOp :=
  [.insert .policy, .insert .killSwitch, .remove .policy, .remove .killSwitch]

theorem bothHooks_removed : HookOp.run bothHooks openConf = openConf ++ [newline] := by
  apply (hooks_removed openConf ?_ bothHooks ?_).trans
  · decide
  · intro hook
    cases hook <;> decide
  · intro hook
    cases hook <;> decide

theorem openConf_not_restored : ¬ ∀ (text : Bytes) (ops : List HookOp), Unmarked text →
      (∀ hook : Hook, HookOp.EndsRemoved hook ops) →
      HookOp.run ops text = text := by
  intro restored
  have unmarked : Unmarked openConf := by
    intro hook
    cases hook <;> decide
  have same := restored openConf [.insert .policy, .remove .policy] unmarked
    (by intro hook; cases hook <;> decide)
  revert same
  decide +kernel

end PfConf

end RiftRoute
