/-
Module: RiftRoute.Library.Folds
Purpose: The turns of a fold, each item with the state it meets; best-effort
  runs, split into what went through and what failed; keeping the first item of
  each key; and a table replaced by its own listing and an item to add it.
Trusted boundary: none
-/
import Mathlib.Data.List.Basic
import Mathlib.Data.List.Perm.Basic
import Mathlib.Data.List.Nodup

variable {σ α β : Type} {step : σ → α → σ}

/-- Each item of a fold with the state before its turn. -/
def turns (step : σ → α → σ) : σ → List α → List (σ × α)
  | _, [] => []
  | s, a :: rest => (s, a) :: turns step (step s a) rest

variable {items : List α} {s : σ}

theorem mem_of_mem_turns {turn : σ × α} (member : turn ∈ turns step s items) : turn.2 ∈ items := by
  induction items generalizing s with
  | nil => simp [turns] at member
  | cons a rest ih =>
    rcases List.mem_cons.mp member with rfl | later
    · exact List.mem_cons_self
    · exact List.mem_cons_of_mem _ (ih later)

theorem exists_turn {a : α} (member : a ∈ items) : ∃ before, (before, a) ∈ turns step s items := by
  induction items generalizing s with
  | nil => simp at member
  | cons b rest ih =>
    rcases List.mem_cons.mp member with rfl | later
    · exact ⟨s, List.mem_cons_self⟩
    · obtain ⟨before, found⟩ : ∃ before, (before, a) ∈ turns step (step s b) rest := ih later
      exact ⟨before, List.mem_cons_of_mem _ found⟩

section

variable (out : σ → List β) (adds : σ → α → List β)
  (grows : ∀ s a, out (step s a) = out s ++ adds s a)

include out adds grows

theorem foldl_output (s : σ)
    (items : List α) :
    out (items.foldl step s) = out s ++ (turns step s items).flatMap fun turn =>
        adds turn.1 turn.2 := by
  induction items generalizing s with
  | nil => simp [turns]
  | cons a rest ih =>
    rw [List.foldl_cons, ih, grows]
    simp [turns]

theorem output_before_turn {turn : σ × α}
    (member : turn ∈ turns step s items)
    {b : β} (held : b ∈ out turn.1) : b ∈ out (items.foldl step s) := by
  induction items generalizing s with
  | nil => simp [turns] at member
  | cons a rest ih =>
    rcases List.mem_cons.mp member with rfl | later
    · rw [foldl_output out adds grows]
      exact List.mem_append_left _ held
    · exact ih later

end

theorem foldl_invariant_of_turns (Inv : σ → Prop)
    (keeps : ∀ turn ∈ turns step s items, Inv turn.1 → Inv (step turn.1 turn.2))
    (start : Inv s) : Inv (items.foldl step s) := by
  induction items generalizing s with
  | nil => exact start
  | cons a rest ih =>
    exact ih (fun turn later => keeps turn (List.mem_cons_of_mem _ later))
      (keeps (s, a) List.mem_cons_self start)

section

variable (Inv : σ → Prop) (keeps : ∀ s, ∀ a ∈ items, Inv s → Inv (step s a)) (start : Inv s)

include Inv keeps start

theorem foldl_invariant : Inv (items.foldl step s) :=
  foldl_invariant_of_turns Inv
    (fun turn member => keeps turn.1 turn.2 (mem_of_mem_turns member)) start

theorem turns_invariant {turn : σ × α} (member : turn ∈ turns step s items) :
    Inv turn.1 := by
  induction items generalizing s with
  | nil => simp [turns] at member
  | cons a rest ih =>
    rcases List.mem_cons.mp member with rfl | later
    · exact start
    · exact ih (fun s b member => keeps s b (List.mem_cons_of_mem _ member))
        (keeps s a List.mem_cons_self start) later

end

/-! ### Loops that may fail -/

section Failing

variable {ε γ : Type} {run : σ → α → Except ε σ}

theorem exists_of_bind_ok {x : Except ε α} {f : α → Except ε β} {b : β}
    (ended : (x >>= f) = .ok b) : ∃ a, x = .ok a ∧ f a = .ok b := by
  cases x with
  | error err => cases ended
  | ok a => exact ⟨a, rfl, ended⟩

/-- A loop that ends well put each item's contributions in order. -/
theorem foldlM_output (out : σ → γ) (put : γ → β → γ) (adds : α → List β)
    (grows : ∀ s a after, run s a = .ok after → out after = (adds a).foldl put (out s)) {s last : σ}
    (ended : items.foldlM run s = .ok last) :
    out last = (items.flatMap adds).foldl put (out s) := by
  induction items generalizing s with
  | nil =>
    obtain rfl : s = last := Except.ok.inj ended
    rfl
  | cons a rest ih =>
    obtain ⟨after, stepped, ended⟩ := exists_of_bind_ok ended
    rw [ih ended, grows s a after stepped, List.flatMap_cons, List.foldl_append]

/-- A loop that ends well appended each item's contributions. -/
theorem foldlM_append (out : σ → List β) (adds : α → List β)
    (grows : ∀ s a after, run s a = .ok after → out after = out s ++ adds a) {s last : σ}
    (ended : items.foldlM run s = .ok last) :
    out last = out s ++ items.flatMap adds := by
  have one : ∀ more had : List β, more.foldl (fun had b => had ++ [b]) had = had ++ more := by
    intro more
    induction more with
    | nil => simp
    | cons b more ih => simp [ih]
  rw [foldlM_output out (fun had b => had ++ [b]) adds
    (fun s a after stepped => (grows s a after stepped).trans (one _ _).symm)
    ended, one]

/-- An invariant the steps keep holds when a loop ends well. -/
theorem foldlM_invariant (Inv : σ → Prop)
    (keeps : ∀ s a after, run s a = .ok after → Inv s → Inv after) {s last : σ} (start : Inv s)
    (ended : items.foldlM run s = .ok last) : Inv last := by
  induction items generalizing s with
  | nil =>
    obtain rfl : s = last := Except.ok.inj ended
    exact start
  | cons a rest ih =>
    obtain ⟨after, stepped, ended⟩ := exists_of_bind_ok ended
    exact ih (keeps s a after stepped start) ended

/-- Each item of a loop that ends well had a turn that ended well. -/
theorem foldlM_step {s last : σ}
    (ended : items.foldlM run s = .ok last) {a : α} (member : a ∈ items) :
    ∃ before after, run before a = .ok after := by
  induction items generalizing s with
  | nil => simp at member
  | cons first rest ih =>
    obtain ⟨after, stepped, ended⟩ := exists_of_bind_ok ended
    rcases List.mem_cons.mp member with rfl | later
    · exact ⟨s, after, stepped⟩
    · exact ih ended later

/-- What a list of tries that all end well gives, one of them gave. -/
theorem exists_of_mem_mapM {f : α → Except ε β}
    {results : List β} (ended : items.mapM f = .ok results) {b : β}
    (member : b ∈ results) : ∃ a ∈ items, f a = .ok b := by
  induction items generalizing results with
  | nil =>
    cases ended
    cases member
  | cons a rest ih =>
    rw [List.mapM_cons] at ended
    obtain ⟨here, first, ended⟩ := exists_of_bind_ok ended
    obtain ⟨more, later, ended⟩ := exists_of_bind_ok ended
    cases ended
    rcases List.mem_cons.mp member with rfl | inside
    · exact ⟨a, List.mem_cons_self, first⟩
    · obtain ⟨other, found, gave⟩ := ih later inside
      exact ⟨other, List.mem_cons_of_mem _ found, gave⟩

/-- A loop ends well when each item would from some state, if whether a turn
ends well does not depend on the state. -/
theorem foldlM_ends (anywhere : ∀ s s' a after, run s a = .ok after → ∃ other, run s' a = .ok other)
    (each : ∀ a ∈ items, ∃ s after, run s a = .ok after)
    (s : σ) : ∃ last, items.foldlM run s = .ok last := by
  induction items generalizing s with
  | nil => exact ⟨s, rfl⟩
  | cons first rest ih =>
    obtain ⟨before, after, stepped⟩ := each first List.mem_cons_self
    obtain ⟨next, here⟩ := anywhere before s first after stepped
    obtain ⟨last, ended⟩ := ih (fun a later => each a (List.mem_cons_of_mem _ later)) next
    refine ⟨last, ?_⟩
    rw [List.foldlM_cons, here]
    exact ended

end Failing

/-- `done` and `left` are what a pass over `all` kept and left, in order. -/
inductive Splits {α : Type} : List α → List α → List α → Prop where
  | nil : Splits [] [] []
  | done (x : α) {all done left : List α} :
      Splits all done left → Splits (x :: all) (x :: done) left
  | left (x : α) {all done left : List α} :
      Splits all done left → Splits (x :: all) done (x :: left)

namespace Splits

variable {α β : Type} {all done left : List α}

section

variable (splits : Splits all done left)

include splits

theorem filterMap (f : α → Option β) :
    Splits (all.filterMap f) (done.filterMap f) (left.filterMap f) := by
  induction splits with
  | nil => exact .nil
  | done x _ ih =>
    cases image : f x with
    | none => simpa [image] using ih
    | some y => simpa [image] using ih.done y
  | left x _ ih =>
    cases image : f x with
    | none => simpa [image] using ih
    | some y => simpa [image] using ih.left y

theorem filter (accept : α → Bool) :
    Splits (all.filter accept) (done.filter accept) (left.filter accept) := by
  induction splits with
  | nil => exact .nil
  | done x _ ih =>
    by_cases accepted : accept x
    · simpa [accepted] using ih.done x
    · simpa [accepted] using ih
  | left x _ ih =>
    by_cases accepted : accept x
    · simpa [accepted] using ih.left x
    · simpa [accepted] using ih

/-- Both parts together are the whole. -/
theorem perm : (done ++ left).Perm all := by
  induction splits with
  | nil => exact .nil
  | done x _ ih => exact ih.cons x
  | left x _ ih =>
    exact List.perm_middle.trans (ih.cons x)

theorem mem_iff {x : α} : x ∈ all ↔ x ∈ done ∨ x ∈ left := by
  rw [← splits.perm.mem_iff, List.mem_append]

end

theorem of_map {f : β → α} {xs : List β} (splits : Splits (xs.map f) done left) :
    ∃ doneXs leftXs, Splits xs doneXs leftXs ∧ done = doneXs.map f ∧ left = leftXs.map f := by
  induction xs generalizing done left with
  | nil =>
    cases splits
    exact ⟨[], [], .nil, rfl, rfl⟩
  | cons x xs ih =>
    cases splits with
    | done _ rest =>
      obtain ⟨doneXs, leftXs, split, rfl, rfl⟩ := ih rest
      exact ⟨x :: doneXs, leftXs, .done x split, rfl, rfl⟩
    | left _ rest =>
      obtain ⟨doneXs, leftXs, split, rfl, rfl⟩ := ih rest
      exact ⟨doneXs, x :: leftXs, .left x split, rfl, rfl⟩

theorem nil_cases (splits : Splits [] done left) : done = [] ∧ left = [] := by
  cases splits
  exact ⟨rfl, rfl⟩

theorem singleton_cases {x : α} (splits : Splits [x] done left) :
    (done = [x] ∧ left = []) ∨ (done = [] ∧ left = [x]) := by
  cases splits with
  | done _ rest =>
    obtain ⟨rfl, rfl⟩ := rest.nil_cases
    exact .inl ⟨rfl, rfl⟩
  | left _ rest =>
    obtain ⟨rfl, rfl⟩ := rest.nil_cases
    exact .inr ⟨rfl, rfl⟩

theorem pair_cases {x y : α} (splits : Splits [x, y] done left) :
    (done = [x, y] ∧ left = []) ∨ (done = [x] ∧ left = [y]) ∨
      (done = [y] ∧ left = [x]) ∨ (done = [] ∧ left = [x, y]) := by
  cases splits with
  | done _ rest =>
    rcases rest.singleton_cases with ⟨rfl, rfl⟩ | ⟨rfl, rfl⟩
    · exact .inl ⟨rfl, rfl⟩
    · exact .inr (.inl ⟨rfl, rfl⟩)
  | left _ rest =>
    rcases rest.singleton_cases with ⟨rfl, rfl⟩ | ⟨rfl, rfl⟩
    · exact .inr (.inr (.inl ⟨rfl, rfl⟩))
    · exact .inr (.inr (.inr ⟨rfl, rfl⟩))

end Splits

variable {α κ : Type} [DecidableEq κ] (key : α → κ)

/-- The first item of each key that is not among those seen. -/
def firsts (seen : List κ) : List α → List α
  | [] => []
  | a :: rest =>
    if key a ∈ seen then firsts seen rest
    else a :: firsts (key a :: seen) rest

variable {key} {seen : List κ} {items : List α} {a : α}

theorem firsts_sublist : (firsts key seen items).Sublist items := by
  induction items generalizing seen with
  | nil => exact .slnil
  | cons b rest ih =>
    rw [firsts]
    split
    · exact ih.cons _
    · exact ih.cons_cons _

theorem mem_of_mem_firsts (member : a ∈ firsts key seen items) : a ∈ items :=
  firsts_sublist.subset member

theorem key_not_mem_of_mem_firsts (member : a ∈ firsts key seen items) : key a ∉ seen := by
  induction items generalizing seen with
  | nil => simp [firsts] at member
  | cons b rest ih =>
    rw [firsts] at member
    split at member
    case isTrue => exact ih member
    case isFalse fresh =>
      rcases List.mem_cons.mp member with rfl | later
      · exact fresh
      · exact fun held => ih later (List.mem_cons_of_mem _ held)

theorem nodup_firsts : ((firsts key seen items).map key).Nodup := by
  induction items generalizing seen with
  | nil => simp [firsts]
  | cons b rest ih =>
    rw [firsts]
    split
    · exact ih
    · rw [List.map_cons, List.nodup_cons]
      refine ⟨?_, ih⟩
      intro member
      obtain ⟨c, kept, same⟩ := List.mem_map.mp member
      exact key_not_mem_of_mem_firsts kept (by rw [same]; simp)

theorem exists_firsts (member : a ∈ items) (fresh : key a ∉ seen) :
    ∃ b ∈ firsts key seen items, key b = key a := by
  induction items generalizing seen with
  | nil => simp at member
  | cons c rest ih =>
    rw [firsts]
    by_cases same : key c = key a
    · rw [if_neg (by rw [same]; exact fresh)]
      exact ⟨c, List.mem_cons_self, same⟩
    · have later : a ∈ rest := by
        rcases List.mem_cons.mp member with rfl | later
        · exact absurd rfl same
        · exact later
      split
      · exact ih later fresh
      · have apart : key a ∉ key c :: seen := by
          rw [List.mem_cons, not_or]
          exact ⟨fun equal => same equal.symm, fresh⟩
        obtain ⟨b, kept, equal⟩ := ih later apart
        exact ⟨b, List.mem_cons_of_mem _ kept, equal⟩

/-- Items told apart by themselves lose only their repetitions. -/
theorem mem_firsts_id {items : List κ} {k : κ} : k ∈ firsts id [] items ↔ k ∈ items := by
  refine ⟨mem_of_mem_firsts, fun member => ?_⟩
  obtain ⟨b, kept, same⟩ : ∃ b ∈ firsts id [] items, id b = id k :=
    exists_firsts member List.not_mem_nil
  rw [← show b = k from same]
  exact kept

/-! ### Growing by new keys -/

def addNew (key : α → κ) (items : List α) (a : α) : List α :=
  if key a ∈ items.map key then items else items ++ [a]

variable {more : List α}

theorem mem_addNew {b : α} (member : a ∈ addNew key more b) : a ∈ more ∨ a = b := by
  unfold addNew at member
  split at member
  case isTrue => exact .inl member
  case isFalse =>
    rcases List.mem_append.mp member with before | last
    · exact .inl before
    · exact .inr (List.mem_singleton.mp last)

theorem mem_addNew_of_mem {b : α} (held : a ∈ more) : a ∈ addNew key more b := by
  unfold addNew
  split
  · exact held
  · exact List.mem_append_left _ held

theorem mem_foldl_addNew (member : a ∈ items.foldl (addNew key) more) : a ∈ more ∨ a ∈ items := by
  induction items generalizing more with
  | nil => exact .inl member
  | cons b rest ih =>
    rcases ih member with held | later
    · refine (mem_addNew held).imp_right ?_
      rintro rfl
      exact List.mem_cons_self
    · exact .inr (List.mem_cons_of_mem _ later)

theorem key_mem_foldl_addNew {k : κ} : k ∈ (items.foldl (addNew key) more).map key ↔
      k ∈ more.map key ∨ k ∈ items.map key := by
  induction items generalizing more with
  | nil => simp
  | cons b rest ih =>
    rw [List.foldl_cons, ih, List.map_cons, List.mem_cons]
    unfold addNew
    split
    case isTrue present =>
      constructor
      · rintro (held | later)
        · exact .inl held
        · exact .inr (.inr later)
      · rintro (held | rfl | later)
        · exact .inl held
        · exact .inl present
        · exact .inr later
    case isFalse =>
      rw [List.map_append, List.mem_append, List.map_singleton, List.mem_singleton, or_assoc]

theorem exists_foldl_addNew (member : a ∈ items) :
    ∃ b ∈ items.foldl (addNew key) more, key b = key a :=
  List.mem_map.mp (key_mem_foldl_addNew.mpr (.inr (List.mem_map_of_mem member)))

/-! ### Lists of the same keys -/

def SameKeys (key : α → κ) (xs ys : List α) : Prop := ∀ k, k ∈ xs.map key ↔ k ∈ ys.map key

namespace SameKeys

open List

variable {xs ys xs' ys' : List α}

omit [DecidableEq κ] in
theorem append (first : SameKeys key xs ys) (second : SameKeys key xs' ys') :
    SameKeys key (xs ++ xs') (ys ++ ys') := by
  intro k
  rw [map_append, map_append, mem_append, mem_append, first k, second k]

omit [DecidableEq κ] in
theorem of_mem_iff (same : ∀ a, a ∈ xs ↔ a ∈ ys) : SameKeys key xs ys := by
  intro k
  simp only [mem_map, same]

omit [DecidableEq κ] in
theorem filter {accept : α → Bool} (byKey : κ → Bool)
    (decides : ∀ a, accept a = byKey (key a)) (same : SameKeys key xs ys) :
    SameKeys key (xs.filter accept) (ys.filter accept) := by
  have keys : ∀ zs : List α, (zs.filter accept).map key = (zs.map key).filter byKey := by
    intro zs
    rw [filter_map]
    exact congrArg (List.map key) (filter_congr fun a _ => decides a)
  intro k
  rw [keys, keys, mem_filter, mem_filter, same k]

omit [DecidableEq κ] in
theorem map {change : α → α} (byKey : κ → κ) (changes : ∀ a, key (change a) = byKey (key a))
    (same : SameKeys key xs ys) :
    SameKeys key (xs.map change) (ys.map change) := by
  have keys : ∀ zs : List α, (zs.map change).map key = (zs.map key).map byKey := by
    intro zs
    rw [map_map, map_map]
    exact map_congr_left fun a _ => changes a
  intro k
  rw [keys, keys, mem_map, mem_map]
  exact exists_congr fun j => and_congr_left fun _ => same j

theorem grow (first : SameKeys key xs ys) (second : SameKeys key xs' ys') :
    SameKeys key (xs'.foldl (addNew key) xs) (ys'.foldl (addNew key) ys) := by
  intro k
  rw [key_mem_foldl_addNew, key_mem_foldl_addNew, first k, second k]

end SameKeys

namespace Rewritten

open List

/-- What is read back of the items held, one of each key.  `back` is what an
item that was written is listed as, if anything. -/
def listing (key : α → κ) (back : α → Option α) (held : List α) : List α :=
  firsts key [] (held.filterMap back)

/-- Add an item by rewriting the table, which is kept in an order of its
own. -/
def add (key : α → κ) (back : α → Option α) (arrange : List α → List α)
    (held : List α) (a : α) : List α :=
  if key a ∈ (listing key back held).map key then held
  else arrange (listing key back held ++ [a])

/-- What makes rewriting harmless on good items: one that was listed is listed
the same way again, and items of one key are listed alike. -/
structure Lawful (key : α → κ) (back : α → Option α) (good : α → Prop) :
    Prop where
  closed : ∀ a b, good a → back a = some b → good b
  stable : ∀ a b, good a → back a = some b → back b = some b
  alike : ∀ a b, good a → good b → key a = key b → (back a).map key = (back b).map key

section Listing

variable {key : α → κ} {back : α → Option α} {held : List α} {k : κ}

theorem key_mem_listing : k ∈ (listing key back held).map key ↔
      ∃ a ∈ held, (back a).map key = some k := by
  constructor
  · intro member
    obtain ⟨b, listed, rfl⟩ := mem_map.mp member
    obtain ⟨a, inside, read⟩ := mem_filterMap.mp (mem_of_mem_firsts listed)
    exact ⟨a, inside, by rw [read]; rfl⟩
  · rintro ⟨a, inside, read⟩
    obtain ⟨b, found, rfl⟩ := Option.map_eq_some_iff.mp read
    obtain ⟨c, listed, same⟩ : ∃ c ∈ listing key back held, key c = key b :=
      exists_firsts (mem_filterMap.mpr ⟨a, inside, found⟩) not_mem_nil
    exact mem_map.mpr ⟨c, listed, same⟩

theorem mem_of_mem_listing {b : α} (member : b ∈ listing key back held) :
    ∃ a ∈ held, back a = some b :=
  mem_filterMap.mp (mem_of_mem_firsts member)

end Listing

section Adding

variable {key : α → κ} {back : α → Option α} {good : α → Prop}
  {arrange : List α → List α} {held items : List α} {k : κ} (lawful : Lawful key back good)

include lawful

theorem good_listing (fine : ∀ b ∈ held, good b) : ∀ b ∈ listing key back held, good b := by
  intro b listed
  obtain ⟨a, inside, read⟩ := mem_of_mem_listing listed
  exact lawful.closed a b (fine a inside) read

variable (same : ∀ (items : List α) (b : α), b ∈ arrange items ↔ b ∈ items)

include same

theorem good_add (fine : ∀ b ∈ held, good b) {a : α} (one : good a) :
    ∀ b ∈ add key back arrange held a, good b := by
  unfold add
  split
  case isTrue => exact fine
  case isFalse =>
    intro b member
    rcases mem_append.mp ((same _ b).mp member) with listed | last
    · exact good_listing lawful fine b listed
    · exact mem_singleton.mp last ▸ one

theorem good_foldl_add (each : ∀ a ∈ items, good a) (fine : ∀ b ∈ held, good b) :
    ∀ b ∈ items.foldl (add key back arrange) held, good b := by
  induction items generalizing held with
  | nil => exact fine
  | cons a items ih =>
    obtain ⟨one, rest⟩ := forall_mem_cons.mp each
    exact ih rest (good_add lawful same fine one)

theorem key_mem_listing_add (fine : ∀ b ∈ held, good b) {a : α} (one : good a) :
    k ∈ (listing key back (add key back arrange held a)).map key ↔
      k ∈ (listing key back held).map key ∨ (back a).map key = some k := by
  -- what is listed is listed again, under its own key
  have again : ∀ b ∈ listing key back held, good b ∧ back b = some b := by
    intro b listed
    obtain ⟨c, inside, read⟩ := mem_of_mem_listing listed
    exact ⟨lawful.closed c b (fine c inside) read, lawful.stable c b (fine c inside) read⟩
  unfold add
  split
  case isTrue present =>
    refine (or_iff_left_of_imp fun read => ?_).symm
    obtain ⟨b, listed, shared⟩ := mem_map.mp present
    obtain ⟨kind, stays⟩ := again b listed
    have key_b : some (key b) = some k := by
      rw [← read, lawful.alike a b one kind shared.symm, stays]
      rfl
    exact Option.some.inj key_b ▸ mem_map_of_mem listed
  case isFalse =>
    rw [key_mem_listing]
    constructor
    · rintro ⟨b, member, read⟩
      rcases mem_append.mp ((same _ b).mp member) with listed | last
      · rw [(again b listed).2] at read
        exact .inl (Option.some.inj read ▸ mem_map_of_mem listed)
      · exact .inr (mem_singleton.mp last ▸ read)
    · rintro (listed | read)
      · obtain ⟨b, member, rfl⟩ := mem_map.mp listed
        refine ⟨b, (same _ b).mpr (mem_append_left _ member), ?_⟩
        rw [(again b member).2]
        rfl
      · exact ⟨a, (same _ a).mpr (mem_append_right _ (mem_singleton_self a)), read⟩

theorem key_mem_listing_foldl (each : ∀ a ∈ items, good a) (fine : ∀ b ∈ held, good b) :
    k ∈ (listing key back (items.foldl (add key back arrange) held)).map key ↔
      k ∈ (listing key back held).map key ∨ ∃ a ∈ items, (back a).map key = some k := by
  induction items generalizing held with
  | nil => simp
  | cons a items ih =>
    obtain ⟨one, rest⟩ := forall_mem_cons.mp each
    rw [foldl_cons, ih rest
      (good_add lawful same fine one), key_mem_listing_add lawful same fine one,
      or_assoc]
    simp

/-- The keys of the items are what is listed, exactly when every item is
listed under its own key. -/
theorem listed_iff (each : ∀ a ∈ items, good a) :
    (∀ k, k ∈ (listing key back (items.foldl (add key back arrange) [])).map key ↔
      k ∈ items.map key) ↔
      ∀ a ∈ items, (back a).map key = some (key a) := by
  have keys := fun k => key_mem_listing_foldl (k := k) lawful same each (forall_mem_nil good)
  simp only [listing, filterMap_nil, firsts, map_nil, not_mem_nil, false_or] at keys
  constructor
  · intro listed a member
    obtain ⟨b, inside, read⟩ :=
      (keys (key a)).mp ((listed (key a)).mpr (mem_map_of_mem member))
    obtain ⟨c, found, shared⟩ := Option.map_eq_some_iff.mp read
    have kind := lawful.closed b c (each b inside) found
    rw [lawful.alike a c (each a member) kind shared.symm,
      lawful.stable b c (each b inside) found, ← shared]
    rfl
  · intro own k
    refine (keys k).trans ⟨?_, ?_⟩
    · rintro ⟨a, member, read⟩
      rw [own a member] at read
      exact Option.some.inj read ▸ mem_map_of_mem member
    · intro member
      obtain ⟨a, inside, rfl⟩ := mem_map.mp member
      exact ⟨a, inside, own a inside⟩

end Adding

end Rewritten
