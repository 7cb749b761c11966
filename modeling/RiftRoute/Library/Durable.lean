/-
Module: RiftRoute.Library.Durable
Purpose: Programs of operations on a durable state that may fail or die
  anywhere.  `Holds` says what is true wherever a program stops, and when it
  returns.
Trusted boundary: none
-/
import Mathlib.Data.List.Basic

namespace Durable

open List

/-- A program: it returns, reads the state, or performs an operation and goes
on knowing whether it succeeded. -/
inductive Prog (O D A : Type) where
  | done (answer : A)
  | look (next : D → Prog O D A)
  | act (op : O) (next : Bool → Prog O D A)

variable {O D A B I : Type}

namespace Prog

def bind : Prog O D A → (A → Prog O D B) → Prog O D B
  | .done a, f => f a
  | .look next, f => .look fun d => (next d).bind f
  | .act op next, f => .act op fun ok => (next ok).bind f

instance : Monad (Prog O D) where
  pure := .done
  bind := .bind

def read : Prog O D D := .look .done

def perform (op : O) : Prog O D Bool := .act op .done

/-- Perform an operation whose failure is ignored. -/
def attempt (op : O) : Prog O D Unit := .act op fun _ => .done ()

/-- Go through a list, up to the first element that fails. -/
def each (body : I → Prog O D Bool) : List I → Prog O D Bool
  | [] => .done true
  | i :: rest => (body i).bind fun ok => if ok then each body rest else .done false

end Prog

open Prog

variable (sem : O → D → Option D)

/-- Run a program for as many operations as there are answers; an operation
answered `false` is refused.  The state it stops in, and its result if it
returned. -/
def exec : Prog O D A → List Bool → D → D × Option A
  | .done a, _, d => (d, some a)
  | .look next, oks, d => exec (next d) oks d
  | .act _ _, [], d => (d, none)
  | .act op next, ok :: oks, d =>
    match if ok then sem op d else none with
    | some after => exec (next true) oks after
    | none => exec (next false) oks d

/-- The operations that were refused in a run. -/
def refused : Prog O D A → List Bool → D → List O
  | .done _, _, _ => []
  | .look next, oks, d => refused (next d) oks d
  | .act _ _, [], _ => []
  | .act op next, ok :: oks, d =>
    match if ok then sem op d else none with
    | some after => refused (next true) oks after
    | none => if ok then refused (next false) oks d
        else op :: refused (next false) oks d

/-- The operations that were carried out in a run. -/
def performed : Prog O D A → List Bool → D → List O
  | .done _, _, _ => []
  | .look next, oks, d => performed (next d) oks d
  | .act _ _, [], _ => []
  | .act op next, ok :: oks, d =>
    match if ok then sem op d else none with
    | some after => op :: performed (next true) oks after
    | none => performed (next false) oks d

/-- Run a program to its end, with no operation refused. -/
def finish : Prog O D A → D → A × D
  | .done a, d => (a, d)
  | .look next, d => finish (next d) d
  | .act op next, d =>
    match sem op d with
    | some after => finish (next true) after
    | none => finish (next false) d

/-- Wherever the program stops, `stops` holds of the state, and where it
returns, `ends` holds, when the environment refuses at most so many
operations, all of them ones it may refuse. -/
def Holds (may : O → Prop) (ends : Nat → A → D → Prop) (stops : D → Prop) :
    Prog O D A → Nat → D → Prop
  | .done a, budget, d => stops d ∧ ends budget a d
  | .look next, budget, d => Holds may ends stops (next d) budget d
  | .act op next, budget, d =>
    stops d ∧ (∀ after, sem op d = some after → Holds may ends stops (next true) budget after) ∧
      (sem op d = none → Holds may ends stops (next false) budget d) ∧
      (may op → 0 < budget → Holds may ends stops (next false) (budget - 1) d)

variable {sem} {may : O → Prop} {ends : Nat → A → D → Prop} {stops : D → Prop}

variable {d : D} {budget : Nat}

/-- A program that reads the state first. -/
theorem holds_look {f : D → Prog O D A} (holds : Holds sem may ends stops (f d) budget d) :
    Holds sem may ends stops (read.bind f) budget d :=
  holds

section

variable {op : O} {next : Bool → Prog O D A} {after : D} (performed : sem op d = some after)
  (here : stops d)

include performed here

/-- An operation that succeeds unless it is refused. -/
theorem holds_act (rest : Holds sem may ends stops (next true) budget after)
    (refusal : may op → 0 < budget → Holds sem may ends stops (next false) (budget - 1) d) :
    Holds sem may ends stops (.act op next) budget d := by
  refine ⟨here, ?_, ?_, refusal⟩
  · intro other otherPerformed
    obtain rfl := Option.some.inj (performed.symm.trans otherPerformed)
    exact rest
  · intro failed
    rw [performed] at failed
    cases failed

/-- An operation that succeeds where nothing is refused. -/
theorem holds_act_some (rest : Holds sem may ends stops (next true) 0 after) :
    Holds sem may ends stops (.act op next) 0 d :=
  holds_act performed here rest fun _ left => absurd left (Nat.lt_irrefl 0)

end

variable {p : Prog O D A}

/-- The rule of consequence. -/
theorem holds_mono {weaker : Nat → A → D → Prop} {stopsWeaker : D → Prop}
    (holds : Holds sem may ends stops p budget d)
    (endsOn : ∀ n a d, stops d → ends n a d → weaker n a d)
    (stopsOn : ∀ d, stops d → stopsWeaker d) :
    Holds sem may weaker stopsWeaker p budget d := by
  induction p generalizing budget d with
  | done a => exact ⟨stopsOn d holds.1, endsOn budget a d holds.1 holds.2⟩
  | look next ih => exact ih d holds
  | act op next ih =>
    obtain ⟨here, success, failure, refusal⟩ := holds
    refine ⟨stopsOn d here, ?_, ?_, ?_⟩
    · intro after performed
      exact ih true (success after performed)
    · intro failed
      exact ih false (failure failed)
    · intro allowed left
      exact ih false (refusal allowed left)

variable {f : A → Prog O D B}

theorem holds_bind {ends : Nat → B → D → Prop}
    (holds : Holds sem may (fun n a d => Holds sem may ends stops (f a) n d) stops p budget d) :
    Holds sem may ends stops (p.bind f) budget d := by
  induction p generalizing budget d with
  | done a => exact holds.2
  | look next ih => exact ih d holds
  | act op next ih =>
    obtain ⟨here, success, failure, refusal⟩ := holds
    refine ⟨here, ?_, ?_, ?_⟩
    · intro after performed
      exact ih true (success after performed)
    · intro failed
      exact ih false (failure failed)
    · intro allowed left
      exact ih false (refusal allowed left)

/-- Refusals are only used up. -/
theorem holds_budget (holds : Holds sem may ends stops p budget d) :
    Holds sem may (fun n a d => n ≤ budget ∧ ends n a d) stops p budget d := by
  have upTo : ∀ {n}, n ≤ budget → ∀ {d}, Holds sem may ends stops p n d →
      Holds sem may (fun n a d => n ≤ budget ∧ ends n a d) stops p n d := by
    clear holds
    induction p with
    | done a => exact fun small _ holds => ⟨holds.1, small, holds.2⟩
    | look next ih =>
      exact fun small d holds => ih d small holds
    | act op next ih =>
      intro n small d holds
      obtain ⟨here, success, failure, refusal⟩ := holds
      refine ⟨here, ?_, ?_, ?_⟩
      · intro after performed
        exact ih true small (success after performed)
      · intro failed
        exact ih false small (failure failed)
      · intro allowed left
        exact ih false (by omega) (refusal allowed left)
  exact upTo (Nat.le_refl budget) holds

/-- A program whose own rule is known, and what comes after it. -/
theorem holds_seq {endsFirst : Nat → A → D → Prop} {stopsFirst : D → Prop}
    {ends : Nat → B → D → Prop}
    (first : Holds sem may endsFirst stopsFirst p budget d)
    (stopsOn : ∀ d, stopsFirst d → stops d)
    (next : ∀ n ≤ budget, ∀ a d, endsFirst n a d → Holds sem may ends stops (f a) n d) :
    Holds sem may ends stops (p.bind f) budget d := by
  apply holds_bind
  apply holds_mono (holds_budget first) _ stopsOn
  rintro n a after - ⟨small, ended⟩
  exact next n small a after ended

/-- The rule of a loop: what holds before the elements still to come. -/
theorem holds_each (inv : List I → Nat → D → Prop) (failed : Nat → D → Prop)
    {body : I → Prog O D Bool}
    (turn : ∀ i rest n d, inv (i :: rest) n d →
      Holds sem may (fun n ok d => if ok then inv rest n d else failed n d) stops (body i) n d)
    (last : ∀ n d, inv [] n d → stops d) (is : List I)
    (start : inv is budget d) :
    Holds sem may (fun n ok d => if ok then inv [] n d else failed n d)
      stops (each body is) budget d := by
  induction is generalizing budget d with
  | nil => exact ⟨last budget d start, start⟩
  | cons i rest ih =>
    apply holds_bind
    apply holds_mono (turn i rest budget d start) _ fun _ here => here
    intro n ok d here after
    cases ok with
    | true => exact ih after
    | false => exact ⟨here, after⟩

/-- Every operation of the program is one of these. -/
def Uses (ok : O → Prop) : Prog O D A → Prop
  | .done _ => True
  | .look next => ∀ d, Uses ok (next d)
  | .act op next => ok op ∧ ∀ success, Uses ok (next success)

variable {ok : O → Prop}

theorem uses_bind (first : Uses ok p) (rest : ∀ a, Uses ok (f a)) : Uses ok (p.bind f) := by
  induction p with
  | done a => exact rest a
  | look next ih =>
    exact fun d => ih d (first d)
  | act op next ih =>
    exact ⟨first.1, fun success => ih success (first.2 success)⟩

theorem uses_ite {c : Prop} [Decidable c] {q : Prog O D A}
    (yes : Uses ok p) (no : Uses ok q) : Uses ok (if c then p else q) := by
  split
  · exact yes
  · exact no

theorem uses_each {body : I → Prog O D Bool} {is : List I}
    (turn : ∀ i ∈ is, Uses ok (body i)) : Uses ok (each body is) := by
  induction is with
  | nil => trivial
  | cons i rest ih =>
    refine uses_bind (turn i (by simp)) fun success => ?_
    cases success with
    | true => exact ih fun i member => turn i (by simp [member])
    | false => trivial

theorem uses_mono {more : O → Prop} (uses : Uses ok p)
    (allows : ∀ op, ok op → more op) : Uses more p := by
  induction p with
  | done a => trivial
  | look next ih =>
    exact fun d => ih d (uses d)
  | act op next ih =>
    exact ⟨allows op uses.1, fun success => ih success (uses.2 success)⟩

theorem uses_performed (uses : Uses ok p)
    {oks : List Bool} : ∀ op ∈ performed sem p oks d, ok op := by
  induction p generalizing oks d with
  | done a => exact fun _ member => nomatch member
  | look next ih => exact ih d (uses d)
  | act op next ih =>
    cases oks with
    | nil => exact fun _ member => nomatch member
    | cons success oks =>
      rw [performed]
      split
      · intro other member
        rcases mem_cons.mp member with rfl | later
        · exact uses.1
        · exact ih true (uses.2 true) other later
      · exact ih false (uses.2 false)

/-- The frame rule: what the operations keep holds throughout, and an
operation that was refused is one of them. -/
theorem holds_frame {kept : D → Prop}
    (keeps : ∀ op, ok op → ∀ d after, kept d → sem op d = some after →
      kept after) (uses : Uses ok p)
    (start : kept d) :
    Holds sem may (fun n _ d => kept d ∧ (n < budget → ∃ op, ok op ∧ may op)) kept p budget d := by
  have upTo : ∀ {n d}, (n < budget → ∃ op, ok op ∧ may op) → kept d →
      Holds sem may (fun n _ d => kept d ∧ (n < budget → ∃ op, ok op ∧ may op)) kept p n d := by
    induction p with
    | done a => exact fun spent start => ⟨start, start, spent⟩
    | look next ih =>
      exact fun spent start => ih _ (uses _) spent start
    | act op next ih =>
      intro n d spent start
      refine ⟨start, ?_, ?_, ?_⟩
      · intro after performed
        exact ih true (uses.2 true) spent (keeps op uses.1 d after start performed)
      · intro _
        exact ih false (uses.2 false) spent start
      · intro allowed _
        exact ih false (uses.2 false) (fun _ => ⟨op, uses.1, allowed⟩) start
  exact upTo (fun less => absurd less (Nat.lt_irrefl budget)) start

/-- What `Holds` says of every run. -/
theorem holds_sound {oks : List Bool} (holds : Holds sem may ends stops p budget d)
    (few : (refused sem p oks d).length ≤ budget)
    (allowed : ∀ op ∈ refused sem p oks d, may op) :
    stops (exec sem p oks d).1 ∧ ∀ a, (exec sem p oks d).2 = some a →
        ends (budget - (refused sem p oks d).length) a (exec sem p oks d).1 := by
  induction p generalizing oks budget d with
  | done a =>
    refine ⟨holds.1, ?_⟩
    rintro _ ⟨⟩
    exact holds.2
  | look next ih =>
    exact ih d holds few allowed
  | act op next ih =>
    obtain ⟨here, success, failure, refusal⟩ := holds
    cases oks with
    | nil => exact ⟨here, fun a returned => nomatch returned⟩
    | cons ok oks =>
      cases ok with
      | false =>
        simp only [exec, refused, Bool.false_eq_true, if_false,
          length_cons, forall_mem_cons] at few allowed ⊢
        have rest := ih false (refusal allowed.1 (by omega)) (by omega) allowed.2
        rw [Nat.add_comm, ← Nat.sub_sub]
        exact rest
      | true =>
        cases performed : sem op d with
        | some after =>
          simp only [exec, refused, if_true, performed] at few allowed ⊢
          exact ih true (success after performed) few allowed
        | none =>
          simp only [exec, refused, if_true, performed] at few allowed ⊢
          exact ih false (failure performed) few allowed

theorem refused_none (p : Prog O D A) (k : Nat) (d : D) :
    refused sem p (replicate k true) d = [] := by
  induction p generalizing k d with
  | done a => rfl
  | look next ih => exact ih d k d
  | act op next ih =>
    cases k with
    | zero => rfl
    | succ k =>
      cases performed : sem op d with
      | some after =>
        simpa [refused, replicate_succ, performed] using ih true k after
      | none =>
        simpa [refused, replicate_succ, performed] using ih false k d

/-- What holds of a run with no refusal, wherever it stops. -/
theorem holds_cut (holds : Holds sem (fun _ => False) ends stops p budget d) (k : Nat) :
    stops (exec sem p (replicate k true) d).1 := by
  have nothing : refused sem p (replicate k true) d = [] := refused_none p k d
  exact (holds_sound holds (by simp [nothing]) (by simp [nothing])).1

theorem holds_finish (holds : Holds sem (fun _ => False) ends stops p budget d) :
    stops (finish sem p d).2 ∧ ends budget (finish sem p d).1 (finish sem p d).2 := by
  induction p generalizing d with
  | done a => exact holds
  | look next ih => exact ih d holds
  | act op next ih =>
    obtain ⟨-, success, failure, -⟩ := holds
    cases performed : sem op d with
    | some after =>
      simp only [finish, performed]
      exact ih true (success after performed)
    | none =>
      simp only [finish, performed]
      exact ih false (failure performed)

end Durable
