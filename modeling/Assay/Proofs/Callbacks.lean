import Assay.Cancellation
import Mathlib.Algebra.GroupWithZero.Nat

/-! Callbacks of a token that many parties use. A call holds the lock for one step and may leave
callbacks to its party; each of them is run in a step of its own, and the steps of the parties come
in any order. What is owed to a callback, as a registration or as a run that is still due, changes
only with its additions, removals and runs, so that in the end none is lost and none repeated. -/
namespace Assay.Token

variable {α : Type} [DecidableEq α]

/-- The callbacks that a party has still to run, and then the calls that it has still to make. -/
structure Party (α : Type) where
  due : List α
  calls : List (Call α)

structure Shared (α : Type) where
  token : Token α
  parties : List (Party α)

inductive Act (α : Type) where
  | locked (call : Call α)
  | ran (callback : α)
  deriving DecidableEq, Repr

namespace Shared

/-- A step of one party. It makes no call while a callback is due. -/
inductive Step : Shared α → Act α → Shared α → Prop where
  | locked (t : Token α) (front back : List (Party α)) (call : Call α) (calls : List (Call α)) :
      Step ⟨t, front ++ ⟨[], call :: calls⟩ :: back⟩ (.locked call)
        ⟨(t.step call).1, front ++ ⟨(t.step call).2, calls⟩ :: back⟩
  | ran (t : Token α) (front back : List (Party α)) (c : α) (due : List α)
      (calls : List (Call α)) :
      Step ⟨t, front ++ ⟨c :: due, calls⟩ :: back⟩ (.ran c) ⟨t, front ++ ⟨due, calls⟩ :: back⟩

inductive Run : Shared α → List (Act α) → Shared α → Prop where
  | nil (s : Shared α) : Run s [] s
  | cons {s s' s'' : Shared α} {a : Act α} {acts : List (Act α)} :
      Step s a s' → Run s' acts s'' → Run s (a :: acts) s''

omit [DecidableEq α] in
def start (calls : List (List (Call α))) : Shared α := ⟨.fresh, calls.map fun cs => ⟨[], cs⟩⟩

omit [DecidableEq α] in
def Finished (s : Shared α) : Prop := ∀ p ∈ s.parties, p.due = [] ∧ p.calls = []

end Shared

/-- A removal that finds the callback registered while the token is not set. -/
def Withdraws (t : Token α) (c : α) (a : Act α) : Prop :=
  a = .locked (.remove c) ∧ t.cancelled = false ∧ c ∈ t.callbacks

instance (t : Token α) (c : α) (a : Act α) : Decidable (t.Withdraws c a) :=
  inferInstanceAs (Decidable (_ ∧ _ ∧ _))

def after (t : Token α) : Act α → Token α
  | .locked call => (t.step call).1
  | .ran _ => t

def withdrawals (c : α) : Token α → List (Act α) → Nat
  | _, [] => 0
  | t, a :: acts => (if t.Withdraws c a then 1 else 0) + withdrawals c (t.after a) acts

def registered (t : Token α) (c : α) : Nat := if t.cancelled then 0 else t.callbacks.count c

/-- A call turns registrations into runs that are due, and loses none but those it withdraws. -/
theorem step_registered (t : Token α) (call : Call α) (c : α) :
    (t.step call).1.registered c + (t.step call).2.count c +
        (if t.Withdraws c (.locked call) then 1 else 0) =
      t.registered c + [Act.locked call].count (.locked (.add c)) := by
  cases call with
  | add d =>
    cases set : t.cancelled <;> by_cases same : d = c <;>
      simp [registered, Withdraws, step, set, same]
  | remove d =>
    cases set : t.cancelled with
    | true => simp [registered, Withdraws, step, set]
    | false =>
      by_cases same : d = c
      · subst same
        by_cases there : d ∈ t.callbacks
        · have positive : 0 < t.callbacks.count d := List.count_pos_iff.mpr there
          simp [registered, Withdraws, step, set, there, Nat.sub_add_cancel positive]
        · simp [registered, Withdraws, step, set, there, List.erase_of_not_mem there]
      · simp [registered, Withdraws, step, set, same, List.count_erase_of_ne (Ne.symm same)]
  | cancel =>
    cases set : t.cancelled <;> simp [registered, Withdraws, step, set]

theorem after_cancelled (t : Token α) (a : Act α) :
    (t.after a).cancelled = true ↔ t.cancelled = true ∨ a = .locked .cancel := by
  cases a with
  | ran c => simp [after]
  | locked call => cases call <;> cases set : t.cancelled <;> simp [after, step, set]

theorem step_clear {t : Token α} {call : Call α} (clear : (t.step call).1.cancelled = false) :
    t.cancelled = false ∧ (t.step call).2 = [] := by
  cases call <;> cases set : t.cancelled <;> simp_all [step]

namespace Shared

def total (f : Party α → Nat) (parties : List (Party α)) : Nat := (parties.map f).sum

omit [DecidableEq α] in
@[simp] theorem total_split (f : Party α → Nat) (front back : List (Party α)) (p : Party α) :
    total f (front ++ p :: back) = total f (front ++ back) + f p := by
  simp [total]
  omega

omit [DecidableEq α] in
theorem total_eq_zero {f : Party α → Nat} {parties : List (Party α)}
    (none : ∀ p ∈ parties, f p = 0) : total f parties = 0 := by
  induction parties with
  | nil => rfl
  | cons p parties ih =>
    have head := none p (List.mem_cons_self ..)
    have tail := ih fun q member => none q (List.mem_cons_of_mem _ member)
    simpa [total, head] using tail

/-- Runs that a callback gets if the token is, or comes to be, cancelled. -/
def owed (s : Shared α) (c : α) : Nat :=
  s.token.registered c + total (fun p => p.due.count c) s.parties

def left (s : Shared α) (call : Call α) : Nat := total (fun p => p.calls.count call) s.parties

theorem Step.token_eq {s s' : Shared α} {a : Act α} (step : Step s a s') :
    s'.token = s.token.after a := by
  cases step <;> rfl

/-- What is owed to a callback grows with its additions, and shrinks with its runs and with the
removals that withdraw it. -/
theorem Step.owed {s s' : Shared α} {a : Act α} (step : Step s a s') (c : α) :
    s'.owed c + [a].count (.ran c) + (if s.token.Withdraws c a then 1 else 0) =
      s.owed c + [a].count (.locked (.add c)) := by
  cases step with
  | locked t front back call calls =>
    have law := t.step_registered call c
    simp [Shared.owed] at law ⊢
    omega
  | ran t front back d rest calls =>
    simp [Shared.owed, Withdraws, List.count_cons]
    omega

theorem Step.left {s s' : Shared α} {a : Act α} (step : Step s a s') (call : Call α) :
    s'.left call + [a].count (.locked call) = s.left call := by
  cases step with
  | locked t front back made calls =>
    simp [Shared.left, List.count_cons]
    omega
  | ran t front back d rest calls =>
    simp [Shared.left]

def Quiet (s : Shared α) : Prop := s.token.cancelled = false → ∀ p ∈ s.parties, p.due = []

omit [DecidableEq α] in
theorem quiet_start (calls : List (List (Call α))) : (start calls).Quiet := by
  intro _ p member
  obtain ⟨cs, -, rfl⟩ := List.mem_map.mp member
  rfl

theorem Step.quiet {s s' : Shared α} {a : Act α} (step : Step s a s') (quiet : s.Quiet) :
    s'.Quiet := by
  intro clear p member
  cases step with
  | ran t front back d rest calls =>
    have none := quiet clear ⟨d :: rest, calls⟩ (by simp)
    contradiction
  | locked t front back call calls =>
    obtain ⟨before, nothing⟩ := step_clear clear
    have others := quiet before
    simp only [List.mem_append, List.mem_cons] at member others
    rcases member with member | rfl | member
    · exact others p (.inl member)
    · exact nothing
    · exact others p (.inr (.inr member))

namespace Run

variable {s s' : Shared α} {acts : List (Act α)}

theorem owed (run : Run s acts s') (c : α) :
    s'.owed c + acts.count (.ran c) + withdrawals c s.token acts =
      s.owed c + acts.count (.locked (.add c)) := by
  induction run with
  | nil s => simp [withdrawals]
  | @cons s m s' a acts step rest ih =>
    have first := step.owed c
    rw [step.token_eq] at ih
    simp only [withdrawals, List.count_cons, List.count_nil] at first ⊢
    omega

theorem left (run : Run s acts s') (call : Call α) :
    s'.left call + acts.count (.locked call) = s.left call := by
  induction run with
  | nil s => simp
  | cons step rest ih =>
    have first := step.left call
    simp only [List.count_cons, List.count_nil] at first ⊢
    omega

theorem cancelled (run : Run s acts s') :
    s'.token.cancelled = true ↔ s.token.cancelled = true ∨ .locked .cancel ∈ acts := by
  induction run with
  | nil s => simp
  | cons step rest ih =>
    rw [ih, step.token_eq, after_cancelled, List.mem_cons, or_assoc,
      eq_comm (a := Act.locked .cancel)]

theorem set_of_ran (run : Run s acts s') (quiet : s.Quiet) {c : α} (ran : .ran c ∈ acts) :
    s'.token.cancelled = true := by
  induction run with
  | nil s => contradiction
  | @cons s m s' a acts step rest ih =>
    rcases List.mem_cons.mp ran with rfl | later
    · cases step with
      | ran t front back d due calls =>
        have set : t.cancelled = true := by
          refine (Bool.not_eq_false _).mp fun clear => ?_
          have none := quiet clear ⟨c :: due, calls⟩ (by simp)
          contradiction
        exact rest.cancelled.mpr (.inl set)
    · exact ih (step.quiet quiet) later

end Run

omit [DecidableEq α] in
theorem Finished.total {s : Shared α} (finished : s.Finished) {f : Party α → Nat}
    (none : f ⟨[], []⟩ = 0) : total f s.parties = 0 := by
  refine total_eq_zero fun p member => ?_
  obtain ⟨due, calls⟩ := p
  obtain ⟨rfl, rfl⟩ := finished _ member
  exact none

theorem left_start (calls : List (List (Call α))) (call : Call α) :
    (start calls).left call = (calls.map fun cs => cs.count call).sum := by
  simp only [left, total, start, List.map_map]
  rfl

theorem owed_start (calls : List (List (Call α))) (c : α) : (start calls).owed c = 0 := by
  have none : total (fun p : Party α => p.due.count c) (start calls).parties = 0 := by
    refine total_eq_zero fun p member => ?_
    obtain ⟨cs, -, rfl⟩ := List.mem_map.mp member
    rfl
  rw [owed, none]
  rfl

theorem Run.cancel_mem {calls : List (List (Call α))} {acts : List (Act α)} {s : Shared α}
    (run : Run (start calls) acts s) (finished : s.Finished) :
    .locked .cancel ∈ acts ↔ ∃ cs ∈ calls, .cancel ∈ cs := by
  have made := run.left .cancel
  have none : s.left .cancel = 0 := finished.total rfl
  rw [none, left_start, Nat.zero_add] at made
  rw [← List.count_pos_iff, made, List.sum_pos_iff_exists_pos_nat]
  constructor
  · rintro ⟨_, member, positive⟩
    obtain ⟨cs, made, rfl⟩ := List.mem_map.mp member
    exact ⟨cs, made, List.count_pos_iff.mp positive⟩
  · rintro ⟨cs, made, cancels⟩
    exact ⟨_, List.mem_map_of_mem made, List.count_pos_iff.mpr cancels⟩

/-- Parties add, remove and cancel in any order. Once all calls have returned, a callback has not
run at all if no call cancelled the token; else it has run as often as it was added, less the
removals that found it registered before the token was set. A token that is set stays set. -/
theorem callbacks_run_as_registered (calls : List (List (Call α))) (acts : List (Act α))
    (s : Shared α) (run : Run (start calls) acts s) (finished : s.Finished) (c : α) :
    ((¬ ∃ cs ∈ calls, .cancel ∈ cs) → acts.count (.ran c) = 0) ∧
    ((∃ cs ∈ calls, .cancel ∈ cs) → acts.count (.ran c) + withdrawals c .fresh acts =
      (calls.map fun cs => cs.count (.add c)).sum) ∧
    ∀ front middle acts' s', Run (start calls) front middle → Run middle acts' s' →
      middle.token.cancelled = true → s'.token.cancelled = true := by
  have set : s.token.cancelled = true ↔ ∃ cs ∈ calls, .cancel ∈ cs := by
    rw [run.cancelled, run.cancel_mem finished]
    exact or_iff_right nofun
  refine ⟨fun never => ?_, fun cancels => ?_, fun _ _ _ _ _ later already => ?_⟩
  · refine List.count_eq_zero.mpr fun ran => never (set.mp ?_)
    exact run.set_of_ran (quiet_start calls) ran
  · have law := run.owed c
    have added := run.left (.add c)
    have settled : s.owed c = 0 := by
      rw [owed, registered, if_pos (set.mpr cancels), finished.total rfl]
    have none : s.left (.add c) = 0 := finished.total rfl
    rw [settled, owed_start] at law
    rw [none, left_start] at added
    change 0 + acts.count (.ran c) + withdrawals c .fresh acts = _ at law
    omega
  · exact later.cancelled.mpr (.inl already)

/-- One party adds a callback three times and removes it twice; the other cancels in between and
adds it once more before it has run the two that are left. -/
theorem callbacks_run_as_registered_race :
    let calls : List (List (Call Nat)) :=
      [[.add 7, .add 7, .add 7, .remove 7, .remove 7], [.cancel], [.add 7]]
    let acts : List (Act Nat) :=
      [.locked (.add 7), .locked (.add 7), .locked (.add 7), .locked (.remove 7), .locked .cancel,
        .ran 7, .locked (.add 7), .locked (.remove 7), .ran 7, .ran 7]
    ∃ s, Run (start calls) acts s ∧ s.Finished ∧ acts.count (.ran 7) = 3 ∧
      withdrawals 7 .fresh acts = 1 ∧
      acts.count (.ran 7) + withdrawals 7 .fresh acts = 4 := by
  intro calls acts
  let done : Party Nat := ⟨[], []⟩
  have run : Run (start calls) acts ⟨⟨true, [7]⟩, [done, done, done]⟩ :=
    .cons (.locked _ [] [_, _] _ _) <| .cons (.locked _ [] [_, _] _ _) <|
    .cons (.locked _ [] [_, _] _ _) <| .cons (.locked _ [] [_, _] _ _) <|
    .cons (.locked _ [_] [_] _ _) <| .cons (.ran _ [_] [_] _ _ _) <|
    .cons (.locked _ [_, _] [] _ _) <| .cons (.locked _ [] [_, _] _ _) <|
    .cons (.ran _ [_] [_] _ _ _) <| .cons (.ran _ [_, _] [] _ _ _) (.nil _)
  have finished : Finished (⟨⟨true, [7]⟩, [done, done, done]⟩ : Shared Nat) := by
    simp [Finished, done]
  exact ⟨_, run, finished, by decide, by decide,
    (callbacks_run_as_registered calls acts _ run finished 7).2.1 ⟨[.cancel], by simp [calls]⟩⟩

end Shared

end Assay.Token
