import Assay.Session
import Assay.Proofs.Faults

/-! Sessions over any history of requests, completions and cancellations. The state and the token
of a session always belong to the one request that it has accepted and not completed, if there is
one; a cancellation marks that request's token and no other. Dialogues take their sessions through
such histories. -/
namespace Assay.Session

structure Free (s : Session) : Prop where
  state : s.state = .idle
  token : s.token = none
  jobs : s.jobs = []

structure Serves (s : Session) (job : Job) : Prop where
  state : s.state = .pending
  token : s.token = some job.token
  jobs : s.jobs = [job]
  given : job.token < s.tokens.length

def Marked (s : Session) (n : Nat) : Prop := ∃ t, s.tokens[n]? = some t ∧ t.cancelled = true

def Reply.token? : Reply → Option Nat
  | .accepted n => some n
  | _ => none

def Reply.isEnded : Reply → Bool
  | .ended _ => true
  | _ => false

/-- What an event does to a session. -/
inductive Turn (s : Session) : Event → Session → Reply → Prop where
  | accepts (r : Request) : s.Free →
      Turn s (.request r)
        ⟨s.config, .pending, some s.tokens.length, s.tokens ++ [.fresh], [⟨s.tokens.length, r⟩]⟩
        (.accepted s.tokens.length)
  | refuses (r : Request) (job : Job) : s.Serves job → Turn s (.request r) s (.refused .busy)
  | completes (job : Job) (result : Except Error Report) : s.Serves job →
      Turn s (.complete job.token result) ⟨s.config, .idle, none, s.tokens, []⟩ (.ended result)
  | ignores (n : Nat) (result : Except Error Report) : (∀ job ∈ s.jobs, job.token ≠ n) →
      Turn s (.complete n result) s .nothing
  | cancels (job : Job) : s.Serves job →
      Turn s .cancel
        { s with tokens := s.tokens.modify job.token fun t => (t.step .cancel).1 } (.cancelled true)
  | rests : s.Free → Turn s .cancel s (.cancelled false)

def Orderly (s : Session) : Prop := s.Free ∨ ∃ job, s.Serves job

theorem orderly_idle (config : Config) : (idle config).Orderly := .inl ⟨rfl, rfl, rfl⟩

section

variable {s : Session} {job : Job}

theorem Free.step_request (free : s.Free) (r : Request) :
    s.step (.request r) =
      (⟨s.config, .pending, some s.tokens.length, s.tokens ++ [.fresh], [⟨s.tokens.length, r⟩]⟩,
        .accepted s.tokens.length) := by
  simp [step, accept, free.state, free.jobs]

theorem Serves.step_request (serves : s.Serves job) (r : Request) :
    s.step (.request r) = (s, .refused .busy) := by
  simp [step, accept, serves.state]

theorem Serves.step_complete (serves : s.Serves job) (result : Except Error Report) :
    s.step (.complete job.token result) =
      (⟨s.config, .idle, none, s.tokens, []⟩, .ended result) := by
  simp [step, finish, serves.jobs]

theorem step_complete_absent {n : Nat} (absent : ∀ job ∈ s.jobs, job.token ≠ n)
    (result : Except Error Report) : s.step (.complete n result) = (s, .nothing) := by
  have none : s.jobs.find? (fun j => j.token == n) = none := by
    simpa [List.find?_eq_none] using absent
  simp [step, none]

theorem Free.cancel_eq (free : s.Free) : s.cancel = (s, false) := by
  simp [cancel, free.token]

theorem Serves.cancel_eq (serves : s.Serves job) :
    s.cancel =
      ({ s with tokens := s.tokens.modify job.token fun t => (t.step .cancel).1 }, true) := by
  simp [cancel, serves.token]

end

theorem Orderly.turn {s : Session} (orderly : s.Orderly) (e : Event) :
    s.Turn e (s.step e).1 (s.step e).2 := by
  rcases orderly with free | ⟨job, serves⟩
  · cases e with
    | request r =>
      rw [free.step_request]
      exact .accepts r free
    | complete n result =>
      have absent : ∀ job ∈ s.jobs, job.token ≠ n := by simp [free.jobs]
      rw [step_complete_absent absent]
      exact .ignores n result absent
    | cancel =>
      rw [step, free.cancel_eq]
      exact .rests free
  · cases e with
    | request r =>
      rw [serves.step_request]
      exact .refuses r job serves
    | complete n result =>
      by_cases same : job.token = n
      · subst same
        rw [serves.step_complete]
        exact .completes job result serves
      · have absent : ∀ job ∈ s.jobs, job.token ≠ n := by simpa [serves.jobs] using same
        rw [step_complete_absent absent]
        exact .ignores n result absent
    | cancel =>
      rw [step, serves.cancel_eq]
      exact .cancels job serves

namespace Turn

variable {s s' : Session} {e : Event} {reply : Reply}

theorem orderly (turn : s.Turn e s' reply) (orderly : s.Orderly) : s'.Orderly := by
  cases turn with
  | accepts r free => exact .inr ⟨⟨s.tokens.length, r⟩, rfl, rfl, rfl, by simp⟩
  | refuses | ignores | rests => exact orderly
  | completes job result serves => exact .inl ⟨rfl, rfl, rfl⟩
  | cancels job serves =>
    exact .inr ⟨job, serves.state, serves.token, serves.jobs, by simpa using serves.given⟩

/-- A cancellation marks the token of the request under way, and nothing else marks a token. -/
theorem marked (turn : s.Turn e s' reply) (n : Nat) :
    s'.Marked n ↔ s.Marked n ∨ e = .cancel ∧ s.token = some n := by
  cases turn with
  | accepts r free =>
    simp only [Marked, reduceCtorEq, false_and, or_false]
    rcases Nat.lt_trichotomy n s.tokens.length with old | rfl | absent
    · rw [List.getElem?_append_left old]
    · simp [Token.fresh]
    · have beyond : (s.tokens ++ [Token.fresh]).length ≤ n := by
        rw [List.length_append]
        exact absent
      simp only [List.getElem?_eq_none beyond, List.getElem?_eq_none (Nat.le_of_lt absent)]
  | refuses | completes | ignores => simp [Marked]
  | cancels job serves =>
    simp only [Marked, List.getElem?_modify, serves.token, Option.some.injEq, true_and]
    by_cases same : job.token = n
    · subst same
      simp [serves.given]
    · simp [same]
  | rests free => simp [Marked, free.token]

theorem counted (turn : s.Turn e s' reply) :
    List.range s.tokens.length ++ reply.token?.toList = List.range s'.tokens.length ∧
      s'.jobs.length + [reply].countP Reply.isEnded =
        s.jobs.length + reply.token?.toList.length := by
  cases turn with
  | accepts r free => simp [Reply.token?, Reply.isEnded, List.range_succ, free.jobs]
  | refuses | ignores | rests => simp [Reply.token?, Reply.isEnded]
  | completes job result serves => simp [Reply.token?, Reply.isEnded, serves.jobs]
  | cancels job serves => simp [Reply.token?, Reply.isEnded]

end Turn

@[simp] theorem run_nil (s : Session) : s.run [] = (s, []) := rfl

@[simp] theorem run_cons (s : Session) (e : Event) (events : List Event) :
    s.run (e :: events) =
      (((s.step e).1.run events).1, (s.step e).2 :: ((s.step e).1.run events).2) := rfl

section

variable {s : Session} (orderly : s.Orderly) (events : List Event)

include orderly

theorem Orderly.run : (s.run events).1.Orderly := by
  induction events generalizing s with
  | nil => exact orderly
  | cons e events ih => exact ih ((orderly.turn e).orderly orderly)

theorem Orderly.run_counted :
    List.range s.tokens.length ++ (s.run events).2.filterMap Reply.token? =
        List.range (s.run events).1.tokens.length ∧
      (s.run events).1.jobs.length + (s.run events).2.countP Reply.isEnded =
        s.jobs.length + ((s.run events).2.filterMap Reply.token?).length := by
  induction events generalizing s with
  | nil => simp
  | cons e events ih =>
    obtain ⟨tokens, jobs⟩ := (orderly.turn e).counted
    obtain ⟨later, left⟩ := ih ((orderly.turn e).orderly orderly)
    have split : ((s.run (e :: events)).2.filterMap Reply.token?) =
        (s.step e).2.token?.toList ++ ((s.step e).1.run events).2.filterMap Reply.token? := by
      cases found : (s.step e).2.token? <;> simp [found]
    constructor
    · rw [split, ← List.append_assoc, tokens]
      exact later
    · rw [split, List.length_append]
      simp only [run_cons, List.countP_cons, List.countP_nil] at jobs ⊢
      omega

theorem Orderly.run_marked (n : Nat) :
    (s.run events).1.Marked n ↔
      s.Marked n ∨ ∃ before after, events = before ++ .cancel :: after ∧
        (s.run before).1.token = some n := by
  induction events generalizing s with
  | nil => simp
  | cons e events ih =>
    rw [run_cons, ih ((orderly.turn e).orderly orderly), (orderly.turn e).marked n, or_assoc]
    refine or_congr Iff.rfl ?_
    constructor
    · rintro (⟨rfl, token⟩ | ⟨before, after, rfl, token⟩)
      · exact ⟨[], events, rfl, token⟩
      · exact ⟨e :: before, after, rfl, token⟩
    · rintro ⟨before, after, same, token⟩
      cases before with
      | nil =>
        obtain ⟨rfl, -⟩ := List.cons.inj same
        exact .inl ⟨rfl, token⟩
      | cons first before =>
        obtain ⟨rfl, rfl⟩ := List.cons.inj same
        exact .inr ⟨before, after, rfl, token⟩

end

theorem Orderly.free_of_idle {s : Session} (orderly : s.Orderly) (state : s.state = .idle) :
    s.Free := by
  rcases orderly with free | ⟨job, serves⟩
  · exact free
  · exact nomatch serves.state.symm.trans state

theorem Orderly.serves_of_pending {s : Session} (orderly : s.Orderly)
    (state : s.state = .pending) : ∃ job, s.Serves job := by
  rcases orderly with free | busy
  · exact nomatch free.state.symm.trans state
  · exact busy

theorem Orderly.cancel_spec {s : Session} (orderly : s.Orderly) :
    (s.cancel.2 = true ↔ s.state = .pending) ∧
      s.cancel.1 = { s with tokens := s.cancel.1.tokens } := by
  rcases orderly with free | ⟨job, serves⟩
  · rw [free.cancel_eq]
    exact ⟨iff_of_false nofun (fun busy => nomatch free.state.symm.trans busy), rfl⟩
  · rw [serves.cancel_eq]
    exact ⟨iff_of_true rfl serves.state, rfl⟩

/-- Over any history, a session is pending with the token of the one request that it has accepted
and that has not completed, and idle without a token if there is none. It accepts a request if and
only if it is idle, each with a token of its own, and a rejected request changes nothing. A
cancellation reports whether a request is under way; it changes nothing but the token of that
request, and the tokens that were ever cancelled are those that a cancellation met. -/
theorem one_request_at_a_time (config : Config) (events : List Event) :
    let s := ((idle config).run events).1
    let replies := ((idle config).run events).2
    replies.filterMap Reply.token? = List.range s.tokens.length ∧
    (replies.countP Reply.isEnded = s.tokens.length ∧ s.Free ∨
      ∃ job, replies.countP Reply.isEnded + 1 = s.tokens.length ∧ s.Serves job) ∧
    (∀ r, s.state = .idle → (s.step (.request r)).1.Serves ⟨s.tokens.length, r⟩ ∧
      (s.step (.request r)).2 = .accepted s.tokens.length) ∧
    (∀ r, s.state = .pending → s.step (.request r) = (s, .refused .busy)) ∧
    (∀ job result, s.Serves job → (s.step (.complete job.token result)).1.Free ∧
      (s.step (.complete job.token result)).2 = .ended result) ∧
    (s.cancel.2 = true ↔ s.state = .pending) ∧
    s.cancel.1 = { s with tokens := s.cancel.1.tokens } ∧
    (∀ n, s.cancel.1.Marked n ↔ s.Marked n ∨ s.token = some n) ∧
    ∀ n, s.Marked n ↔ ∃ before after, events = before ++ .cancel :: after ∧
      ((idle config).run before).1.token = some n := by
  intro s replies
  have orderly : s.Orderly := (orderly_idle config).run events
  obtain ⟨tokens, jobs⟩ := (orderly_idle config).run_counted events
  have accepted : replies.filterMap Reply.token? = List.range s.tokens.length := tokens
  have ended : s.jobs.length + replies.countP Reply.isEnded = s.tokens.length := by
    change s.jobs.length + replies.countP Reply.isEnded =
      0 + (replies.filterMap Reply.token?).length at jobs
    rw [accepted, List.length_range, Nat.zero_add] at jobs
    exact jobs
  refine ⟨accepted, ?_, ?_, ?_, ?_, orderly.cancel_spec.1, orderly.cancel_spec.2, ?_, ?_⟩
  · rcases orderly with free | ⟨job, serves⟩
    · simp only [free.jobs, List.length_nil, Nat.zero_add] at ended
      exact .inl ⟨ended, free⟩
    · simp only [serves.jobs, List.length_singleton] at ended
      exact .inr ⟨job, by omega, serves⟩
  · intro r state
    rw [(orderly.free_of_idle state).step_request]
    exact ⟨⟨rfl, rfl, rfl, by simp⟩, rfl⟩
  · intro r state
    obtain ⟨job, serves⟩ := orderly.serves_of_pending state
    exact serves.step_request r
  · intro job result serves
    rw [serves.step_complete]
    exact ⟨⟨rfl, rfl, rfl⟩, rfl⟩
  · intro n
    have marked := (orderly.turn .cancel).marked n
    simpa [step] using marked
  · intro n
    have marked := (orderly_idle config).run_marked events n
    rwa [or_iff_right (by simp [Marked, idle])] at marked

theorem run_append (s : Session) (xs ys : List Event) :
    (s.run (xs ++ ys)).1 = ((s.run xs).1.run ys).1 := by
  induction xs generalizing s with
  | nil => rfl
  | cons e xs ih => exact ih (s.step e).1

theorem Orderly.accept_ok {s s' : Session} {r : Request} {job : Job} (orderly : s.Orderly)
    (accepted : s.accept r = .ok (s', job)) :
    s.Free ∧ s'.Serves job ∧ (s.run [.request r]).1 = s' := by
  rcases orderly with free | ⟨_, serves⟩
  · simp only [accept, free.state, free.jobs, Except.ok.injEq, Prod.mk.injEq] at accepted
    obtain ⟨rfl, rfl⟩ := accepted
    refine ⟨free, ⟨rfl, rfl, rfl, by simp⟩, ?_⟩
    rw [run_cons, free.step_request]
    rfl
  · simp [accept, serves.state] at accepted

theorem Serves.finish_spec {s : Session} {job : Job} (serves : s.Serves job)
    (result : Except Error Report) :
    (s.finish job).Free ∧ s.finish job = (s.run [.complete job.token result]).1 := by
  have done : s.finish job = ⟨s.config, .idle, none, s.tokens, []⟩ := by
    simp [finish, serves.jobs]
  rw [run_cons, serves.step_complete, done]
  exact ⟨⟨rfl, rfl, rfl⟩, rfl⟩

theorem Orderly.serve_ends {s : Session} (orderly : s.Orderly) (solver : Solver) (r : Request) :
    Ends (fun _ => True) (fun x => s.Free ∧ x.1.Free ∧ ∃ events, x.1 = (s.run events).1)
      (s.serve solver r) := by
  unfold serve
  refine ends_bind (ends_ofExcept (fun _ _ => trivial) fun _ => orderly.accept_ok) ?_
  rintro ⟨begun, job⟩ ⟨free, serves, same⟩
  refine ends_bind (failsOnly_any _) fun result _ => ends_pure ?_
  obtain ⟨freed, run⟩ := serves.finish_spec result
  refine ⟨free, freed, [.request r] ++ [.complete job.token result], ?_⟩
  rw [run_append, same, run]

end Assay.Session

namespace Assay.Dialogue

/-- The session is busy with the job that waits, and free where none does. -/
def Tied (d : Dialogue) : Prop :=
  match d.waiting with
  | none => d.session.Free
  | some w => d.session.Serves w.job

theorem Tied.orderly {d : Dialogue} (tied : d.Tied) : d.session.Orderly := by
  unfold Tied at tied
  split at tied
  · exact .inl tied
  · exact .inr ⟨_, tied⟩

inductive Move where
  | start (r : Request)
  | serve (solver : Solver) (r : Request)
  | answer (a : Except Error Answer)
  | cancel
  | fetch

def move (d : Dialogue) : Move → Traced Dialogue
  | .start r => do return (← d.start r).1
  | .serve solver r => do return (← d.serve solver r).1
  | .answer a => d.answer a
  | .cancel => do return (← d.cancel).1
  | .fetch => return d.fetch.1

/-- One move after the other. A move that ends in an error changes nothing. -/
def play (d : Dialogue) : List Move → Traced Dialogue
  | [] => return d
  | m :: moves => do
    match ← Traced.capture (d.move m) with
    | .ok d' => d'.play moves
    | .error _ => d.play moves

def Follows (d d' : Dialogue) : Prop :=
  d'.Tied ∧ ∃ events, d'.session = (d.session.run events).1

theorem Follows.refl {d : Dialogue} (tied : d.Tied) : d.Follows d := ⟨tied, [], rfl⟩

theorem Follows.trans {d d' d'' : Dialogue} (first : d.Follows d') (second : d'.Follows d'') :
    d.Follows d'' := by
  obtain ⟨-, xs, early⟩ := first
  obtain ⟨tied, ys, late⟩ := second
  exact ⟨tied, xs ++ ys, by rw [late, early, Session.run_append]⟩

section

variable {d : Dialogue} (tied : d.Tied)

include tied

theorem start_follows (r : Request) :
    Ends (fun _ => True) (fun x => d.Follows x.1) (d.start r) := by
  unfold start
  refine ends_bind (ends_ofExcept (fun _ _ => trivial) fun _ => tied.orderly.accept_ok) ?_
  rintro ⟨begun, job⟩ ⟨-, serves, same⟩
  refine ends_bind (failsOnly_any _) fun prepared _ => ?_
  have completed : ∀ result : Except Error Report, d.Follows ⟨begun.finish job, none⟩ := by
    intro result
    obtain ⟨freed, run⟩ := serves.finish_spec result
    refine ⟨freed, [.request r] ++ [.complete job.token result], ?_⟩
    rw [Session.run_append, same, run]
  split
  · rename_i e
    exact ends_pure (completed (.error e))
  · rename_i report
    exact ends_pure (completed (.ok report))
  · exact ends_bind (failsOnly_modify _) fun _ _ => ends_pure ⟨serves, [.request r], same.symm⟩

theorem serve_follows (solver : Solver) (r : Request) :
    Ends (fun _ => True) (fun x => d.Follows x.1) (d.serve solver r) := by
  refine ends_bind (tied.orderly.serve_ends solver r) ?_
  rintro ⟨session, result⟩ ⟨free, freed, events, run⟩
  refine ends_pure ⟨?_, events, run⟩
  cases waiting : d.waiting with
  | none => exact freed
  | some w =>
    rw [Tied, waiting] at tied
    exact nomatch free.state.symm.trans tied.state

theorem Tied.waits {w w' : Waiting} (waiting : d.waiting = some w) (same : w'.job = w.job) :
    Tied { d with waiting := some w' } := by
  rw [Tied, waiting] at tied
  change d.session.Serves w'.job
  rwa [same]

theorem answer_follows (a : Except Error Answer) : Ends (fun _ => True) d.Follows (d.answer a) := by
  unfold answer
  split
  · exact ends_pure (.refl tied)
  · rename_i w waiting
    refine ends_bind (Q := fun w' => w'.job = w.job) ?_ fun w' same =>
      ends_pure ⟨tied.waits waiting same, [], rfl⟩
    unfold Waiting.answer
    split
    · exact ends_pure rfl
    · exact ends_bind (failsOnly_any _) fun _ _ => ends_pure rfl

theorem cancelled_follows : d.Follows { d with session := d.session.cancel.1 } := by
  refine ⟨?_, [.cancel], rfl⟩
  unfold Tied at tied ⊢
  split at tied
  · rename_i waiting
    rwa [waiting, tied.cancel_eq]
  · rename_i w waiting
    rw [waiting, tied.cancel_eq]
    exact ⟨tied.state, tied.token, tied.jobs, by simpa using tied.given⟩

theorem cancel_follows : Ends (fun _ => True) (fun x => d.Follows x.1) d.cancel := by
  have follows := cancelled_follows tied
  unfold cancel
  rcases result : d.session.cancel with ⟨session, done⟩
  rw [result] at follows
  cases done with
  | false => exact ends_pure follows
  | true =>
    refine ends_bind (failsOnly_modify _) fun _ _ => ?_
    exact ends_bind (answer_follows follows.1 _) fun d' later => ends_pure (follows.trans later)

theorem fetch_follows : d.Follows d.fetch.1 := by
  unfold fetch
  split
  · rename_i job q result waiting
    rw [Tied, waiting] at tied
    obtain ⟨freed, run⟩ := Session.Serves.finish_spec tied result
    exact ⟨freed, _, run⟩
  · exact .refl tied

theorem move_follows (m : Move) : Ends (fun _ => True) d.Follows (d.move m) := by
  cases m with
  | start r => exact ends_bind (start_follows tied r) fun _ => ends_pure
  | serve solver r => exact ends_bind (serve_follows tied solver r) fun _ => ends_pure
  | answer a => exact answer_follows tied a
  | cancel => exact ends_bind (cancel_follows tied) fun _ => ends_pure
  | fetch => exact ends_pure (fetch_follows tied)

theorem play_follows (moves : List Move) : Ends (fun _ => False) d.Follows (d.play moves) := by
  induction moves generalizing d with
  | nil => exact ends_pure (.refl tied)
  | cons m moves ih =>
    refine ends_bind (ends_capture (move_follows tied m)) fun result done => ?_
    cases result with
    | error e => exact ih tied
    | ok d' =>
      have follows := done d' rfl
      exact ends_mono (ih follows.1) (fun _ => id) fun _ => follows.trans

end

/-- Whatever is done to a new dialogue, its session is one that a history leads to. -/
theorem session_of_history (config : Config) (moves : List Move) :
    Ends (fun _ => False) (fun d => ∃ events, d.session = ((Session.idle config).run events).1)
      ((idle config).play moves) := by
  have tied : (idle config).Tied := ⟨rfl, rfl, rfl⟩
  exact ends_mono (play_follows tied moves) (fun _ => id) fun _ => And.right

end Assay.Dialogue
