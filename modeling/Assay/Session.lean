import Assay.Report
import Assay.Cancellation

/-! One analysis at a time. An idle session takes a request on, with a token of its own, and is
pending until the request has completed, whatever its result; requests that come in between are
rejected. A cancellation marks the token of the request that is under way. -/
namespace Assay

inductive SessionState where
  | idle | pending
  deriving DecidableEq, Repr

structure Job where
  token : Nat
  request : Request

/-- The state and the token are all that a session goes by. Tokens are numbered as they are given
out and outlive their requests; the jobs are the requests that have not completed. -/
structure Session where
  config : Config
  state : SessionState
  token : Option Nat
  tokens : List (Token Unit)
  jobs : List Job

namespace Session

def idle (config : Config) : Session := ⟨config, .idle, none, [], []⟩

def accept (s : Session) (r : Request) : Except Error (Session × Job) :=
  match s.state with
  | .pending => .error .busy
  | .idle =>
    let job : Job := ⟨s.tokens.length, r⟩
    .ok ({ s with
      state := .pending
      token := some job.token
      tokens := s.tokens ++ [.fresh]
      jobs := s.jobs ++ [job] }, job)

def finish (s : Session) (job : Job) : Session :=
  { s with state := .idle, token := none, jobs := s.jobs.eraseP fun j => j.token == job.token }

def cancel (s : Session) : Session × Bool :=
  match s.token with
  | none => (s, false)
  | some n => ({ s with tokens := s.tokens.modify n fun t => (t.step .cancel).1 }, true)

/-! Histories: what may happen to a session, in any order. -/

inductive Event where
  | request (r : Request)
  | complete (token : Nat) (result : Except Error Report)
  | cancel

inductive Reply where
  | accepted (token : Nat)
  | refused (e : Error)
  | ended (result : Except Error Report)
  | cancelled (done : Bool)
  | nothing

/-- Only a job can complete. -/
def step (s : Session) : Event → Session × Reply
  | .request r =>
    match s.accept r with
    | .error e => (s, .refused e)
    | .ok (s, job) => (s, .accepted job.token)
  | .complete token result =>
    match s.jobs.find? fun j => j.token == token with
    | none => (s, .nothing)
    | some job => (s.finish job, .ended result)
  | .cancel =>
    let (s, done) := s.cancel
    (s, .cancelled done)

def run (s : Session) : List Event → Session × List Reply
  | [] => (s, [])
  | e :: events =>
    let (s, reply) := s.step e
    let (s, replies) := s.run events
    (s, reply :: replies)

def serve (s : Session) (solver : Solver) (r : Request) :
    Traced (Session × Except Error Report) := do
  let (begun, job) ← Traced.ofExcept (s.accept r)
  let result ← Traced.capture (r.run solver s.config false)
  return (begun.finish job, result)

end Session

/-- A job that waits at its question. The first of an answer and a cancellation gives the result,
which stays until it is fetched. -/
structure Waiting where
  job : Job
  question : Question
  result : Option (Except Error Report)

def Waiting.answer (w : Waiting) (a : Except Error Answer) : Traced Waiting := do
  match w.result with
  | some _ => return w
  | none => return { w with result := some (← Traced.capture (w.question.conclude a)) }

structure Dialogue where
  session : Session
  waiting : Option Waiting

namespace Dialogue

def idle (config : Config) : Dialogue := ⟨.idle config, none⟩

/-- A request that waits at its question; its result, if it completes before that. -/
def start (d : Dialogue) (r : Request) : Traced (Dialogue × Option (Except Error Report)) := do
  let (begun, job) ← Traced.ofExcept (d.session.accept r)
  match ← Traced.capture (prepare d.session.config r) with
  | .error e => return (⟨begun.finish job, none⟩, some (.error e))
  | .ok (.settled report) => return (⟨begun.finish job, none⟩, some (.ok report))
  | .ok (.asked q) =>
    Traced.countQuestion
    return (⟨begun, some ⟨job, q, none⟩⟩, none)

def serve (d : Dialogue) (solver : Solver) (r : Request) :
    Traced (Dialogue × Except Error Report) := do
  let (session, result) ← d.session.serve solver r
  return ({ d with session := session }, result)

def answer (d : Dialogue) (a : Except Error Answer) : Traced Dialogue := do
  match d.waiting with
  | none => return d
  | some w => return { d with waiting := some (← w.answer a) }

def cancel (d : Dialogue) : Traced (Dialogue × Bool) := do
  match d.session.cancel with
  | (session, false) => return ({ d with session := session }, false)
  | (session, true) =>
    Traced.report .info .session "cancelling pending analysis"
    return (← answer { d with session := session } (.ok .cancelled), true)

def fetch (d : Dialogue) : Dialogue × Option (Except Error Report) :=
  match d.waiting with
  | some ⟨job, _, some result⟩ => (⟨d.session.finish job, none⟩, some result)
  | _ => (d, none)

end Dialogue

end Assay
