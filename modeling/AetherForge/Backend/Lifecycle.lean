import AetherForge.Library.Transition
import AetherForge.Backend.Pipeline

/-!
# The lifecycle of generations

One connection's orchestrator as a transition system: the caller of `Generate`, `Cancel` and
`Shutdown` (one goroutine, the connection's reader loop) and the goroutines of all generations
it started, interleaved statement by statement.  A label says whose step is next and what the
surroundings answer; a statement that blocks (a taken mutex, an open `done` channel) is not
enabled.

Generations are numbered in the order of the calls that create them.  The opening of `Generate`
and the whole of `Shutdown` are the same code, `retire` here, with what follows it as argument.
-/

namespace AetherForge

open Go Interaction Transition

/-! ### State -/

/-- Who holds `o.mu`. -/
inductive Holder
  | caller
  | goroutine (i : ℕ)
  deriving DecidableEq

/-- The next statement of a generation's goroutine. -/
inductive GenerationPc
  /-- Allocated, but not started. -/
  | created
  /-- Inside `run`; `ret` when it has returned, and `o.mu.Lock()` is next. -/
  | running (p : Run Unit)
  /-- `if o.cur == g`, holding `o.mu`. -/
  | testing
  /-- `o.cur = nil`, holding `o.mu`. -/
  | clearing
  /-- `o.mu.Unlock()`. -/
  | unlocking
  /-- The deferred `cancel()`. -/
  | cancelling
  /-- The deferred `close(g.done)`. -/
  | closing
  /-- `g.done` is closed. -/
  | exited

/-- A generation, with its request, whether its context is done, and its goroutine. -/
structure Generation where
  id : String
  req : Generate
  cancelled : Bool
  pc : GenerationPc

/-- The next statement of the code that takes the current generation out and waits for it. -/
inductive RetirePc
  /-- `o.mu.Lock()`. -/
  | lock
  /-- `old := o.cur`. -/
  | read
  /-- `o.cur = nil`. -/
  | clear (old : Option ℕ)
  /-- `o.mu.Unlock()`. -/
  | unlock (old : Option ℕ)
  /-- `old.cancel()`. -/
  | cancel (old : ℕ)
  /-- `<-old.done`. -/
  | wait (old : ℕ)

/-- The next statement of the caller. -/
inductive Caller
  | idle
  /-- In `Shutdown`, or in the opening of `Generate` with its request. -/
  | retire (next : Option Generate) (pc : RetirePc)
  /-- `ctx, cancel := context.WithCancel(parent)` and `g := …`. -/
  | create (req : Generate)
  /-- `o.mu.Lock()`. -/
  | installLock (g : ℕ)
  /-- `o.cur = g`. -/
  | install (g : ℕ)
  /-- `o.mu.Unlock()`. -/
  | installUnlock (g : ℕ)
  /-- The `go` statement. -/
  | launch (g : ℕ)
  /-- `o.mu.Lock()` in `Cancel`. -/
  | cancelLock (generationId : String)
  /-- The test of `Cancel`. -/
  | cancelTest (generationId : String)
  /-- `o.cur.cancel()`. -/
  | cancelFire (g : ℕ)
  /-- The deferred `o.mu.Unlock()`, with the generation that was cancelled. -/
  | cancelUnlock (matched : Option ℕ)

/-- The state of an orchestrator: the store and the parent context it was given, its own
fields, all generations ever created, and its caller. -/
structure System where
  store : Manifest
  parentDone : Bool
  mu : Option Holder
  cur : Option ℕ
  gens : List Generation
  caller : Caller

/-- A new orchestrator on a store. -/
def System.start (store : Manifest) : System := ⟨store, false, none, none, [], .idle⟩

namespace System

/-- Change one generation. -/
def update (s : System) (i : ℕ) (f : Generation → Generation) : System :=
  { s with gens := s.gens.modify i f }

/-- Move one goroutine. -/
def setPc (s : System) (i : ℕ) (pc : GenerationPc) : System :=
  s.update i fun g => { g with pc := pc }

/-- Cancel one generation's context. -/
def cancelContext (s : System) (i : ℕ) : System :=
  s.update i fun g => { g with cancelled := true }

/-- Whether `g.done` is closed. -/
def isDone (s : System) (i : ℕ) : Bool :=
  match s.gens[i]? with
  | some ⟨_, _, _, .exited⟩ => true
  | _ => false

end System

/-! ### Labels and outputs -/

/-- What the surroundings answer to the effects that the state does not decide. -/
structure Answers where
  now : ℤ
  outcome : Outcome
  random : UInt64
  sendOk : Bool

inductive Call
  | generate (req : Generate)
  | cancel (generationId : String)
  | shutdown

/-- Whose step it is: the caller enters a method, the caller goes on, a goroutine goes on, or
the parent context ends. -/
inductive Label
  | call (c : Call)
  | caller
  | goroutine (i : ℕ) (ans : Answers)
  | parentCancel

/-- What a step shows: an effect of a generation's `run`, or the return of a method. -/
inductive Action
  | effect (g : ℕ) (ev : Event Eff Resp)
  /-- `Generate` returned, having launched `g`. -/
  | launched (g : ℕ)
  /-- `Cancel` returned, having cancelled a generation or none. -/
  | cancelReturned (matched : Option ℕ)
  /-- `Shutdown` returned, when so many generations had been created. -/
  | shutdownReturned (created : ℕ)

/-! ### Steps -/

/-- The answer to an effect of a generation: the store and the context answer for themselves. -/
def System.answer (s : System) (g : Generation) (ans : Answers) : (e : Eff) → Resp e
  | .now => ans.now
  | .storeReady => decide (0 < s.store.len)
  | .storeSnapshot => s.store.copy
  | .llmInvoke _ => ()
  | .llmReturn => ans.outcome
  | .randUint64 => ans.random
  | .ctxErr => g.cancelled
  | .ctxDone => g.cancelled
  | .send _ => ans.sendOk

/-- A step of a generation's goroutine. -/
def stepGoroutine (s : System) (i : ℕ) (g : Generation) (ans : Answers) :
    Option (System × List Action) :=
  match g.pc with
  | .created => none
  | .running (.call e k) =>
    let r := s.answer g ans e
    some (s.setPc i (.running (k r)), [.effect i ⟨e, r⟩])
  | .running (.ret _) =>
    match s.mu with
    | some _ => none
    | none => some ({ s.setPc i .testing with mu := some (.goroutine i) }, [])
  | .testing => some (s.setPc i (if s.cur = some i then .clearing else .unlocking), [])
  | .clearing => some ({ s.setPc i .unlocking with cur := none }, [])
  | .unlocking => some ({ s.setPc i .cancelling with mu := none }, [])
  | .cancelling => some ((s.cancelContext i).setPc i .closing, [])
  | .closing => some (s.setPc i .exited, [])
  | .exited => none

/-- What follows the retirement of the current generation. -/
def retired (s : System) : Option Generate → System × List Action
  | some req => ({ s with caller := .create req }, [])
  | none => ({ s with caller := .idle }, [.shutdownReturned s.gens.length])

/-- A step of the caller inside `retire`. -/
def stepRetire (s : System) (next : Option Generate) : RetirePc → Option (System × List Action)
  | .lock =>
    match s.mu with
    | some _ => none
    | none => some ({ s with mu := some .caller, caller := .retire next .read }, [])
  | .read => some ({ s with caller := .retire next (.clear s.cur) }, [])
  | .clear old => some ({ s with cur := none, caller := .retire next (.unlock old) }, [])
  | .unlock none => some (retired { s with mu := none } next)
  | .unlock (some old) => some ({ s with mu := none, caller := .retire next (.cancel old) }, [])
  | .cancel old => some ({ s.cancelContext old with caller := .retire next (.wait old) }, [])
  | .wait old => if s.isDone old then some (retired s next) else none

/-- Whether `Cancel` matches the generation in flight. -/
def matches? (s : System) (generationId : String) : Option ℕ :=
  match s.cur with
  | none => none
  | some g =>
    match s.gens[g]? with
    | none => none
    | some gen => if generationId = "" ∨ gen.id = generationId then some g else none

/-- A step of the caller. -/
def stepCaller (o : Orchestrator) (s : System) : Option (System × List Action) :=
  match s.caller with
  | .idle => none
  | .retire next pc => stepRetire s next pc
  | .create req =>
    some ({ s with
      gens := s.gens ++ [⟨req.generationId, req, s.parentDone, .created⟩]
      caller := .installLock s.gens.length }, [])
  | .installLock g =>
    match s.mu with
    | some _ => none
    | none => some ({ s with mu := some .caller, caller := .install g }, [])
  | .install g => some ({ s with cur := some g, caller := .installUnlock g }, [])
  | .installUnlock g => some ({ s with mu := none, caller := .launch g }, [])
  | .launch g =>
    some ({ s.update g fun gen => { gen with pc := .running (run o gen.req) } with
      caller := .idle }, [.launched g])
  | .cancelLock generationId =>
    match s.mu with
    | some _ => none
    | none => some ({ s with mu := some .caller, caller := .cancelTest generationId }, [])
  | .cancelTest generationId =>
    some ({ s with caller :=
      match matches? s generationId with
      | some g => .cancelFire g
      | none => .cancelUnlock none }, [])
  | .cancelFire g => some ({ s.cancelContext g with caller := .cancelUnlock (some g) }, [])
  | .cancelUnlock matched =>
    some ({ s with mu := none, caller := .idle }, [.cancelReturned matched])

/-- The first statement of a method. -/
def Call.entry : Call → Caller
  | .generate req => .retire (some req) .lock
  | .cancel generationId => .cancelLock generationId
  | .shutdown => .retire none .lock

/-- One step of the system. -/
def step (o : Orchestrator) : Step System Label Action := fun s a =>
  match a with
  | .call c =>
    match s.caller with
    | .idle => some ({ s with caller := c.entry }, [])
    | _ => none
  | .caller => stepCaller o s
  | .goroutine i ans =>
    match s.gens[i]? with
    | none => none
    | some g => stepGoroutine s i g ans
  | .parentCancel =>
    some ({ s with
      parentDone := true
      gens := s.gens.map fun g => { g with cancelled := true } }, [])

end AetherForge
