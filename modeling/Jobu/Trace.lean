import Jobu.Commits

/-!
# Running transactions

A transaction is a function, so a list of commands can be run on the empty database, and what comes
out is stored; a list of steps can be taken from the first state in the same way.  Concrete histories
are given like this.

  > `Stored.of_trace`: the result of a list of commands is a stored database.
  > `Reachable.of_events`: the result of a list of steps is a reachable state.

The smallest collaborators that satisfy their contracts are at the end, for such histories.
-/

namespace Jobu

open Lib Scheduler

variable {db db' : Database} {d : Deployment} {s s' : System}

theorem eq_some_getD {α : Type} {o : Option α} {default : α} (h : o.isSome = true) : o = some (o.getD default) := by
  obtain ⟨_, rfl⟩ := Option.isSome_iff_exists.1 h
  rfl

/-- A transaction to run. -/
inductive Command where
  | manage (amb : Ambient) (op : Operation)
  | dispatch (amb : Ambient) (runId : Uuid)
  | complete (amb : Ambient) (completion : AttemptCompletion)
  | cancel (amb : Ambient) (runId : Uuid) (expected : RunState)
  | recover (inputs : Recovery.Inputs)

/-- The database after a procedure that returns. -/
def committed {α : Type} (x : Txn α) (db : Database) : Option Database :=
  match x db with
  | .ok _ db' => some db'
  | .error _ _ => none

theorem committed_eq_some {α : Type} {x : Txn α} : committed x db = some db' ↔ ∃ a, Yields x db a db' := by
  unfold committed Yields
  cases x db with
  | ok a =>
    constructor
    · intro h
      cases h
      exact ⟨a, rfl⟩
    · rintro ⟨b, h⟩
      cases h
      rfl
  | error =>
    constructor
    · intro h
      cases h
    · rintro ⟨_, h⟩
      cases h

/-- A dispatch commits only if it claims the run. -/
def committedClaim (x : Txn (Option Claim)) (db : Database) : Option Database :=
  match x db with
  | .ok (some _) db' => some db'
  | .ok none _ | .error _ _ => none

theorem yields_of_committedClaim {x : Txn (Option Claim)}
    (h : committedClaim x db = some db') : ∃ claim, Yields x db (some claim) db' := by
  unfold committedClaim at h
  unfold Yields
  split at h
  case h_1 claim db1 hx =>
    cases h
    exact ⟨claim, hx⟩
  all_goals cases h

/-- What a command commits. -/
def Command.apply (d : Deployment) : Command → Database → Option Database
  | .manage amb op => committed (op.run d amb)
  | .dispatch amb runId => committedClaim (claimSelected d.env amb (fun _ _ => .ready) runId)
  | .complete amb completion => committed (completeDurably d.env amb completion)
  | .cancel amb runId expected => committed (cancelPending d.env amb runId expected)
  | .recover inputs => fun db => some (after (Recovery.recoverStartup d.env inputs) { db }).db

variable {command : Command}

/-- A command is one management operation, or transactions of the daemon itself. -/
theorem Command.effect (h : command.apply d db = some db') :
    (∃ amb op, command = .manage amb op ∧ Yields (op.run d amb) db () db') ∨
      Relation.ReflTransGen (Background d) db db' := by
  cases command with
  | manage amb op =>
    obtain ⟨_, hy⟩ := committed_eq_some.1 h
    exact .inl ⟨amb, op, rfl, hy⟩
  | dispatch amb runId =>
    obtain ⟨claim, hy⟩ := yields_of_committedClaim h
    exact .inr (.single (.dispatch amb _ runId claim db' hy))
  | complete amb completion =>
    obtain ⟨effect, hy⟩ := committed_eq_some.1 h
    exact .inr (.single (.complete amb completion effect db' hy))
  | cancel amb runId expected =>
    obtain ⟨_, hy⟩ := committed_eq_some.1 h
    exact .inr (.single (.cancel amb runId expected db' hy))
  | recover inputs =>
    cases h
    exact .inr (background_of_repairs (Recovery.recoverStartup_repairs d.env inputs db))

theorem Command.commits (h : command.apply d db = some db') : Commits d db db' := by
  rcases Command.effect h with ⟨amb, op, -, hy⟩ | hb
  · exact .single (.manage amb op db' hy)
  · exact Relation.ReflTransGen.mono (fun _ db' => .background db') _ _ hb

/-- Runs the commands one after another. -/
def runTrace (d : Deployment) (db : Database) : List Command → Option Database
  | [] => some db
  | command :: rest =>
    match command.apply d db with
    | none => none
    | some db' => runTrace d db' rest

variable {commands : List Command}

/-- What each command does, the list does. -/
theorem runTrace_steps {R : Database → Database → Prop} (h : runTrace d db commands = some db')
    (hstep : ∀ command ∈ commands, ∀ db db', command.apply d db = some db' →
      Relation.ReflTransGen R db db') : Relation.ReflTransGen R db db' := by
  induction commands generalizing db with
  | nil =>
    cases h
    exact .refl
  | cons command _ ih =>
    unfold runTrace at h
    cases hc : command.apply d db with
    | none =>
      rw [hc] at h
      cases h
    | some db1 =>
      rw [hc] at h
      exact Relation.ReflTransGen.trans (hstep command List.mem_cons_self db db1 hc)
        (ih h fun command' hm => hstep command' (List.mem_cons_of_mem _ hm))

/-- **The result of a list of commands is a stored database.** -/
theorem Stored.of_trace (h : (runTrace d {} commands).isSome = true) : Stored d ((runTrace d {} commands).getD {}) := by
  exact runTrace_steps (eq_some_getD h) fun _ _ _ _ => Command.commits

/-! ## Steps -/

/-- A step to take. -/
inductive Event where
  | manage (amb : Ambient) (op : Operation)
  | boot
  | crash
  | recover (inputs : Recovery.Inputs)
  | beginCycle (now : Int)
  | loadCandidates (queueId : Uuid) (type : JobType)
  | endCycle
  | dispatch (amb : Ambient) (queueId runId : Uuid) (slotOccupied : Bool)
  | startAccepted
  | complete (amb : Ambient) (runId : Uuid) (completion : AttemptCompletion)
  | cancel (amb : Ambient) (runId : Uuid)

/-- The claim of a dispatch that the cycle offers. -/
def dispatched (d : Deployment) (amb : Ambient) (queueId runId : Uuid) (slotOccupied : Bool)
    (s : System) : Option System :=
  match s.node.memory.cycle, claimSelected d.env amb (fun _ _ => .ready) runId s.node.db with
  | some cycle, .ok (some claim) db' =>
    if claim.key.runId = runId ∧ cycle.capacity.runningFor claim.type < d.options.limitFor claim.type ∧
        cycle.offers claim.type queueId runId slotOccupied = true then
      some { s.withDatabase db' with phase := .claimed claim slotOccupied }
    else none
  | _, _ => none

/-- The state after a step, if the daemon can take it. -/
def Event.apply (d : Deployment) (s : System) : Event → Option System
  | .manage amb op =>
    match s.phase with
    | .claimed .. => none
    | _ => some (s.withDatabase (after (op.run d amb) s.node.db))
  | .boot =>
    match s.phase, s.node.memory.terminal, hasAnyRunningState s.node.db with
    | .down, false, .ok false _ => some { s.withMemory {} with phase := .idle }
    | _, _, _ => none
  | .crash => some { s.withMemory {} with phase := .down }
  | .recover inputs =>
    match s.phase with
    | .down =>
      some (s.withDatabase (after (Recovery.recoverStartup d.env inputs) { db := s.node.db }).db)
    | _ => none
  | .beginCycle now =>
    match s.phase, s.node.memory.terminal with
    | .idle, false => some (s.withNode (after (Scheduler.beginCycle d.env d.options now) s.node))
    | _, _ => none
  | .loadCandidates queueId type =>
    match s.phase, s.node.memory.terminal with
    | .idle, false =>
      some (s.withNode (after (Scheduler.loadCandidates d.env d.options queueId type) s.node))
    | _, _ => none
  | .endCycle =>
    match s.phase with
    | .idle => some (s.withMemory { s.node.memory with cycle := none })
    | _ => none
  | .dispatch amb queueId runId slotOccupied =>
    match s.phase, s.node.memory.terminal with
    | .idle, false => dispatched d amb queueId runId slotOccupied s
    | _, _ => none
  | .startAccepted =>
    match s.phase with
    | .claimed claim slotOccupied =>
      if claim.preparationFailure = none then
        some
          { s.withMemory (recordedStart s.node.memory claim slotOccupied) with
            phase := .idle, starts := s.starts ++ [claim.key] }
      else none
    | _ => none
  | .complete amb runId completion =>
    if s.phase.isOpen then
      match deliverCompletion d.env amb runId completion s.node with
      | .ok (some _) node' =>
        some { s.withNode node' with completions := s.completions ++ [completion.key] }
      | _ => none
    else none
  | .cancel amb runId =>
    if s.phase.isOpen then
      match cancelRun d.env amb d.isFatal runId (.ok ()) s.node with
      | .ok _ node' => some (s.withNode node')
      | .error _ _ => none
    else none

variable {amb : Ambient} {queueId runId : Uuid} {slotOccupied : Bool}

theorem step_of_dispatched (hi : s.phase = .idle) (ho : s.node.memory.terminal = false)
    (h : dispatched d amb queueId runId slotOccupied s = some s') :
    ∃ claim, Dispatches d s claim slotOccupied s' := by
  unfold dispatched at h
  split at h
  next cycle claim db' hc hcl =>
    split at h
    next hof =>
      obtain ⟨rfl, hr, hoff⟩ := hof
      cases h
      exact ⟨claim, hi, ho, ⟨cycle, queueId, hc, hr, hoff⟩, amb, _, db', hcl, rfl⟩
    · cases h
  · cases h

theorem dispatches_of_event (h : (Event.dispatch amb queueId runId slotOccupied).apply d s = some s') :
    ∃ claim, Dispatches d s claim slotOccupied s' := by
  simp only [Event.apply] at h
  split at h
  next hi ho =>
    exact step_of_dispatched hi ho h
  · cases h

theorem Event.step {event : Event} (h : event.apply d s = some s') : Step d s s' := by
  cases event with
  | manage amb op =>
    simp only [Event.apply] at h
    split at h
    · cases h
    next hno =>
      cases h
      exact .manage s amb op hno
  | boot =>
    simp only [Event.apply] at h
    split at h
    next hdo ho hcl =>
      cases h
      obtain ⟨hn, -⟩ := (yields_look _ _ _ _).1 hcl
      exact .boot s (.inl hdo) ho ((yields_look _ _ _ _).2 ⟨hn, rfl⟩)
    · cases h
  | crash =>
    cases h
    exact .crash s
  | recover inputs =>
    simp only [Event.apply] at h
    split at h
    next hdo =>
      cases h
      exact .recover s inputs hdo
    · cases h
  | beginCycle now =>
    simp only [Event.apply] at h
    split at h
    next hi ho =>
      cases h
      exact .beginCycle s now hi ho
    · cases h
  | loadCandidates queueId type =>
    simp only [Event.apply] at h
    split at h
    next hi ho =>
      cases h
      exact .loadCandidates s queueId type hi ho
    · cases h
  | endCycle =>
    simp only [Event.apply] at h
    split at h
    next hi =>
      cases h
      exact .endCycle s hi
    · cases h
  | dispatch _ _ _ slotOccupied =>
    obtain ⟨claim, hd⟩ := dispatches_of_event h
    exact .dispatch s s' claim slotOccupied hd
  | startAccepted =>
    simp only [Event.apply] at h
    split at h
    next claim slotOccupied hc =>
      split at h
      next hr =>
        cases h
        exact .startAccepted s claim slotOccupied hc hr
      · cases h
    · cases h
  | complete amb runId completion =>
    simp only [Event.apply] at h
    split at h
    next ho =>
      split at h
      next effect node' hy =>
        cases h
        exact .complete s _ runId completion ⟨ho, amb, effect, node', hy, rfl⟩
      · cases h
    · cases h
  | cancel amb runId =>
    simp only [Event.apply] at h
    split at h
    next ho =>
      split at h
      next disposition node' hy =>
        cases h
        exact .cancel s _ runId disposition ⟨ho, amb, .ok (), node', hy, rfl⟩
      · cases h
    · cases h

/-- Takes the steps one after another. -/
def runEvents (d : Deployment) (s : System) : List Event → Option System
  | [] => some s
  | event :: rest =>
    match event.apply d s with
    | none => none
    | some s' => runEvents d s' rest

variable {events : List Event}

theorem steps_of_events (h : runEvents d s events = some s') : Steps d s s' := by
  induction events generalizing s with
  | nil =>
    cases h
    exact .refl
  | cons event _ ih =>
    unfold runEvents at h
    cases he : event.apply d s with
    | none =>
      rw [he] at h
      cases h
    | some =>
      rw [he] at h
      exact .head (Event.step he) (ih h)

/-- **The result of a list of steps is reachable.** -/
theorem Reachable.of_events (h : (runEvents d System.initial events).isSome = true) :
    Reachable d ((runEvents d System.initial events).getD System.initial) := by
  exact steps_of_events (eq_some_getD h)

/-! ## A small installation -/

namespace Sample

def uuid (n : Nat) : Uuid := ⟨n % 2 ^ 128, Nat.mod_lt _ (by decide)⟩

/-- Three attempts, the next one due at once, the slot kept or not. -/
def attributes (mode : String) : AttributeSet :=
  ⟨[("retry.max_attempts", .integer 3), ("retry.strategy", .text "fixed"),
    ("retry.initial_delay", .duration 0), ("retry.max_delay", .duration 0),
    ("retry.multiplier", .number 1), ("retry.jitter", .number 0), ("retry.mode", .text mode)]⟩

/-- Every job gets the same attributes. -/
def registry (mode : String) : AttributeRegistry where
  validateQueueDefaults _ := .ok ()
  validateJobValues _ _ := .ok ()
  materialize _ _ _ := .ok (attributes mode)
  serializeMaterialized _ values := (Retry.policyFromAttributes values).map fun _ => ()
  applyChanges _ values _ := values
  complete_retry type values h := by
    cases hp : Retry.policyFromAttributes values with
    | ok policy => exact ⟨policy, rfl⟩
    | error e =>
      rw [hp] at h
      cases h

/-- Every payload is in order, and every expression fires a minute later. -/
def environment (mode : String) : Environment where
  registry := registry mode
  payloads :=
    { issue := fun _ _ => none
      normalizeSubmitted := fun _ payload => .ok payload
      references := fun _ _ => .ok []
      normalized_ok := fun _ _ _ _ => rfl }
  cron := { validate := fun _ _ => .ok (), nextAfter := fun _ _ t => .ok (t + 60000000000) }
  defaultTimezone := "UTC"
  initializationError := none
  isValidQueueName _ := true
  isValidJobName _ := true
  isValidIdempotencyKey _ := true
  isValidSecretName _ := true
  isValidFieldPath _ := true

/-- No request is stored. -/
def codec {α β : Type} : Management.ReplayCodec α β :=
  ⟨fun _ => .ok "", fun _ => .ok (), fun _ => .ok "", fun _ => .error stopping⟩

def deployment (mode : String) : Deployment where
  env := environment mode
  codecs := ⟨codec, codec, codec⟩
  options := ⟨2, 2, 10⟩
  isFatal _ := false

/-- An operation at a moment, with the identifiers it generates counted from `n + 1`. -/
def ambient (now : Int) (n : Nat) : Ambient where
  utcNow := now
  sample := none
  available _ := true
  generate position _ := .ok ⟨(n + position) % (2 ^ 128 - 1) + 1, by omega⟩
  generate_ne_nil position db id h := by
    cases h
    exact fun hid => Nat.succ_ne_zero _ (congrArg Uuid.value hid)

end Sample

end Jobu
