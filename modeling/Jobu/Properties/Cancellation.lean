import Jobu.Properties.Attempts

/-!
# A cancelled run never runs again

A waiting run is cancelled at once.  A running one is only asked to stop: until its attempt is
reported the request is held in memory, and the report then ends the run whatever it says.

  > `Step.work`: what one step does to the running runs and the requests.
  > `cancelled_run_stays_cancelled`: no further attempt of a cancelled run starts.
-/

namespace Jobu

open Lib Scheduler Sample List Telemetry

variable {db db' : Database} {amb : Ambient} {s s' : System} {runId : Uuid}

variable {d : Deployment}

/-! ## Running runs and requests -/

/-- Every running run is still running. -/
def StillRunningIn (db db' : Database) : Prop :=
  ∀ run ∈ db.runs, run.state = .running → ∃ run' ∈ db'.runs, run'.id = run.id ∧ run'.state = .running

theorem StillRunningIn.refl (db : Database) : StillRunningIn db db :=
  fun run hr hs => ⟨run, hr, rfl, hs⟩

theorem Frame.stillRunning {moved : Uuid → Prop} (h : Frame Nobody moved db db') : StillRunningIn db db' := by
  intro _ hr hs
  obtain ⟨run', hr', hsa, hs', -⟩ := h.running hr id hs
  exact ⟨run', hr', hsa.id, hs'⟩

/-- What a step of a living daemon does to the running runs and to the requests. -/
inductive Work.Effect (d : Deployment) (s s' : System) : Prop
  | keeps (runs : StillRunningIn s.node.db s'.node.db)
    (requests : ∀ id, s.node.memory.cancellations id = true → s'.node.memory.cancellations id = true)
  | accepts (amb : Ambient) (runId : Uuid) (completion : AttemptCompletion) (effect : CompletionEffect)
    (node' : Node) (accepts : Accepts d.env amb runId completion effect s.node node')
    (db : s'.node.db = node'.db)
    (requests : s'.node.memory.cancellations = node'.memory.cancellations)
  | boots (idle : ∀ run ∈ s.node.db.runs, run.state ≠ .running) (db : s'.node.db = s.node.db)
  | dies (down : s'.phase = .down)

theorem Operation.stillRunning {op : Operation}
    (h : Intact d.env db) : StillRunningIn db (after (op.run d amb) db) := by
  rcases (op.clean d amb db).after_or with he | ⟨u, hy⟩
  · rw [he]
    exact .refl db
  rcases Operation.moves h hy with hm | ⟨_, _, -, -, hm⟩
  · exact hm.frame.stillRunning
  · exact hm.moves.frame.stillRunning

theorem recordedStart_cancellations (memory : Memory) (claim : Claim) (slotOccupied : Bool) :
    (recordedStart memory claim slotOccupied).cancellations = memory.cancellations := by
  unfold recordedStart
  split <;> rfl

theorem recordedCompletion_cancellations (memory : Memory) (claim : Claim) (effect : CompletionEffect) :
    (recordedCompletion memory claim effect).cancellations = memory.cancellations := by
  unfold recordedCompletion
  split
  · rfl
  · split <;> rfl

/-- One page of the backlog observation touches the waits only. -/
theorem observe_keeps (amb : Ambient) (position : Option Uuid) (node : Node) :
    let node' := after (latching (durable (transaction amb.fault (observePage amb position)))) node
    Retimed node.db node'.db ∧ (node'.memory = node.memory ∨ node'.memory = node.memory.shutdown) := by
  by_cases hd : ∃ found node', Yields (durable (transaction amb.fault (observePage amb position))) node found node'
  · obtain ⟨found, node', hy⟩ := hd
    simp only [(yields_latching.2 hy).after_eq]
    obtain ⟨_, hbo, rfl⟩ := yields_durable.1 hy
    exact ⟨observePage_retimed ((yields_transaction _ _ _ _ _).1 hbo).2, .inl rfl⟩
  · simp only [after_latching (clean_durable (clean_transaction _ _ _)) fun found node' hy =>
      hd ⟨found, node', hy⟩]
    exact ⟨.refl node.db, .inr rfl⟩

theorem Step.work (h : Reachable d s) (hstep : Step d s s') : Work.Effect d s s' := by
  have hc := h.stored.consistent
  have hsa : ∀ {db' : Database} {memory' : Memory}, db' = s.node.db →
    memory'.cancellations = s.node.memory.cancellations →
    StillRunningIn s.node.db db' ∧ ∀ id, s.node.memory.cancellations id = true → memory'.cancellations id = true := by
    intro _ _ hdb hme
    exact ⟨hdb ▸ .refl _, fun id hid => by rw [hme]; exact hid⟩
  have href : ∀ {node' : Node}, node' = s.node ∨ node' = Node.closed s.node →
    StillRunningIn s.node.db node'.db ∧ ∀ id, s.node.memory.cancellations id = true →
      node'.memory.cancellations id = true := by
    rintro node' (rfl | rfl)
    · exact hsa rfl rfl
    · exact hsa rfl rfl
  cases hstep with
  | manage => exact .keeps (Operation.stillRunning hc) fun id hid => hid
  | observe amb position =>
    obtain ⟨hret, hme⟩ := observe_keeps amb position s.node
    refine .keeps (Frame.retimed hret : Frame Nobody Nobody _ _).stillRunning fun id hid => ?_
    show (after _ s.node).memory.cancellations id = true
    rcases hme with hm | hm <;> rw [hm] <;> exact hid
  | account sample batchSize position close fault =>
    refine .keeps ?_ fun id hid => hid
    rcases after_transaction fault (accountingPage sample batchSize position close)
      s.node.db with he | ⟨found, hy⟩
    · exact (hsa he rfl).1
    · exact (Frame.retimed (accountingPage_retimed hy) : Frame Nobody Nobody _ _).stillRunning
  | boot _ _ clean =>
    refine .boots (fun run hr hs => ?_) rfl
    obtain ⟨hn, -⟩ := (yields_look _ _ _ _).1 clean
    have hi := (Bool.or_eq_false_iff.1 hn.symm).1
    exact any_eq_false.1 hi run hr (decide_eq_true hs)
  | shutdown | endCycle | dispatchFails | startBroken =>
    exact .keeps (.refl _) fun id hid => hid
  | crash => exact .dies rfl
  | recover _ enabled => exact .dies enabled
  | beginCycle now =>
    have hw := beginCycle_sameWork d.env d.options now s.node
    obtain ⟨hru, hre⟩ := hsa hw.db hw.cancellations
    exact .keeps hru hre
  | loadCandidates queueId type =>
    have hw := loadCandidates_sameWork d.env d.options queueId type s.node
    obtain ⟨hru, hre⟩ := hsa hw.db hw.cancellations
    exact .keeps hru hre
  | dispatch _ claim _ hd =>
    obtain ⟨amb, _, _, hy, rfl⟩ := hd.commits
    have hcl := claim_moves hc hy
    refine .keeps (fun run hr hs => ?_) fun id hid => hid
    by_cases hid : run.id = claim.key.runId
    · obtain ⟨run', hr', hi', hs'⟩ := hcl.run
      exact ⟨run', hr', hi'.trans hid.symm, hs'⟩
    · obtain ⟨run', hr', hsa, hs', -⟩ := hcl.moves.frame.running hr hid hs
      exact ⟨run', hr', hsa.id, hs'⟩
  | unprepared claim slot error enabled failure | startAccepted claim slot enabled ready
  | startRefused claim slot =>
    obtain ⟨hru, hre⟩ := hsa rfl (recordedStart_cancellations s.node.memory claim slot)
    exact .keeps hru hre
  | settleStart _ _ amb effect node' _ accepted =>
    exact .accepts amb _ _ effect node' (yields_deliverCompletion.1 accepted) rfl
      (recordedCompletion_cancellations _ _ _)
  | settleStartFails _ _ _ _ refused
  | completeFails _ _ _ _ refused =>
    obtain ⟨hru, hre⟩ := href (deliverCompletion_refused refused)
    exact .keeps hru hre
  | complete _ runId completion hco =>
    obtain ⟨amb, effect, node', hy, rfl⟩ := hco.returns
    exact .accepts amb runId completion effect node' (yields_deliverCompletion.1 hy) rfl rfl
  | cancel _ runId _ hca =>
    obtain ⟨_, _, _, hy, rfl⟩ := hca.returns
    cases (yields_cancelRun hy).2 with
    | requested =>
      refine .keeps (.refl _) fun id hid => ?_
      show (if id = runId then true else s.node.memory.cancellations id) = true
      rw [hid]
      exact ite_self _
    | completed _ _ id _ _ hbo =>
      exact .keeps (cancelPending_moves hc hbo).moves.frame.stillRunning fun id hid => hid
  | cancelFails _ _ _ _ refused =>
    obtain ⟨hru, hre⟩ := href (cancelRun_refused refused)
    exact .keeps hru hre

/-! ## A run that is not waiting -/

/-- The run has ended. -/
def HasEnded (runId : Uuid) (db : Database) : Prop :=
  ∃ run ∈ db.runs, run.id = runId ∧ run.state.isTerminal = true

/-- The run is running and has been asked to stop. -/
structure Asked (runId : Uuid) (s : System) : Prop where
  running : ∃ run ∈ s.node.db.runs, run.id = runId ∧ run.state = .running
  requested : s.node.memory.cancellations runId = true

/-- The daemon is not about to start the run. -/
def NotAboutTo (runId : Uuid) (s : System) : Prop :=
  ∀ claim slot, s.phase = .claimed claim slot → claim.key.runId ≠ runId

theorem HasEnded.commits (h : HasEnded runId db) (hs : Stored d db) (hc : Commits d db db') : HasEnded runId db' := by
  obtain ⟨run, hr, hi, ht⟩ := h
  obtain ⟨run', hr', -, hfi, -⟩ := (hs.frame hc).runs run hr
  obtain rfl := hfi ht
  exact ⟨run', hr', hi, ht⟩

/-- A request that was accepted is carried out by whatever the executor reports. -/
theorem Asked.step (h : Asked runId s) (hs : Reachable d s)
    (hstep : Step d s s') (hu : s'.phase ≠ .down) : HasEnded runId s'.node.db ∨ Asked runId s' := by
  obtain ⟨⟨run, hr, hid, hrun⟩, hreq⟩ := h
  cases hstep.work hs with
  | keeps hru hre =>
    obtain ⟨run', hr', hi', hs'⟩ := hru run hr hrun
    exact .inr ⟨⟨run', hr', hi'.trans hid, hs'⟩, hre runId hreq⟩
  | accepts _ doneId completion _ _ ha hdb hm =>
    have hc := completeDurably_moves hs.stored.consistent ha.db
    have hk : (effective completion (s.node.memory.cancellations doneId)).key.runId = doneId :=
      (congrArg AttemptKey.runId (effective_key _ _)).trans ha.key
    by_cases hdo : doneId = runId
    · subst hdo
      obtain ⟨run', hr', hi', he⟩ := hc.run
      refine .inl ⟨run', hdb ▸ hr', hi'.trans hk, ?_⟩
      -- a completion that a request has overridden is not a failure
      refine he.resolve_right fun hret => ?_
      rw [hreq] at hret
      cases hret.2
    have ho : ¬ Only (effective completion (s.node.memory.cancellations doneId)).key.runId run.id := by
      intro heq
      exact hdo (hk.symm.trans (heq.symm.trans hid))
    obtain ⟨run', hr', hsa, hs', -⟩ := hc.moves.frame.running hr ho hrun
    refine .inr ⟨⟨run', hdb ▸ hr', hsa.id.trans hid, hs'⟩, ?_⟩
    rw [hm, ha.memory]
    show (if runId = doneId then false else s.node.memory.cancellations runId) = true
    rw [if_neg (Ne.symm hdo)]
    exact hreq
  | boots hi => exact absurd hrun (hi run hr)
  | dies hd => exact absurd hd hu

theorem claim_pending {prepare : JobType → Json → Preparation} {claim : Claim} {run : JobRun}
    (hy : Yields (claimSelected d.env amb prepare claim.key.runId) db (some claim) db')
    (hr : run ∈ db.runs) (hp : run.state.isPending = false) : claim.key.runId ≠ run.id := by
  rintro hi
  obtain ⟨-, _, _, _, _, hs⟩ := yields_claimSelected hy
  have he := hs.dispatchable.eligible
  obtain rfl := Table.eq_of_key hr he.mem.1 (hi.symm.trans he.mem.2.symm)
  rw [he.pending] at hp
  cases hp

/-- The run has ended, or it is running and has been asked to stop. -/
structure Stopping (runId : Uuid) (s : System) : Prop where
  spent : HasEnded runId s.node.db ∨ Asked runId s
  notAboutTo : NotAboutTo runId s

theorem Stopping.not_pending (h : Stopping runId s) :
    ∃ run ∈ s.node.db.runs, run.id = runId ∧ run.state.isPending = false := by
  rcases h.spent with ⟨run, hr, hi, ht⟩ | ⟨⟨run, hr, hi, hs⟩, -⟩
  · exact ⟨run, hr, hi, RunState.not_isPending_of_isTerminal ht⟩
  · exact ⟨run, hr, hi, by rw [hs]; rfl⟩

/-- No attempt of the run has been started since, and none can be dispatched. -/
structure NeverAgain (d : Deployment) (runId : Uuid) (s s' : System) : Prop where
  starts : ∃ more, s'.starts = s.starts ++ more ∧ ∀ k ∈ more, k.runId ≠ runId
  dispatch : ∀ claim slot s'', Dispatches d s' claim slot s'' → claim.key.runId ≠ runId

theorem Stopping.no_dispatch (h : Stopping runId s) (claim : Claim)
    (slot : Bool) (s' : System) (hd : Dispatches d s claim slot s') : claim.key.runId ≠ runId := by
  obtain ⟨_, hr, rfl, hp⟩ := h.not_pending
  obtain ⟨_, _, _, hy, -⟩ := hd.commits
  exact claim_pending hy hr hp

theorem Stopping.step (h : Stopping runId s) (hstep : Step d s s')
    (hsp : HasEnded runId s'.node.db ∨ Asked runId s') : Stopping runId s' ∧
      (s'.starts = s.starts ∨ ∃ k, s'.starts = s.starts ++ [k] ∧ k.runId ≠ runId) := by
  cases hstep.startEffect with
  | quiet hst hph =>
    exact ⟨⟨hsp, fun claim slot hp => absurd hp (hph claim slot)⟩, .inl hst⟩
  | claims _ _ _ _ hy hst hph =>
    refine ⟨⟨hsp, fun claim' slot' hp => ?_⟩, .inl hst⟩
    obtain ⟨rfl, rfl⟩ := Phase.claimed.inj (hph.symm.trans hp)
    obtain ⟨_, hr, rfl, hpe⟩ := h.not_pending
    exact claim_pending hy hr hpe
  | starts claim slot hc _ hst hph =>
    exact ⟨⟨hsp, fun claim' slot' hp => absurd hp (hph claim' slot')⟩,
      .inr ⟨claim.key, hst, h.notAboutTo claim slot hc⟩⟩

/-- The steps of one lifetime: the daemon does not die. -/
def Lives (d : Deployment) : System → System → Prop :=
  Relation.ReflTransGen fun s s' => Step d s s' ∧ s'.phase ≠ .down

/-- Along steps that keep a run ended or asked to stop, it is never started. -/
theorem never_again {R : System → System → Prop} {I : System → Prop}
    (hsp : ∀ s, I s → HasEnded runId s.node.db ∨ Asked runId s)
    (hstep : ∀ s s', Reachable d s → I s → R s s' → Step d s s' ∧ I s')
    (hs : Reachable d s) (h : I s) (hn : NotAboutTo runId s) (hr : Relation.ReflTransGen R s s') :
    NeverAgain d runId s s' := by
  have hal : Reachable d s' ∧ I s' ∧ Stopping runId s' ∧
    ∃ more, s'.starts = s.starts ++ more ∧ ∀ k ∈ more, k.runId ≠ runId := by
    induction hr with
    | refl => exact ⟨hs, h, ⟨hsp s h, hn⟩, [], (append_nil _).symm, fun k hk => by cases hk⟩
    | tail _ hl ih =>
      obtain ⟨hs1, h₁, hst, more, hm, ho⟩ := ih
      obtain ⟨hst1, h₂⟩ := hstep _ _ hs1 h₁ hl
      obtain ⟨hs2, hsta⟩ := hst.step hst1 (hsp _ h₂)
      refine ⟨hs1.step hst1, h₂, hs2, ?_⟩
      rcases hsta with he | ⟨k, he, hk⟩
      · exact ⟨more, he.trans hm, ho⟩
      refine ⟨more ++ [k], by rw [he, hm, append_assoc], fun k' hk' => ?_⟩
      rw [mem_append, mem_singleton] at hk'
      rcases hk' with hk' | rfl
      · exact ho k' hk'
      · exact hk
  exact ⟨hal.2.2.2, hal.2.2.1.no_dispatch⟩

theorem NotAboutTo.of_isOpen (h : s.phase.isOpen = true) :
    NotAboutTo runId s := fun claim slot hp => absurd hp (Phase.not_claimed_of_isOpen h claim slot)

variable {executorCancel : Except Error Unit} {node node' : Node}

/-- The answer `completed` is about a run that is cancelled. -/
theorem cancelRun_completed (h : Intact d.env node.db)
    (hy : Yields (cancelRun d.env amb d.isFatal runId executorCancel) node .completed node') :
    ∃ run ∈ node'.db.runs, run.id = runId ∧ run.state = .cancelled := by
  generalize hd : CancelDisposition.completed = disposition at hy
  cases (yields_cancelRun hy).2 with
  | requested => cases hd
  | completed _ _ _ _ _ hbo => exact (cancelPending_moves h hbo).cancelled

/-- The answer `requested` is about a run that is running, and the request is held. -/
theorem cancelRun_requested (hy : Yields (cancelRun d.env amb d.isFatal runId executorCancel) node .requested node') :
    (∃ run ∈ node'.db.runs, run.id = runId ∧ run.state = .running) ∧ node'.memory.cancellations runId = true := by
  generalize hd : CancelDisposition.requested = disposition at hy
  cases (yields_cancelRun hy).2 with
  | requested run _ mem id running => exact ⟨⟨run, mem, id, running⟩, if_pos rfl⟩
  | completed => cases hd

/-- **A waiting run that `cancel_run` reports cancelled is cancelled, and no attempt of it is ever
dispatched again; after an accepted request no further attempt of a running run starts in this
lifetime; and a terminal run never changes.** -/
theorem cancelled_run_stays_cancelled (d : Deployment) :
    (∀ s s' runId, Reachable d s → Cancels d s runId .completed s' →
      (∃ run ∈ s'.node.db.runs, run.id = runId ∧ run.state = .cancelled) ∧
      ∀ s'', Steps d s' s'' → NeverAgain d runId s' s'') ∧
    (∀ s s' runId, Reachable d s → Cancels d s runId .requested s' →
      ∀ s'', Lives d s' s'' → NeverAgain d runId s' s'') ∧
    ∀ db db', Stored d db → Commits d db db' → ∀ run ∈ db.runs, run.state.isTerminal = true → run ∈ db'.runs := by
  refine ⟨fun s s' runId hs hca => ?_, fun s s' runId hs hca s'' hli => ?_,
    fun db db' hs hc run hr ht => ?_⟩
  · have hs' := hs.step (.cancel s s' runId _ hca)
    obtain ⟨amb, executorCancel, node', hy, rfl⟩ := hca.returns
    obtain ⟨run', hr', hi', hc'⟩ := cancelRun_completed hs.stored.consistent hy
    refine ⟨⟨run', hr', hi', hc'⟩, fun s'' hste => ?_⟩
    -- the run has ended, and stays so in every later life
    refine never_again (I := fun s => HasEnded runId s.node.db) (fun s h => .inl h)
      (fun s1 s2 h₁ hen hst => ⟨hst, hen.commits h₁.stored hst.commits⟩) hs'
      ⟨run', hr', hi', by rw [hc']; rfl⟩ (.of_isOpen hca.enabled) hste
  · have hs' := hs.step (.cancel s s' runId _ hca)
    obtain ⟨amb, executorCancel, node', hy, rfl⟩ := hca.returns
    obtain ⟨hru, hre⟩ := cancelRun_requested hy
    have has : Asked runId (s.withNode node') := ⟨hru, hre⟩
    refine never_again (I := fun s => HasEnded runId s.node.db ∨ Asked runId s) (fun s h => h)
      (fun s1 s2 h₁ h hst => ⟨hst.1, ?_⟩) hs' (.inr has) (.of_isOpen hca.enabled) hli
    rcases h with hen | has
    · exact .inl (hen.commits h₁.stored hst.1.commits)
    · exact has.step h₁ hst.1 hst.2
  · obtain ⟨run', hr', -, hfi, -⟩ := (hs.frame hc).runs run hr
    obtain rfl := hfi ht
    exact hr'

set_option maxRecDepth 100000 in
/-- A running manual run is asked to stop; a failure that could be retried then ends it. -/
theorem running_manual_run_stops : let d := Sample.deployment "blocking"
    let s := (runEvents d System.initial startManual).getD System.initial
    let s' := s.withNode (after
      (cancelRun d.env (ambient 0 600) d.isFatal (uuid 401) (.ok ())) s.node)
    Reachable d s ∧ Cancels d s (uuid 401) .requested s' ∧ (∀ s'', Lives d s' s'' → NeverAgain d (uuid 401) s' s'') ∧
    ((runEvents d s' [.complete (ambient 0 700) (uuid 401)
      { success with outcome := .failed, failureDisposition := some .retryable }]).map
      fun s'' => s''.node.db.runs.rows.map fun run => (run.id, run.state)) =
        some [(uuid 302, .scheduled), (uuid 401, .cancelled)] := by
  intro d s s'
  have hs : Reachable d s := .of_events (by decide +kernel)
  have hc : Cancels d s (uuid 401) .requested s' :=
    ⟨by decide +kernel, _, .ok (), _, yields_after (by decide +kernel), rfl⟩
  exact ⟨hs, hc, (cancelled_run_stays_cancelled d).2.1 s s' _ hs hc, by decide +kernel⟩

end Jobu
