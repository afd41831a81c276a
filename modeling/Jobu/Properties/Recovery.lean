import Jobu.Properties.Limits

/-!
# What a recovery that returns has established

The last pass of `Recovery::run` reads every table once more, page by page.  A report is given only if
every row passed, so nothing is left of the daemon that died.
-/

namespace Jobu

open Lib Table

namespace Recovery

variable {env : Environment} {inputs : Inputs} {s s' : State} {u : Unit} {report : Report}

/-- A pass that only checks has read every row, and each of them passed. -/
theorem visit_checks {T R K : Type} [Keyed T K] [LinearOrder K] {table : Database → Table T}
    {check : Database → T → Except Error R} {limit : Nat} {keyOf : R → K} {rows : Database → Nat}
    {each : R → Startup PUnit}
    (h : Yields (visit inputs rows (listRows table (fun _ => true) check limit) keyOf each) s u s')
    (f : T → R) (hk : ∀ t, keyOf (f t) = Keyed.key t) (hf : ∀ db t r, t ∈ table db → check db t = .ok r → r = f t)
    (Good : R → Database → Prop) (hea : ∀ s r s', Yields (each r) s ⟨⟩ s' → s'.db = s.db ∧ Good r s.db) :
    s'.db = s.db ∧ ∀ t ∈ table s.db, check s.db t = .ok (f t) ∧ Good (f t) s.db := by
  simp only [visit, yields_steps, yields_checkStop] at h
  obtain ⟨_, s, ⟨-, rfl⟩, _, s1, hv, -, rfl⟩ := h
  -- a row is ready when it has been read, and done when it has passed
  obtain ⟨hdb, -, -, hd⟩ := visitPages_complete (fun s => (table s.db).keys fun _ => true)
    (fun s1 => s1.db = s.db) (fun r s => ∃ t ∈ table s.db, check s.db t = .ok r)
    (fun k s => ∃ t ∈ table s.db, Keyed.key t = k ∧ check s.db t = .ok (f t) ∧ Good (f t) s.db)
    (fun s2 pos page s3 hI hy => by
      simp only [yields_bind, yields_checkStop, yields_onDatabase] at hy
      obtain ⟨_, _, ⟨-, rfl⟩, _, hy, rfl⟩ := hy
      simp only [listRows, yields_steps] at hy
      obtain ⟨_, _, ⟨hl, rfl⟩, hpa, rfl⟩ := hy
      refine ⟨hI, fun _ hk => hk, rfl, fun r hr => ?_, ?_⟩
      · obtain ⟨t, ht, hc⟩ := mem_of_except_mapM hpa hr
        exact ⟨t, (mem_of_mem_page ht).1, hc⟩
      · rw [map_of_except_mapM (fun t ht r hc => (hf _ t r (mem_of_mem_page ht).1 hc) ▸ hk t) hpa]
        exact pageOf _ _ _ hl.1)
    (fun s2 r s3 hI hr hy => by
      obtain ⟨hdb, hgo⟩ := hea s2 r s3 hy
      obtain ⟨t, ht, hc⟩ := hr
      obtain rfl := hf _ t r ht hc
      rw [← hdb] at ht hc hgo
      refine ⟨hdb.trans hI, ⟨t, ht, (hk t).symm, hc, hgo⟩, ?_, ?_, ?_⟩ <;> simp only [hdb] <;> simp)
    _ rfl (fun k _ hb => Bool.noConfusion hb) hv
  refine ⟨hdb, fun t ht => ?_⟩
  rw [hdb] at hd
  obtain ⟨_, ht', hkt, hr⟩ := hd (Keyed.key t) (mem_keys.2 ⟨t, ht, rfl, rfl⟩)
  exact eq_of_key ht' ht hkt ▸ hr

/-- A job does not drain, and a recurring one has its work. -/
def HasWork (job : JobDefinition) (db : Database) : Prop :=
  job.state ≠ .suspending ∧ (job.state ≠ .deleted ∧ job.schedule.isOnce = false →
    ∃ run ∈ db.runs, run.jobId = job.id ∧ run.isLiveOwned = true)

/-- The database after a recovery: every row is valid, nothing runs or drains, and no interval is open. -/
structure Recovered (env : Environment) (db : Database) : Prop where
  timings : ∀ t ∈ db.timings, t.openInterval = none
  runs : ∀ run ∈ db.runs, checkRun env db run.id = .ok run ∧ run.state ≠ .running
  attempts : ∀ a ∈ db.attempts, checkAttempt env db (Keyed.key a) = .ok a ∧ a.state ≠ .running
  jobs : ∀ job ∈ db.jobs, checkJob env db job.id = .ok job ∧ HasWork job db
  queues : ∀ queue ∈ db.queues, checkQueue env db queue.id = .ok queue ∧ queue.state ≠ .suspending

theorem checkClosed_ok (h : Yields (checkClosed true) s u s') :
    s'.db = s.db ∧ ∀ t ∈ s.db.timings, t.openInterval = none := by
  simp only [checkClosed, if_true, Telemetry.listOpen, yields_steps, yields_onDatabase] at h
  obtain ⟨_, _, ⟨_, ⟨_, _, ⟨-, rfl⟩, _, _, ⟨rfl, rfl⟩, _, _, ⟨-, rfl⟩, rfl, rfl⟩, rfl⟩, hnone, rfl⟩ := h
  refine ⟨rfl, fun t ht => ?_⟩
  by_contra ho
  have := page_covers (p := fun timing => timing.openInterval.isSome) (n := 1) (by decide) ht
    (Option.isSome_iff_ne_none.2 ho) (rfl : beyond none _ = true)
  simp [hnone] at this

theorem checkFinalJob_ok {job : JobDefinition} {v : PUnit} (h : Yields (checkFinalJob env true job) s v s') :
    s'.db = s.db ∧ HasWork job s.db := by
  simp only [checkFinalJob, yields_steps, yields_onDatabase, if_true] at h
  obtain ⟨_, _, ⟨db, hli, rfl⟩, _, _, ⟨hs, rfl⟩, h⟩ := h
  obtain rfl : db = s.db := (hli.after_eq).symm.trans (after_validateJobLifecycle job _)
  split at h
  · simp only [yields_steps, yields_onDatabase] at h
    obtain ⟨_, _, ⟨_, hwo, rfl⟩, hso, rfl⟩ := h
    obtain ⟨rfl, hon⟩ := Runs.yields_findScheduleOwned hwo
    obtain ⟨run, rfl⟩ := Option.isSome_iff_exists.1 hso
    exact ⟨rfl, hs, fun _ => ⟨run, hon.mem.1, by simpa using hon.mem.2⟩⟩
  next hno =>
    obtain ⟨-, rfl⟩ := (yields_pure _ _ _ _).1 h
    exact ⟨rfl, hs, fun hre => absurd hre hno⟩

theorem recovered_of_yields (h : Yields (recoverStartup env inputs) s report s') : Recovered env s'.db := by
  simp only [recoverStartup, run, validate, yields_steps] at h
  obtain ⟨_, _, -, _, _, -, _, _, -, _, _, -, _, _, -, _, _, -, _, _,
    ⟨_, s1, hclosed, _, s2, hruns, _, s3, hattempts, _, s4, houtputs, _, s5, hjobs, hqueues⟩, -, rfl⟩ := h
  have hre : ∀ {c : Prop} [Decidable c] {e : Error} {s s' : State} {v : PUnit},
      Yields (require (true = true → c) e) s v s' → s'.db = s.db ∧ c := by
    intro c _ e s _ v hy
    obtain ⟨hc, rfl⟩ := (yields_require _ _ _ _ _).1 hy
    exact ⟨rfl, hc rfl⟩
  obtain ⟨hdb, hclosed⟩ := checkClosed_ok hclosed
  obtain ⟨h₂, hruns⟩ := visit_checks hruns id (fun _ => rfl)
    (fun _ _ _ ht hc => Option.some.inj ((checkRun_ok.1 hc).1.symm.trans (find?_of_mem ht)))
    (fun run _ => run.state ≠ .running) fun _ _ _ => hre
  obtain ⟨h₃, hattempts⟩ := visit_checks hattempts id (fun _ => rfl)
    (fun _ _ _ ht hc => Option.some.inj ((checkAttempt_ok.1 hc).1.symm.trans (find?_of_mem ht)))
    (fun a _ => a.state ≠ .running) fun _ _ _ => hre
  obtain ⟨h₄, -⟩ := visit_checks houtputs Keyed.key (fun _ => rfl) (fun _ _ _ _ => checkOutput_found)
    (fun _ _ => True) fun _ _ _ hy => ⟨((yields_pure _ _ _ _).1 hy).2 ▸ rfl, trivial⟩
  obtain ⟨h₅, hjobs⟩ := visit_checks hjobs id (fun _ => rfl)
    (fun _ _ _ ht hc => Option.some.inj ((checkJob_ok.1 hc).1.symm.trans (find?_of_mem ht)))
    HasWork fun _ _ _ => checkFinalJob_ok
  obtain ⟨h₆, hqueues⟩ := visit_checks hqueues id (fun _ => rfl)
    (fun _ _ _ ht hc => Option.some.inj ((checkQueue_ok.1 hc).1.symm.trans (find?_of_mem ht)))
    (fun queue _ => queue.state ≠ .suspending) fun _ _ _ => hre
  simp only [h₅, h₄, h₃, h₂, hdb] at hruns hattempts hjobs hqueues
  simp only [h₆, h₅, h₄, h₃, h₂, hdb]
  exact ⟨hclosed, hruns, hattempts, hjobs, hqueues⟩

/-- **A recovery that gives a report leaves nothing running, draining or measured**, whatever it found;
and one that is cut off anywhere leaves the database intact and has started nothing. -/
theorem recovery_settles (d : Deployment) (inputs : Inputs) :
    (∀ s report s', Yields (recoverStartup d.env inputs) s report s' → Recovered d.env s'.db) ∧
    ∀ db, Stored d db → Intact d.env (after (recoverStartup d.env inputs) { db }).db ∧
      RunsNoMore db (after (recoverStartup d.env inputs) { db }).db := by
  refine ⟨fun _ _ _ => recovered_of_yields, fun db hs => ?_⟩
  have hre := recoverStartup_repairs d.env inputs db
  have hs' : Stored d _ := hs.trans (commits_of_repairs hre)
  exact ⟨hs'.consistent, runsNoMore_of_repairs hs hre⟩

end Recovery

end Jobu
