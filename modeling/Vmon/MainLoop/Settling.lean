import Vmon.MainLoop.Life
import Vmon.Sampler.Settling

/-!
# The program settles

Whatever was asked for is answered in the end. While nobody writes to the program and nobody stops
it, its threads, its calls and its timers need only be left to themselves, in whatever order they
move and whatever libvirt answers, as long as its answers are no longer than some bound. After a
bounded number of moves the callback has returned, all workers wait on an empty queue, and every
task that was accepted, of a request or of one domain of it, has been collected
(`main_loop_settles`).

## Main definitions

* `MainLoop.Closing` — the moves that the program makes by itself.
* `MainLoop.work` — how many of them are left.
-/

namespace Vmon

variable {δ : Type} {ctx : VmonContext} {lib : UuidLib} {stray : ℕ → Bool}

theorem filterMap_daemonEvent_toPool (h : List (MainEvent δ)) :
    h.filterMap MainEvent.toPool =
      (Daemon.execEvents (h.filterMap MainEvent.daemonEvent)).filterMap Event.toPool := by
  rw [← filterMap_toPool, List.filterMap_filterMap]
  rfl

namespace MainLoop

/-- The moves of the daemon, where the environment is one of `answers`. -/
def Closing (answers : Env δ → Prop) (m : MainMove δ) : Prop :=
  ∃ b, m.action = .daemon b ∧ m.pre.daemon.Closing answers b

/-- The moves left to the daemon, where libvirt answers within `N`. -/
def work (N : ℕ) (s : MainLoop δ) : ℕ := s.daemon.work N

/-- Nobody calls `executor_stop`. -/
def NoStop (m : MainMove δ) : Prop := ∀ wait, m.action ≠ .daemon (.stop wait)

variable {answers : Env δ → Prop} {n cap N : ℕ} {h es : List (MainEvent δ)} {s s' : MainLoop δ}

theorem Closing.noStop {m : MainMove δ} (h : Closing answers m) : NoStop m := by
  obtain ⟨b, hb, hclosing⟩ := h
  intro wait hstop
  rw [hb] at hstop
  cases hstop
  exact hclosing

/-- The task of a thread is one that somebody dispatched. -/
theorem client_of_able {p : TaskPool SamplerWork SamplerCollect (VmonRequest δ)}
    (H : s.daemon.Able (h.filterMap MainEvent.daemonEvent)) (hp : s.daemon.exc.Embodies cap p)
    (hlaws : p.Laws cap (h.filterMap MainEvent.toPool)) (tid : ℕ)
    (t : Thread SamplerFunction (VmonRequest δ)) (ht : s.daemon.exc.threads[tid]? = some t)
    (hpc : t.pc.holds = true) : ∃ f, t.task.td.collect = .client f := by
  rw [filterMap_daemonEvent_toPool] at hlaws
  exact H.exc.client hp hlaws ht hpc

theorem able_of_reach (hn : 0 < n) (hfit : SlotsFit cap taskDataSize)
    (hr : (mainSystem δ ctx lib stray).Reach NoStop (.started n cap) h s) :
    s.daemon.Able (h.filterMap MainEvent.daemonEvent) := by
  refine Lts.Reach.invariant (P := fun h s => s.daemon.Able (h.filterMap MainEvent.daemonEvent))
    (Daemon.able_of_started hn cap) ?_ hr
  intro h s a s' es hr H hok hs
  rw [List.filterMap_append]
  rcases daemon_cases hs with ⟨hdaemon, hnone⟩ | ⟨b, hb, hsource⟩
  · rwa [hdaemon, hnone, List.append_nil]
  · obtain ⟨p, -, hlaws, hp⟩ := program_refines_pool hfit (hr.mono fun _ _ => trivial)
    obtain ⟨q, hq, -⟩ := hp.queue
    refine H.step hq (client_of_able H hp hlaws) (Daemon.step_cases hb) ?_ ?_
    · rintro wait rfl
      rcases hsource with ⟨rfl, -⟩ | ⟨line, sr, -, -, hsend⟩
      · exact hok wait rfl
      · cases hsend
    · rintro req rfl
      rcases hsource with ⟨-, hmay⟩ | ⟨line, sr, -, -, hsend⟩
      · cases hmay
      · cases hsend
        exact ⟨sr, rfl⟩

/-- A move of the daemon is a step of it. -/
theorem daemon_step {b : SamplerAction δ}
    (hs : (mainSystem δ ctx lib stray).step s (.daemon b) = some (s', es)) :
    ∃ es', (samplerSystem δ ctx).step s.daemon b = some (s'.daemon, es') := by
  change s.step ctx lib stray (.daemon b) = some (s', es) at hs
  simp only [step, Option.ite_none_right_eq_some, Option.map_eq_some_iff] at hs
  obtain ⟨-, r, hr, heq⟩ := hs
  have hdaemon := (resume_daemon s r).1
  rw [heq] at hdaemon
  refine ⟨r.2, ?_⟩
  rw [hdaemon]
  exact hr

/-- The main loop leaves the daemon to itself. -/
theorem exists_daemon_step {b : SamplerAction δ} {d : Daemon δ} {es' : List (SamplerEvent δ)}
    (hclosing : s.daemon.Closing answers b)
    (hs : (samplerSystem δ ctx).step s.daemon b = some (d, es')) :
    ∃ s' es, (mainSystem δ ctx lib stray).step s (.daemon b) = some (s', es) := by
  have hmay : s.mayMove b = true := by
    cases b with
    | send | stop | start => exact hclosing.elim
    | _ => rfl
  change s.daemon.step ctx b = some (d, es') at hs
  refine ⟨(s.resume (d, es')).1, (s.resume (d, es')).2, ?_⟩
  change s.step ctx lib stray (.daemon b) = _
  rw [step, if_pos hmay, hs]
  rfl

end MainLoop

variable {n cap N : ℕ} {h : List (MainEvent δ)} {s : MainLoop δ}

/-- **The program settles.** As long as nobody stops it, at most `s.work N` moves of its own are
left to it, in whatever order they come and whatever libvirt answers within the bound `N`, and short
of rest one of them is always possible. At rest the callback has returned, and every task that was
ever accepted has been taken and collected. -/
theorem main_loop_settles (hn : 0 < n) (hfit : SlotsFit cap taskDataSize) {answers : Env δ → Prop}
    (hanswers : ∃ env, answers env) (hwithin : ∀ env, answers env → env.Within N)
    (hr : (mainSystem δ ctx lib stray).Reach MainLoop.NoStop (.started n cap) h s) :
    (mainSystem δ ctx lib stray).Settles (MainLoop.Closing answers)
        (fun s => s.daemon.exc.AtRest) s (s.work N) ∧
      ∀ h' s', (mainSystem δ ctx lib stray).Reach (MainLoop.Closing answers) s h' s' →
        s'.daemon.exc.AtRest → s'.callback = none ∧
          ∃ p, (poolSystem SamplerWork SamplerCollect (VmonRequest δ) cap).Reach (fun _ => True)
              .empty ((h ++ h').filterMap MainEvent.toPool) p ∧
            p.queue = [] ∧
              ∀ j ∈ p.jobs, ∃ ret data timeout err, j.stage = .done ret data timeout err := by
  constructor
  · refine Lts.settles_of_measure (I := fun s => ∃ h,
      (mainSystem δ ctx lib stray).Reach MainLoop.NoStop (.started n cap) h s) ⟨h, hr⟩ ?_ ?_
    · rintro g s a s' es ⟨h, hr⟩ hclosing hs
      have hnext := hr.step (MainLoop.Closing.noStop (m := ⟨h, s, a⟩) hclosing) hs
      obtain ⟨b, rfl, hb⟩ := hclosing
      obtain ⟨p, -, -, hp⟩ := program_refines_pool hfit (hr.mono fun _ _ => trivial)
      obtain ⟨q, hq, -⟩ := hp.queue
      have H := MainLoop.able_of_reach hn hfit hr
      obtain ⟨es', hstep⟩ := MainLoop.daemon_step hs
      exact ⟨⟨_, hnext⟩, Daemon.work_lt hwithin H.exc hq H.fresh (Daemon.step_cases hstep) hb⟩
    · rintro g s ⟨h, hr⟩ hrest
      have H := MainLoop.able_of_reach hn hfit hr
      obtain ⟨env, henv⟩ := hanswers
      obtain ⟨b, d, es', hb, hstep⟩ :=
        Daemon.exists_step henv H.exc H.known H.placed H.staffed hrest
      obtain ⟨s', es, hs⟩ : ∃ s' es,
          (mainSystem δ ctx lib stray).step s (.daemon b) = some (s', es) :=
        MainLoop.exists_daemon_step hb hstep
      exact ⟨.daemon b, s', es, ⟨b, rfl, hb⟩, hs⟩
  · intro h' s' hr' hrest
    have hall : (mainSystem δ ctx lib stray).Reach (fun _ => True) (.started n cap) (h ++ h') s' :=
      (hr.trans hr' fun m hm => MainLoop.Closing.noStop (m := m) hm).mono fun _ _ => trivial
    obtain ⟨p, hreach, -, hp⟩ := program_refines_pool hfit hall
    refine ⟨?_, p, hreach, hrest.done hp⟩
    obtain ⟨moves, hrun, -⟩ := hall
    have hclient := MainLoop.oneClient_of_run hrun
    rw [MainLoop.OneClient, hrest.calls] at hclient
    cases hcallback : s'.callback with
    | none => rfl
    | some args => simp [hcallback] at hclient

/-- A request whose worker is about to list two domains. -/
theorem main_loop_settles_two_domains : ∃ (h : List (MainEvent ℕ)) (s : MainLoop ℕ),
    s.work 2 = 47 ∧
      ∃ h' s' p, (mainSystem ℕ sampleContext sampleLib fun _ => false).Reach
          (MainLoop.Closing (· = sampleEnv (some [0, 1]) none)) s h' s' ∧
        s'.daemon.exc.AtRest ∧ s'.callback = none ∧
          (poolSystem SamplerWork SamplerCollect (VmonRequest ℕ) 1).Reach (fun _ => True) .empty
            ((h ++ h').filterMap MainEvent.toPool) p ∧
          p.queue = [] ∧
            ∀ j ∈ p.jobs, ∃ ret data timeout err, j.stage = .done ret data timeout err := by
  obtain ⟨h, s, hr, hwork⟩ := Lts.exists_reach_of_exec
    (mainSystem ℕ sampleContext sampleLib fun _ => false)
    (fun m => match m.action with
      | .daemon (.stop _) => false
      | _ => true) (.started 1 1)
    ([MainAction.input (.normal (lit "\x7b\x7d\n")),
        .daemon (.call 0 (sampleEnv (some [0, 1]) none))] ++
      List.replicate 4 (MainAction.daemon (.thread 0)))
    (fun _ s => s.work 2 == 47) (by decide +kernel)
  have hstop : (mainSystem ℕ sampleContext sampleLib fun _ => false).Reach MainLoop.NoStop
      (.started 1 1) h s := by
    refine hr.mono fun m hm wait hstop => ?_
    rw [hstop] at hm
    cases hm
  have hwithin : ∀ env, env = sampleEnv (some [0, 1]) none → env.Within 2 := by
    rintro env rfl
    exact ⟨by rintro flags domains ⟨⟩; rfl, by rintro stats records ⟨⟩,
      by rintro domains stats records ⟨⟩⟩
  obtain ⟨hsettles, hdone⟩ := main_loop_settles Nat.one_pos
    (by decide : SlotsFit (1 : ℕ) taskDataSize)
    (⟨_, rfl⟩ : ∃ env, env = sampleEnv (some [0, 1]) none) hwithin hstop
  obtain ⟨h', s', hr', hrest⟩ := hsettles.exists_reach
  obtain ⟨hcallback, p, hreach, hqueue, hjobs⟩ := hdone h' s' hr' hrest
  exact ⟨h, s, beq_iff_eq.mp hwork, h', s', p, hr', hrest, hcallback, hreach, hqueue, hjobs⟩

end Vmon
