import Mathlib.Data.UInt
import Vmon.MainLoop.Answers

/-!
# Polling

With a polling period, `vmon_setup_io` of `src/vmon_int.c` installs no watch on the standard
input. A timeout source sends a request of its own every period, for all statistics, under an id
that `uuid_generate` makes up. Nothing quits the main loop then, and a poll that finds the queue
full costs that poll only, where the same error ends the service of the watch.

## Main definitions

* `PollLoop`, `PollEvent`, `PollAction`, `pollSystem` — the system.
* `pollLibvirt` — the function of the source.
* `PollsCounted` — what the counter of the loops says.
-/

namespace Vmon

variable {δ : Type} {ctx : VmonContext}

/-! ## The system -/

/-- The daemon under its main loop, with a polling source in place of the watch. -/
structure PollLoop (δ : Type) where
  daemon : Daemon δ
  /-- The call of `executor_dispatch` that `poll_libvirt` is inside. -/
  callback : Option (SamplerArgs δ)
  counter : UInt64

/-- What the steps make visible. -/
inductive PollEvent (δ : Type)
  | daemon (e : SamplerEvent δ)
  /-- "polling libvirt: loop", with the counter before it. -/
  | polled (loop : UInt64)
  /-- "error polling libvirt". -/
  | failed (err : ℤ)

/-- What moves next, and what the environment answers. -/
inductive PollAction (δ : Type)
  /-- The polling source fires; `uuid` is what `uuid_generate` returned. -/
  | poll (uuid : Uuid)
  /-- A part of the daemon moves, or the call that the callback is inside. -/
  | daemon (a : SamplerAction δ)

namespace PollLoop

def started (workersCount maxTasks : ℕ) : PollLoop δ :=
  { daemon := .started workersCount maxTasks, callback := none, counter := 0 }

/-- The rest of `poll_libvirt` after `sampler_send_request` returned `err`. It keeps the source
in either case. -/
def polled (s : PollLoop δ) (err : ℤ) : PollLoop δ × List (PollEvent δ) :=
  if err ≠ 0 then ({ s with callback := none }, [.failed err])
  else ({ s with callback := none, counter := s.counter + 1 }, [.polled s.counter])

/-- A step of the daemon, and the rest of the callback where its call returns. -/
def resume (s : PollLoop δ) (r : Daemon δ × List (SamplerEvent δ)) :
    PollLoop δ × List (PollEvent δ) :=
  match MainLoop.dispatchReturn r.2 with
  | none => ({ s with daemon := r.1 }, r.2.map .daemon)
  | some err =>
    let q := polled { s with daemon := r.1 } err
    (q.1, r.2.map .daemon ++ q.2)

/-- The request of a poll. -/
def pollRequest (uuid : Uuid) : VmonRequest δ := .ofSample { uuid := uuid, stats := 0 }

/-- `poll_libvirt`, up to the put of the request. -/
def pollLibvirt (ctx : VmonContext) (s : PollLoop δ) (uuid : Uuid) :
    Option (PollLoop δ × List (PollEvent δ)) :=
  (s.daemon.pass (.dispatch .client (samplerSendRequest ctx (pollRequest uuid)))).map
    ({ s with callback := some (samplerSendRequest ctx (pollRequest uuid)) }).resume

/-- The main loop started the executor before it runs, it stops it only after it was told to
quit, which nobody does here, and it sends nothing but the polls. -/
def mayMove : SamplerAction δ → Bool
  | .send _ | .start _ | .stop _ => false
  | _ => true

def step (ctx : VmonContext) (s : PollLoop δ) :
    PollAction δ → Option (PollLoop δ × List (PollEvent δ))
  | .poll uuid => if s.callback.isNone then s.pollLibvirt ctx uuid else none
  | .daemon a => if mayMove a then (s.daemon.step ctx a).map s.resume else none

end PollLoop

def pollSystem (δ : Type) (ctx : VmonContext) : Lts (PollLoop δ) (PollAction δ) (PollEvent δ) :=
  ⟨PollLoop.step ctx⟩

/-! ## The counter -/

/-- The loop that the event reports. -/
def PollEvent.loop : PollEvent δ → Option UInt64
  | .polled loop => some loop
  | _ => none

/-- The put of a poll found room. -/
def PollEvent.isAccepted : PollEvent δ → Bool
  | .daemon (.exec (.dispatched .client _ ret)) => ret == 0
  | _ => false

/-- The polls that were accepted are counted, each with the next number, and the executor goes on
whatever came of the others: these found the queue full. -/
structure PollsCounted (h : List (PollEvent δ)) (s : PollLoop δ) : Prop where
  loops : h.filterMap PollEvent.loop = (List.range (h.countP PollEvent.isAccepted)).map Nat.toUInt64
  counter : s.counter = (h.countP PollEvent.isAccepted).toUInt64
  failed : ∀ err, .failed err ∈ h → err = -1
  /-- The executor runs, nobody stops it, and the callback is inside the one call of the main
  thread, or returned. -/
  serving : s.daemon.exc.Serving s.callback

namespace PollsCounted

variable {h es : List (PollEvent δ)} {s s' : PollLoop δ}

/-- A step of the daemon in which the call of the callback does not return. -/
theorem frame (H : PollsCounted h s) (es : List (SamplerEvent δ))
    (hes : MainLoop.dispatchReturn es = none) (hcounter : s'.counter = s.counter)
    (hserving : s'.daemon.exc.Serving s'.callback) :
    PollsCounted (h ++ es.map .daemon) s' := by
  have hcount : (es.map PollEvent.daemon).countP PollEvent.isAccepted = 0 := by
    rw [List.countP_eq_zero]
    intro e he haccepted
    obtain ⟨e', he', rfl⟩ := List.mem_map.mp he
    have hnone := List.findSome?_eq_none_iff.mp hes e' he'
    unfold PollEvent.isAccepted at haccepted
    split at haccepted <;> simp_all
  have hloops : (es.map PollEvent.daemon).filterMap PollEvent.loop = [] := by
    simp [List.filterMap_map, PollEvent.loop]
  refine ⟨?_, ?_, ?_, hserving⟩
  · rw [List.filterMap_append, hloops, List.append_nil, H.loops, List.countP_append, hcount,
      Nat.add_zero]
  · rw [hcounter, H.counter, List.countP_append, hcount, Nat.add_zero]
  · intro err herr
    rcases List.mem_append.mp herr with herr | herr
    · exact H.failed err herr
    · simp at herr

/-- The queue had room. -/
theorem accept (H : PollsCounted h s) {d : Daemon δ} (hserving : d.exc.Serving none)
    (args : SamplerArgs δ) :
    PollsCounted (h ++ [.daemon (.exec (.dispatched .client args 0)), .polled s.counter])
      { daemon := d, callback := none, counter := s.counter + 1 } := by
  have hcount : (h ++ [PollEvent.daemon (.exec (.dispatched .client args 0)),
      .polled s.counter]).countP PollEvent.isAccepted = h.countP PollEvent.isAccepted + 1 := by
    simp [List.countP_append, PollEvent.isAccepted]
  refine ⟨?_, ?_, ?_, hserving⟩
  · rw [hcount, List.range_succ, List.map_append, ← H.loops, List.filterMap_append,
      List.map_singleton, ← H.counter]
    rfl
  · rw [hcount, H.counter]
    exact (UInt64.ofNat_add _ 1).symm
  · simpa using H.failed

/-- The queue was full. -/
theorem refuse (H : PollsCounted h s) {d : Daemon δ} (hserving : d.exc.Serving none)
    (args : SamplerArgs δ) :
    PollsCounted (h ++ [.daemon (.exec (.dispatched .client args (-1))), .failed (-1)])
      { daemon := d, callback := none, counter := s.counter } := by
  have hcount : (h ++ [PollEvent.daemon (.exec (.dispatched .client args (-1))),
      .failed (-1)]).countP PollEvent.isAccepted = h.countP PollEvent.isAccepted := by
    simp [List.countP_append, PollEvent.isAccepted]
  refine ⟨?_, ?_, ?_, hserving⟩
  · rw [hcount, ← H.loops, List.filterMap_append]
    exact List.append_nil _
  · rw [hcount, H.counter]
  · intro err herr
    rcases List.mem_append.mp herr with herr | herr
    · exact H.failed err herr
    · simpa using herr

variable {a : PollAction δ}

/-- **A poll costs itself at most.** -/
theorem step (H : PollsCounted h s) (hs : (pollSystem δ ctx).step s a = some (s', es)) :
    PollsCounted (h ++ es) s' := by
  change s.step ctx a = some (s', es) at hs
  cases a with
  | poll uuid =>
    simp only [PollLoop.step, Option.ite_none_right_eq_some, Option.isNone_iff_eq_none] at hs
    obtain ⟨hidle, hs⟩ := hs
    have hserving := H.serving
    rw [hidle] at hserving
    obtain ⟨d, hpass, hd⟩ := MainLoop.pass_dispatch ctx hserving (PollLoop.pollRequest uuid)
    simp only [PollLoop.pollLibvirt, hpass, Option.map_some, Option.some.injEq] at hs
    obtain ⟨rfl, rfl⟩ := Prod.mk.inj hs
    exact H.frame [] rfl rfl hd
  | daemon b =>
    simp only [PollLoop.step, Option.ite_none_right_eq_some, Option.map_eq_some_iff] at hs
    obtain ⟨hmay, ⟨d, es'⟩, hstep, heq⟩ := hs
    have hothers : (∀ req, b ≠ .send req) ∧ (∀ wait, b ≠ .stop wait) ∧
        ∀ created, b ≠ .start created := by
      refine ⟨?_, ?_, ?_⟩ <;> rintro _ rfl <;> cases hmay
    have hsteps := @Daemon.step_cases _ ctx _ _ _ _ hstep
    rcases hsteps.serving H.serving hothers.1 hothers.2.1 hothers.2.2 with
      ⟨H', hnone, -⟩ | ⟨i, env, args, -, -, -, H', rfl⟩
    · simp only [PollLoop.resume, hnone, Prod.mk.injEq] at heq
      obtain ⟨rfl, rfl⟩ := heq
      exact H.frame es' hnone rfl H'
    · cases hfull : rbIsFull s.daemon.exc.tasks with
      | false =>
        rw [ringbufferPut_of_not_full hfull] at heq
        obtain ⟨rfl, rfl⟩ := Prod.mk.inj heq
        exact H.accept H' args
      | true =>
        have hput : (ringbufferPut s.daemon.exc.tasks (dispatchTask args)).2 = -1 := by
          simp [ringbufferPut, hfull]
        rw [hput] at heq
        obtain ⟨rfl, rfl⟩ := Prod.mk.inj heq
        exact H.refuse H' args

end PollsCounted

/-- **Polling goes on.** In every run the accepted polls are counted one by one, a poll fails on
a full queue only, and no failure stops the executor or the source. -/
theorem polling_counts {n cap : ℕ} {h : List (PollEvent δ)} {s : PollLoop δ}
    (hr : (pollSystem δ ctx).Reach (fun _ => True) (.started n cap) h s) : PollsCounted h s := by
  refine Lts.Reach.invariant ?_ (fun _ _ _ _ _ _ H _ hs => H.step hs) hr
  exact ⟨rfl, rfl, by simp, Executor.Serving.of_started _ _⟩

/-- Two polls, and room for one. -/
theorem polling_counts_two_polls : ∃ (h : List (PollEvent ℕ)) (s : PollLoop ℕ),
    h.countP PollEvent.isAccepted = 1 ∧ s.counter = 1 ∧ PollsCounted h s := by
  obtain ⟨h, s, hr, hp⟩ := Lts.exists_reach_of_exec (pollSystem ℕ sampleContext) (fun _ => true)
    (.started 1 1) (List.replicate 2 [PollAction.poll (Vector.replicate 16 0),
      PollAction.daemon (.call 0 reportEnv)]).flatten
    (fun h s => h.countP PollEvent.isAccepted == 1 && s.counter == 1) (by decide +kernel)
  simp only [Bool.and_eq_true, beq_iff_eq] at hp
  exact ⟨h, s, hp.1, hp.2, polling_counts (hr.mono fun _ _ => trivial)⟩

end Vmon
