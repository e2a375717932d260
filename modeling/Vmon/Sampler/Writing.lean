import Vmon.Sampler.Framing
import Vmon.Sampler.Responses

/-!
# Responses and short writes

`write_response` hands a response to one call of `write` and does not look further than a warning
at how much of it was taken. Here the daemon runs with `write` free to take any part of a response,
or to fail. Since a response is one call, no other comes in between; but what a call does not take
is lost, and the task is reported as collected all the same (`responses_untorn_iff`).

## Main definitions

* `writeResponse` — the function.
* `WriterAction`, `WriterEvent`, `writerSystem` — the daemon, with what each `write` returns.
* `Untorn` — the promise.
* `TakesWhole` — the moves that keep it.
-/

namespace Vmon

variable {δ : Type}

/-- What `write` may return for a response. -/
def WriteReturns (response : Bytes) (ret : ℤ) : Prop := -1 ≤ ret ∧ ret ≤ response.length

instance (response : Bytes) (ret : ℤ) : Decidable (WriteReturns response ret) :=
  inferInstanceAs (Decidable (_ ∧ _))

/-- `write_response`, where `write` returns `ret`: the bytes that reach `out`, and the value
returned. -/
def writeResponse (response : Bytes) (ret : ℤ) : Bytes × ℤ := (response.take ret.toNat, 0)

/-- The thread that an event makes call `write_response`, with the bytes of the event. -/
def SamplerEvent.writer : SamplerEvent δ → Option ℕ
  | .response tid .. | .error tid .. => some tid
  | _ => none

/-- A step of the daemon, and what `write` returns if it is called in it. -/
structure WriterAction (δ : Type) where
  action : SamplerAction δ
  ret : ℤ

inductive WriterEvent (δ : Type)
  | daemon (e : SamplerEvent δ)
  /-- The thread called `write` for the response, and it returned `ret`. -/
  | wrote (tid : ℕ) (response : Bytes) (ret : ℤ)

namespace Writer

/-- An event of the daemon, and the call of `write` it stands for. -/
def emit (ret : ℤ) (e : SamplerEvent δ) : List (WriterEvent δ) :=
  .daemon e :: e.writer.toList.map fun tid => .wrote tid e.bytes ret

def step (ctx : VmonContext) (s : Daemon δ) (a : WriterAction δ) :
    Option (Daemon δ × List (WriterEvent δ)) :=
  (s.step ctx a.action).bind fun r =>
    if ∀ e ∈ r.2, e.writer.isSome = true → WriteReturns e.bytes a.ret then
      some (r.1, r.2.flatMap (emit a.ret))
    else none

end Writer

def writerSystem (δ : Type) (ctx : VmonContext) :
    Lts (Daemon δ) (WriterAction δ) (WriterEvent δ) := ⟨Writer.step ctx⟩

abbrev WriterMove (δ : Type) := Move (Daemon δ) (WriterAction δ) (WriterEvent δ)

/-- The bytes that arrived in `ctx->out`. -/
def arrived (h : List (WriterEvent δ)) : Bytes :=
  h.flatMap fun
    | .wrote _ response ret => (writeResponse response ret).1
    | .daemon _ => []

/-- The responses handed to `write_response`, in the order of the calls of `write`. -/
def responses (h : List (WriterEvent δ)) : List Bytes :=
  h.filterMap fun
    | .wrote _ response _ => some response
    | .daemon _ => none

/-- The thread reported its task as collected. -/
def CollectReturned (tid : ℕ) (h : List (WriterEvent δ)) : Prop :=
  ∃ ticket ret, .daemon (.exec (.collectReturned tid ticket ret)) ∈ h

/-- **The promise**: the output is the responses one after the other, each of them whole, and none
is cut short by a thread that reports its task as collected. -/
structure Untorn (h : List (WriterEvent δ)) : Prop where
  whole : arrived h = (responses h).flatten
  collected : ∀ (tid : ℕ) (response : Bytes) (ret : ℤ) (h₁ h₂ : List (WriterEvent δ)),
    h = h₁ ++ .wrote tid response ret :: h₂ → CollectReturned tid h₂ →
      (writeResponse response ret).1 = response

/-- `write` takes all bytes of the response that the move hands to it, if it hands it one. -/
def TakesWhole (ctx : VmonContext) (m : WriterMove δ) : Prop :=
  ∀ s' es, (samplerSystem δ ctx).step m.pre m.action.action = some (s', es) →
    ∀ e ∈ es, e.writer.isSome = true → m.action.ret.toNat = e.bytes.length

/-! ## One write in a step -/

section OneWrite

variable {ctx : VmonContext} {s s' : Daemon δ} {a : SamplerAction δ} {es : List (SamplerEvent δ)}

/-- The threads that write in some events. -/
def writers (es : List (SamplerEvent δ)) : List ℕ := es.filterMap SamplerEvent.writer

@[simp] theorem writers_append (es es' : List (SamplerEvent δ)) :
    writers (es ++ es') = writers es ++ writers es' := List.filterMap_append

@[simp] theorem writers_exec (es : List (ExecutorEvent δ)) : writers (es.map .exec) = [] := by
  induction es with
  | nil => rfl
  | cons e es ih => exact ih

theorem writers_freeDomain (tid : ℕ) (req : VmonRequest δ) :
    writers (Daemon.freeDomain tid req) = [] := by
  cases hdom : req.dom <;> simp [Daemon.freeDomain, hdom, writers, SamplerEvent.writer]

theorem length_writers_le (es : List (SamplerEvent δ)) : (writers es).length ≤ es.length :=
  List.length_filterMap_le _ _

theorem length_writers_afterDispatch (env : Env δ) {es : List (ExecutorEvent δ)}
    (hone : es.length ≤ 1) : (writers (es.flatMap (Daemon.afterDispatch env))).length ≤ 1 := by
  have hevent : ∀ e : ExecutorEvent δ, (writers (Daemon.afterDispatch env e)).length ≤ 1 := by
    intro e
    rcases e with ⟨_ | tid, args, ret⟩ | _ <;> try exact length_writers_le [_]
    simp only [Daemon.afterDispatch]
    split
    · exact Nat.le_refl 1
    · exact length_writers_le [_]
  rcases es with _ | ⟨e, _ | _⟩
  · exact Nat.zero_le _
  · rw [List.flatMap_singleton]
    exact hevent e
  · simp at hone

/-- **A step calls `write` once at most.** -/
theorem Daemon.Steps.one_write (hs : Daemon.Steps ctx s a s' es) : (writers es).length ≤ 1 := by
  have hlast : ∀ (e : SamplerEvent δ) (tid : ℕ) (req : VmonRequest δ) (es : List (ExecutorEvent δ)),
      (writers (e :: Daemon.freeDomain tid req ++ es.map .exec)).length ≤ 1 := by
    intro e tid req es
    rw [← List.singleton_append, writers_append, writers_append, writers_freeDomain, writers_exec,
      List.append_nil, List.append_nil]
    exact length_writers_le [e]
  cases hs with
  | thread => simp
  | outer => simp
  | call hs => exact length_writers_afterDispatch _ hs.length_le_one
  | query ht hpc hwork hframe hquery hs =>
    rw [writers_append, writers_exec, List.append_nil]
    exact (length_writers_le _).trans (by simp)
  | listFails ht hpc hwork hframe hlist hs =>
    rw [← List.singleton_append, writers_append, writers_exec, List.append_nil]
    exact length_writers_le [_]
  | list => exact length_writers_le [_]
  | listDispatch ht hpc hwork hframe hs => exact length_writers_afterDispatch _ hs.length_le_one
  | listReturn => simp
  | stopWork => simp
  | collectFails => exact hlast _ _ _ _
  | collectStart => exact Nat.zero_le _
  | collectRecord => exact length_writers_le [_]
  | collectEnd => exact hlast _ _ _ _
  | stopCollect => simp

end OneWrite

/-! ## Runs -/

section Runs

variable {ctx : VmonContext} {h h' : List (WriterEvent δ)}

/-- What `write` returned is what it may return. -/
def Returned (h : List (WriterEvent δ)) : Prop :=
  ∀ tid response ret, .wrote tid response ret ∈ h → WriteReturns response ret

/-- Every response was taken whole. -/
def AllWhole (h : List (WriterEvent δ)) : Prop :=
  ∀ tid response ret, .wrote tid response ret ∈ h → ret.toNat = response.length

@[simp] theorem arrived_daemon (e : SamplerEvent δ) (h : List (WriterEvent δ)) :
    arrived (.daemon e :: h) = arrived h := rfl

@[simp] theorem arrived_wrote (tid : ℕ) (response : Bytes) (ret : ℤ) (h : List (WriterEvent δ)) :
    arrived (.wrote tid response ret :: h) = response.take ret.toNat ++ arrived h := rfl

@[simp] theorem responses_daemon (e : SamplerEvent δ) (h : List (WriterEvent δ)) :
    responses (.daemon e :: h) = responses h := rfl

@[simp] theorem responses_wrote (tid : ℕ) (response : Bytes) (ret : ℤ)
    (h : List (WriterEvent δ)) :
    responses (.wrote tid response ret :: h) = response :: responses h := rfl

theorem Returned.tail {e : WriterEvent δ} (H : Returned (e :: h)) : Returned h :=
  fun tid response ret hmem => H tid response ret (List.mem_cons_of_mem _ hmem)

theorem allWhole_daemon {e : SamplerEvent δ} : AllWhole (.daemon e :: h) ↔ AllWhole h := by
  simp [AllWhole]

theorem allWhole_wrote {tid : ℕ} {response : Bytes} {ret : ℤ} :
    AllWhole (.wrote tid response ret :: h) ↔ ret.toNat = response.length ∧ AllWhole h := by
  constructor
  · intro H
    exact ⟨H tid response ret (by simp), fun tid response ret hmem =>
      H tid response ret (List.mem_cons_of_mem _ hmem)⟩
  · rintro ⟨hret, H⟩ tid' response' ret' hmem
    rcases List.mem_cons.mp hmem with heq | hmem
    · cases heq
      exact hret
    · exact H tid' response' ret' hmem

theorem arrived_length_le (h : List (WriterEvent δ)) :
    (arrived h).length ≤ (responses h).flatten.length := by
  induction h with
  | nil => simp [arrived]
  | cons e h ih =>
    cases e with
    | daemon e => exact ih
    | wrote tid response ret =>
      simp only [arrived_wrote, responses_wrote, List.flatten_cons, List.length_append,
        List.length_take]
      omega

/-- **The output is whole exactly if every response in it is**: what one call left out, no other
makes up for. -/
theorem arrived_eq_iff (H : Returned h) : arrived h = (responses h).flatten ↔ AllWhole h := by
  induction h with
  | nil => simp [arrived, responses, AllWhole]
  | cons e h ih =>
    cases e with
    | daemon e => exact (ih H.tail).trans allWhole_daemon.symm
    | wrote tid response ret =>
      have hret : WriteReturns response ret := H tid response ret (by simp)
      have hle : ret.toNat ≤ response.length := by
        have := hret.2
        omega
      rw [allWhole_wrote, arrived_wrote, responses_wrote, List.flatten_cons, ← ih H.tail]
      constructor
      · intro heq
        have hlength := congrArg List.length heq
        have hrest := arrived_length_le h
        simp only [List.length_append, List.length_take] at hlength
        have hwhole : ret.toNat = response.length := by omega
        rw [hwhole, List.take_length] at heq
        exact ⟨hwhole, List.append_cancel_left heq⟩
      · rintro ⟨hwhole, heq⟩
        rw [hwhole, List.take_length, heq]

theorem AllWhole.untorn (H : AllWhole h) (hret : Returned h) : Untorn h := by
  refine ⟨(arrived_eq_iff hret).mpr H, ?_⟩
  rintro tid response ret h₁ h₂ rfl -
  rw [writeResponse, H tid response ret (by simp), List.take_length]

theorem untorn_iff (hret : Returned h) : Untorn h ↔ AllWhole h := by
  constructor
  · intro H
    exact (arrived_eq_iff hret).mp H.whole
  · intro H
    exact H.untorn hret

theorem allWhole_append : AllWhole (h ++ h') ↔ AllWhole h ∧ AllWhole h' := by
  simp only [AllWhole, List.mem_append, or_imp, forall_and]

theorem Returned.append (H : Returned h) (H' : Returned h') : Returned (h ++ h') := by
  intro tid response ret hmem
  rcases List.mem_append.mp hmem with hmem | hmem
  · exact H tid response ret hmem
  · exact H' tid response ret hmem

theorem Writer.wrote_mem_emit {es : List (SamplerEvent δ)} {tid : ℕ} {response : Bytes}
    {ret ret' : ℤ} : .wrote tid response ret' ∈ es.flatMap (emit ret) ↔
      ∃ e ∈ es, e.writer = some tid ∧ e.bytes = response ∧ ret = ret' := by
  simp [emit, List.mem_flatMap]

/-- What one step of the daemon writes. -/
theorem Writer.step_writes {s s' : Daemon δ} {a : WriterAction δ} {es : List (WriterEvent δ)}
    (hs : (writerSystem δ ctx).step s a = some (s', es)) (h : List (WriterEvent δ)) :
    Returned es ∧ (AllWhole es ↔ TakesWhole ctx ⟨h, s, a⟩) := by
  change Writer.step ctx s a = some (s', es) at hs
  simp only [Writer.step, Option.bind_eq_some_iff] at hs
  obtain ⟨⟨t, es'⟩, hdaemon, hif⟩ := hs
  split at hif
  case isFalse => simp at hif
  case isTrue hreturns =>
    obtain ⟨rfl, rfl⟩ : t = s' ∧ es'.flatMap (emit a.ret) = es := by simpa using hif
    constructor
    · intro tid response ret hmem
      obtain ⟨e, he, hwriter, rfl, rfl⟩ := wrote_mem_emit.mp hmem
      exact hreturns e he (by simp [hwriter])
    · constructor
      · intro H u es hstep e he hwriter
        obtain ⟨rfl, rfl⟩ : t = u ∧ es' = es := by
          have heq := hdaemon.symm.trans hstep
          simpa using heq
        obtain ⟨tid, htid⟩ := Option.isSome_iff_exists.mp hwriter
        exact H tid e.bytes a.ret (wrote_mem_emit.mpr ⟨e, he, htid, rfl, rfl⟩)
      · intro H tid response ret hmem
        obtain ⟨e, he, hwriter, rfl, rfl⟩ := wrote_mem_emit.mp hmem
        exact H t es' hdaemon e he (by simp [hwriter])

end Runs

/-- **When no response is torn**: exactly as long as `write` takes all bytes of every response.
The threads may come in any order. -/
theorem responses_untorn_iff {ctx : VmonContext} {workersCount maxTasks : ℕ}
    {moves : List (WriterMove δ)} {h : List (WriterEvent δ)} {s : Daemon δ}
    (hr : (writerSystem δ ctx).Run (Daemon.started workersCount maxTasks) moves h s) :
    Untorn h ↔ ∀ m ∈ moves, TakesWhole ctx m := by
  have hrun : Returned h ∧ (AllWhole h ↔ ∀ m ∈ moves, TakesWhole ctx m) := by
    induction hr with
    | init => simp [Returned, AllWhole]
    | @step moves h s s' a es hr hs ih =>
      obtain ⟨hreturned, hwhole⟩ := ih
      obtain ⟨hreturned', hwhole'⟩ := Writer.step_writes hs h
      refine ⟨hreturned.append hreturned', ?_⟩
      rw [allWhole_append, hwhole, hwhole']
      simp [or_imp, forall_and]
  rw [untorn_iff hrun.1]
  exact hrun.2

/-! ## One request that fails -/

/-- A request whose listing fails, answered by two error responses. -/
private def failingSteps (env : Env ℕ) : List (SamplerAction ℕ) :=
  requestSteps env ++ [SamplerAction.thread 0, .work 0 env] ++
    List.replicate 4 (SamplerAction.thread 0) ++ [SamplerAction.collect 0 env]

/-- The same, where every `write` returns `ret`. -/
private def failingWrites (ret : ℤ) : List (WriterAction ℕ) :=
  (failingSteps (sampleEnv none none)).map fun a => ⟨a, ret⟩

theorem responses_untorn_iff_two_writes : ∃ (moves : List (WriterMove ℕ))
    (h : List (WriterEvent ℕ)) (s : Daemon ℕ),
    (writerSystem ℕ sampleContext).Run (Daemon.started 1 4) moves h s ∧
      (Untorn h ↔ ∀ m ∈ moves, TakesWhole sampleContext m) ∧ (responses h).length = 2 := by
  obtain ⟨moves, h, s, hr, -, hp⟩ := Lts.exists_run_of_trace
    (writerSystem ℕ sampleContext) (Daemon.started 1 4) (failingWrites 115)
    (fun _ h _ => decide ((responses h).length = 2)) (by decide +kernel)
  exact ⟨moves, h, s, hr, responses_untorn_iff hr, by simpa using hp⟩

/-- Of each of two responses one byte is taken, and the thread goes on to its next task. -/
theorem responses_untorn_fails : ∃ (moves : List (WriterMove ℕ)) (h : List (WriterEvent ℕ))
    (s : Daemon ℕ),
    (writerSystem ℕ sampleContext).Run (Daemon.started 1 4) moves h s ∧
      (arrived h).length = 2 ∧ (responses h).flatten.length = 230 ∧
      (∀ t ∈ s.exc.threads, t.pc = .waiting) ∧ ¬Untorn h := by
  obtain ⟨moves, h, s, hr, -, hp⟩ := Lts.exists_run_of_trace
    (writerSystem ℕ sampleContext) (Daemon.started 1 4) (failingWrites 1 ++ [⟨.thread 0, 1⟩])
    (fun _ h s => decide ((arrived h).length = 2) && decide ((responses h).flatten.length = 230) &&
      decide (∀ t ∈ s.exc.threads, t.pc = .waiting))
    (by decide +kernel)
  simp only [Bool.and_eq_true, decide_eq_true_eq] at hp
  obtain ⟨⟨harrived, hresponses⟩, hthreads⟩ := hp
  refine ⟨moves, h, s, hr, harrived, hresponses, hthreads, ?_⟩
  intro H
  rw [H.whole, hresponses] at harrived
  simp at harrived

end Vmon
