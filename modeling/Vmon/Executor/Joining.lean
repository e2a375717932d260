import Vmon.Executor.Codes

/-!
# What a waiting stop waits for

`executor_stop` with `wait` joins the worker of each slot, one after the other, and keeps
the result of the last join only. A slot whose worker is busy is not joined, and a thread is
joined only if its handle is in its slot when the loop comes there: a thread that was
replaced has lost its handle, and a slot that was joined is not looked at again.

To speak of the joins of one call, the system here records, for each call in flight, the
calls of `worker_join` that returned to it.

## Main definitions

* `Joining`, `joiningSystem` — the executor with that record; `exists_joining_run`.
* `HonestStop` — what the return value of a waiting stop says of the threads.
* `Executor.Covered` — the stop joined every thread that was left.
* `stop_joins_iff` — exactly then it is honest.
-/

namespace Vmon

variable {ι β : Type}

/-! ## The joins of a call -/

/-- A call of `worker_join` that returned: its value, and the thread that it joined. It joins
none where it finds the worker busy. -/
structure Join where
  ret : ℤ
  thread : Option ℕ

/-- The thread that a call of `worker_join` waits for. -/
def JoinPhase.thread : JoinPhase → Option ℕ
  | .blocked tid => some tid
  | .testing | .passing => none

/-- The executor, and the joins of each of its calls so far. -/
structure Joining (ι β : Type) where
  exc : Executor ι β
  joins : List (List Join)

/-- The join that a step of `worker_join` for slot `j` ends, if it ends one. -/
def Executor.endedJoin (s : Executor ι β) (wait : Bool) (j : ℕ) (phase : JoinPhase) : List Join :=
  match (s.workers[j]?).bind fun w => s.workerJoin w wait phase with
  | some (.inr ret) => [⟨ret, phase.thread⟩]
  | some (.inl _) | none => []

/-- The record after a step. -/
def Joining.record [Payload β] (x : Joining ι β) : Action ι β → List (List Join)
  | .dispatch _ args =>
    match Executor.dispatchCheck x.exc.running args with
    | .error _ => x.joins
    | .ok _ => x.joins ++ [[]]
  | .stop _ => x.joins ++ [[]]
  | .call i =>
    match x.exc.calls[i]? with
    | some (.stop wait (.joining j _ phase)) =>
      x.joins.modify i (· ++ x.exc.endedJoin wait j phase)
    | some (.stop _ (.putting _)) => x.joins
    | some (.stop _ (.clearing _)) | some (.dispatch ..) | none => x.joins.eraseIdx i
  | _ => x.joins

def Joining.step [Payload β] (x : Joining ι β) (a : Action ι β) :
    Option (Joining ι β × List (Event ι β)) :=
  (x.exc.step a).map fun r => (⟨r.1, x.record a⟩, r.2)

def joiningSystem (ι β : Type) [Payload β] : Lts (Joining ι β) (Action ι β) (Event ι β) :=
  ⟨Joining.step⟩

abbrev JoiningMove (ι β : Type) := Move (Joining ι β) (Action ι β) (Event ι β)

/-- The record is no part of the executor: every run has one. -/
theorem exists_joining_run [Payload β] {s₀ s : Executor ι β}
    {moves : List (Move (Executor ι β) (Action ι β) (Event ι β))} {h : List (Event ι β)}
    (hr : (executorSystem ι β).Run s₀ moves h s) (joins : List (List Join)) :
    ∃ (moves' : List (JoiningMove ι β)) (joins' : List (List Join)),
      (joiningSystem ι β).Run ⟨s₀, joins⟩ moves' h ⟨s, joins'⟩ ∧
        moves'.map (fun m => ⟨m.hist, m.pre.exc, m.action⟩) = moves := by
  induction hr with
  | init => exact ⟨[], joins, .init, rfl⟩
  | @step moves h s s' a es hrun hs ih =>
    obtain ⟨moves', joins', hr', heq⟩ := ih
    have hstep : (joiningSystem ι β).step ⟨s, joins'⟩ a =
        some (⟨s', Joining.record ⟨s, joins'⟩ a⟩, es) := by
      change (s.step a).map _ = _
      rw [show s.step a = some (s', es) from hs]
      rfl
    exact ⟨_, _, hr'.step hstep, by simp [heq]⟩

/-! ## The promise and the condition -/

/-- Thread `tid` has ended. -/
def Executor.Ended (s : Executor ι β) (tid : ℕ) : Prop :=
  (s.threads[tid]?).map Thread.pc = some .exited

/-- A call of `executor_stop` with `wait` that returns `0` leaves no thread behind, and one
that could not join a worker does not return `0`. -/
def HonestStop (m : JoiningMove ι β) : Prop :=
  match m.action with
  | .call i => ∀ err, m.pre.exc.calls[i]? = some (.stop true (.clearing err)) →
      ∃ joins, m.pre.joins[i]? = some joins ∧
        (err = 0 → ∀ t ∈ m.pre.exc.threads, t.pc = .exited) ∧
          ((∃ e ∈ joins, e.ret ≠ 0) → err ≠ 0)
  | _ => True

/-- The worker of the last slot was busy when the loop came to it; or none was, and every
thread that the loop did not join has ended. -/
def Executor.Covered (s : Executor ι β) (joins : List Join) : Prop :=
  (∃ e ∈ joins.getLast?, e.thread = none) ∨
    ((∀ e ∈ joins, e.thread ≠ none) ∧
      ∀ tid < s.threads.length, (∀ e ∈ joins, e.thread ≠ some tid) → s.Ended tid)

/-- A call of `executor_stop` with `wait` that is about to return. -/
def Call.leavesStop : Call ι β → Bool
  | .stop true (.clearing _) => true
  | _ => false

/-- Where a waiting stop returns, its joins cover the threads. -/
def CoversThreads (m : JoiningMove ι β) : Prop :=
  match m.action with
  | .call i => ∀ c ∈ m.pre.exc.calls[i]?, c.leavesStop = true →
      ∀ joins ∈ m.pre.joins[i]?, m.pre.exc.Covered joins
  | _ => True

instance (s : Executor ι β) (tid : ℕ) : Decidable (s.Ended tid) :=
  inferInstanceAs (Decidable (_ = _))

instance (s : Executor ι β) (joins : List Join) : Decidable (s.Covered joins) :=
  inferInstanceAs (Decidable (_ ∨ _ ∧ _))

instance (m : JoiningMove ι β) : Decidable (CoversThreads m) :=
  match m with
  | ⟨_, x, .call i⟩ => inferInstanceAs (Decidable (∀ c ∈ x.exc.calls[i]?, c.leavesStop = true →
      ∀ joins ∈ x.joins[i]?, x.exc.Covered joins))
  | ⟨_, _, .fire ..⟩ | ⟨_, _, .start _⟩ | ⟨_, _, .thread _⟩ | ⟨_, _, .workReturn ..⟩
  | ⟨_, _, .collectReturn ..⟩ | ⟨_, _, .dispatch ..⟩ | ⟨_, _, .stop _⟩ =>
    inferInstanceAs (Decidable True)

/-! ## An ended thread stays so -/

namespace Executor

variable {s s' : Executor ι β}

theorem ended_iff {tid : ℕ} : s.Ended tid ↔ (s.threads.map Thread.pc)[tid]? = some .exited := by
  rw [Ended, List.getElem?_map]

/-- One thread that has not ended moved. -/
theorem Ended.set {tid j : ℕ} (H : s.Ended tid) {t t' : Thread ι β} (ht : s.threads[j]? = some t)
    (hpc : t.pc ≠ .exited) (hthreads : s'.threads = s.threads.set j t') : s'.Ended tid := by
  have hne : j ≠ tid := by
    rintro rfl
    rw [Ended, ht, Option.map_some, Option.some.injEq] at H
    exact hpc H
  rwa [Ended, hthreads, List.getElem?_set_ne hne]

/-- The threads are as far as they were, and some follow. -/
theorem Ended.append {tid : ℕ} (H : s.Ended tid) {pcs : List Pc}
    (hpcs : s'.threads.map Thread.pc = s.threads.map Thread.pc ++ pcs) : s'.Ended tid := by
  rw [ended_iff] at H ⊢
  have hlt := (List.getElem?_eq_some_iff.mp H).1
  rw [hpcs, List.getElem?_append_left hlt, H]

theorem Steps.ended [Payload β] {a : Action ι β} {es : List (Event ι β)} (hs : s.Steps a s' es)
    {tid : ℕ} (H : s.Ended tid) : s'.Ended tid := by
  have hlive : ∀ {t : Thread ι β} {pc : Pc}, t.pc = pc → pc ≠ .exited → t.pc ≠ .exited := by
    intro t pc hpc hne
    rwa [hpc]
  have hget : ∀ {t : Thread ι β}, t.pc = .get ∨ t.pc = .waiting → t.pc ≠ .exited := by
    intro t hpc
    rcases hpc with hpc | hpc <;> simp [hpc]
  cases hs with
  | wait ht hpc => exact H.set ht (hget hpc) rfl
  | take ht hpc => exact H.set ht (hget hpc) rfl
  | takeUndefined ht hpc => exact H.set ht (hget hpc) rfl
  | arm ht hpc => exact H.set ht (hlive hpc (by decide)) rfl
  | skipTimer ht hpc => exact H.set ht (hlive hpc (by decide)) rfl
  | setCurrent ht hpc => exact H.set ht (hlive hpc (by decide)) rfl
  | callWork ht hpc => exact H.set ht (hlive hpc (by decide)) rfl
  | returnWork ht hpc => exact H.set ht (hlive hpc (by decide)) rfl
  | clearCurrent ht hpc => exact H.set ht (hlive hpc (by decide)) rfl
  | keepTimer ht hpc => exact H.set ht (hlive hpc (by decide)) rfl
  | dropTimer ht hpc => exact H.set ht (hlive hpc (by decide)) rfl
  | deleteTimer ht hpc => exact H.set ht (hlive hpc (by decide)) rfl
  | callCollect ht hpc => exact H.set ht (hlive hpc (by decide)) rfl
  | loop ht hpc => exact H.set ht (hlive hpc (by decide)) rfl
  | exit ht hpc => exact H.set ht (hlive hpc (by decide)) rfl
  | @fire id created tm w =>
    obtain ⟨pcs, hpcs, -⟩ := workerDiscard_pcs s w created
    exact H.append hpcs
  | @start created =>
    obtain ⟨workers, heq, -⟩ := startLoop_eq { s with running := true } 0 0 created
    rw [heq]
    exact H.append List.map_append
  | _ => exact H

/-- What a join says of the thread it joined: `0` if it has ended, and not `0` if there is
none. -/
def Tells (s : Executor ι β) (e : Join) : Prop :=
  match e.thread with
  | some tid => e.ret = 0 ∧ s.Ended tid
  | none => e.ret ≠ 0

theorem Tells.mono {e : Join} (H : s.Tells e) (hended : ∀ tid, s.Ended tid → s'.Ended tid) :
    s'.Tells e := by
  unfold Tells at H ⊢
  split at H
  · exact ⟨H.1, hended _ H.2⟩
  · exact H

/-- A join that ends tells what became of the thread. -/
theorem tells_endedJoin {wait : Bool} {j : ℕ} {phase : JoinPhase} {e : Join}
    (he : e ∈ s.endedJoin wait j phase) : s.Tells e := by
  unfold endedJoin at he
  split at he
  · rename_i ret hjoin
    obtain rfl := List.mem_singleton.mp he
    obtain ⟨w, -, hjoin⟩ := Option.bind_eq_some_iff.mp hjoin
    cases phase with
    | testing =>
      simp only [workerJoin, Option.some.injEq] at hjoin
      split at hjoin
      · obtain rfl : -1 = ret := by simpa using hjoin
        simp [Tells, JoinPhase.thread]
      · cases hjoin
    | passing =>
      obtain ⟨tid, -, hjoin⟩ := Option.map_eq_some_iff.mp hjoin
      cases hjoin
    | blocked tid =>
      simp only [workerJoin] at hjoin
      split at hjoin
      · obtain rfl : 0 = ret := by simpa using hjoin
        exact ⟨rfl, by assumption⟩
      · cases hjoin
  · cases he
  · cases he

end Executor

/-! ## The invariant -/

/-- The result a call has so far. -/
def StopPhase.err : StopPhase → ℤ
  | .putting _ => 0
  | .joining _ err _ | .clearing err => err

/-- The value of the last join, or `0`. -/
def lastRet (joins : List Join) : ℤ := (joins.getLast?.map Join.ret).getD 0

/-- The result of a waiting stop is the one of its last join. -/
structure Joining.Sound (x : Joining ι β) : Prop where
  length_eq : x.joins.length = x.exc.calls.length
  err : ∀ (i : ℕ) (phase : StopPhase) (joins : List Join),
    x.exc.calls[i]? = some (.stop true phase) → x.joins[i]? = some joins →
      phase.err = lastRet joins
  tells : ∀ joins ∈ x.joins, ∀ e ∈ joins, x.exc.Tells e

namespace Joining

variable {x x' : Joining ι β}

/-- A step, of which each call in flight is an old one, or agrees with its joins for another
reason. -/
theorem Sound.frame (H : x.Sound) (hended : ∀ tid, x.exc.Ended tid → x'.exc.Ended tid)
    (hlen : x'.joins.length = x'.exc.calls.length)
    (hcalls : ∀ (i : ℕ) (phase : StopPhase) (joins : List Join),
      x'.exc.calls[i]? = some (.stop true phase) → x'.joins[i]? = some joins →
        (∃ j : ℕ, x.exc.calls[j]? = some (.stop true phase) ∧ x.joins[j]? = some joins) ∨
          phase.err = lastRet joins)
    (htells : ∀ joins ∈ x'.joins, ∀ e ∈ joins, (∃ joins ∈ x.joins, e ∈ joins) ∨ x'.exc.Tells e) :
    x'.Sound where
  length_eq := hlen
  err i phase joins hcall hjoins := by
    rcases hcalls i phase joins hcall hjoins with ⟨j, hold, holdJoins⟩ | hnew
    · exact H.err j phase joins hold holdJoins
    · exact hnew
  tells joins hjoins e he := by
    rcases htells joins hjoins e he with ⟨old, hold, heold⟩ | hnew
    · exact (H.tells old hold e heold).mono hended
    · exact hnew

/-- The calls and their joins are as before. -/
theorem Sound.sameCalls (H : x.Sound) (hended : ∀ tid, x.exc.Ended tid → x'.exc.Ended tid)
    (hcalls : x'.exc.calls = x.exc.calls) (hjoins : x'.joins = x.joins) : x'.Sound := by
  apply H.frame hended
  · rw [hcalls, hjoins, H.length_eq]
  · intro i phase joins hcall hjoin
    exact .inl ⟨i, hcalls ▸ hcall, hjoins ▸ hjoin⟩
  · intro joins hmem e he
    exact .inl ⟨joins, hjoins ▸ hmem, he⟩

/-- A call enters. -/
theorem Sound.enter (H : x.Sound) (hended : ∀ tid, x.exc.Ended tid → x'.exc.Ended tid)
    {c : Call ι β} (hcalls : x'.exc.calls = x.exc.calls ++ [c])
    (hjoins : x'.joins = x.joins ++ [[]])
    (hfresh : ∀ phase, c = .stop true phase → phase.err = 0) : x'.Sound := by
  apply H.frame hended
  · rw [hcalls, hjoins, List.length_append, List.length_append, H.length_eq]
    rfl
  · intro i phase joins hcall hjoin
    rw [hcalls, List.getElem?_append] at hcall
    rw [hjoins, List.getElem?_append, H.length_eq] at hjoin
    split at hcall
    · rename_i hlt
      rw [if_pos hlt] at hjoin
      exact .inl ⟨i, hcall, hjoin⟩
    · rename_i hge
      rw [if_neg hge, List.getElem?_singleton] at hjoin
      rw [List.getElem?_singleton] at hcall
      split at hcall
      · rename_i hzero
        rw [if_pos hzero, Option.some.injEq] at hjoin
        right
        rw [← hjoin, hfresh phase (Option.some.inj hcall)]
        rfl
      · cases hcall
  · intro joins hmem e he
    rw [hjoins] at hmem
    rcases List.mem_append.mp hmem with hmem | hmem
    · exact .inl ⟨joins, hmem, he⟩
    · rw [List.mem_singleton.mp hmem] at he
      cases he

/-- A call returns. -/
theorem Sound.leave (H : x.Sound) (hended : ∀ tid, x.exc.Ended tid → x'.exc.Ended tid) {i : ℕ}
    (hcalls : x'.exc.calls = x.exc.calls.eraseIdx i) (hjoins : x'.joins = x.joins.eraseIdx i) :
    x'.Sound := by
  apply H.frame hended
  · rw [hcalls, hjoins, List.length_eraseIdx, List.length_eraseIdx, H.length_eq]
  · intro k phase joins hcall hjoin
    rw [hcalls, List.getElem?_eraseIdx] at hcall
    rw [hjoins, List.getElem?_eraseIdx] at hjoin
    split at hcall
    · rename_i hlt
      rw [if_pos hlt] at hjoin
      exact .inl ⟨k, hcall, hjoin⟩
    · rename_i hge
      rw [if_neg hge] at hjoin
      exact .inl ⟨k + 1, hcall, hjoin⟩
  · intro joins hmem e he
    rw [hjoins] at hmem
    exact .inl ⟨joins, List.mem_of_mem_eraseIdx hmem, he⟩

/-- A call of `executor_stop` goes on, after the joins `new`. -/
theorem Sound.goOn (H : x.Sound) (hended : ∀ tid, x.exc.Ended tid → x'.exc.Ended tid) {i : ℕ}
    {wait : Bool} {phase phase' : StopPhase} (hcall : x.exc.calls[i]? = some (.stop wait phase))
    (hcalls : x'.exc.calls = x.exc.calls.set i (.stop wait phase')) (new : List Join)
    (hjoins : x'.joins = x.joins.modify i (· ++ new)) (htells : ∀ e ∈ new, x.exc.Tells e)
    (herr : ∀ joins, phase.err = lastRet joins → phase'.err = lastRet (joins ++ new)) :
    x'.Sound := by
  apply H.frame hended
  · rw [hcalls, hjoins, List.length_set, List.length_modify, H.length_eq]
  · intro k phase₁ joins hcall₁ hjoin
    rw [hcalls, getElem?_set_some hcall] at hcall₁
    rw [hjoins, getElem?_modify_some] at hjoin
    rcases hcall₁ with ⟨rfl, heq⟩ | ⟨hne, hcall₁⟩
    · cases heq
      rcases hjoin with ⟨-, old, hold, rfl⟩ | ⟨hne, -⟩
      · exact .inr (herr old (H.err _ _ _ hcall hold))
      · exact absurd rfl hne
    · rcases hjoin with ⟨rfl, -⟩ | ⟨-, hjoin⟩
      · exact absurd rfl hne
      · exact .inl ⟨k, hcall₁, hjoin⟩
  · intro joins hmem e he
    obtain ⟨k, hk⟩ := List.getElem?_of_mem hmem
    rw [hjoins, getElem?_modify_some] at hk
    rcases hk with ⟨-, old, hold, rfl⟩ | ⟨-, hk⟩
    · rcases List.mem_append.mp he with he | he
      · exact .inl ⟨old, List.mem_of_getElem? hold, he⟩
      · exact .inr ((htells e he).mono hended)
    · exact .inl ⟨joins, List.mem_of_getElem? hk, he⟩

/-! ### Steps -/

variable [Payload β] {s' : Executor ι β} {es : List (Event ι β)}

/-- A call that put a task, joined a worker or returned. -/
theorem Sound.call (H : x.Sound) {i : ℕ}
    (hs : (executorSystem ι β).step x.exc (.call i) = some (s', es)) :
    Sound ⟨s', x.record (.call i)⟩ := by
  have hended : ∀ tid, x.exc.Ended tid → s'.Ended tid :=
    fun _ => (Executor.step_cases hs).ended
  have hkeep : x.joins = x.joins.modify i (· ++ []) := by
    simp only [List.append_nil]
    exact (List.modify_id _ _).symm
  simp only [executorSystem, Executor.step, Option.bind_eq_some_iff] at hs
  obtain ⟨c, hcall, hs⟩ := hs
  cases c with
  | dispatch caller args =>
    simp only [Executor.callStep, Option.some.injEq, Prod.mk.injEq] at hs
    apply H.leave hended
    · rw [← hs.1]
    · simp [record, hcall]
  | stop wait phase =>
    cases phase with
    | putting j =>
      have hjoins : x.record (.call i) = x.joins.modify i (· ++ []) := by
        rw [← hkeep]
        simp [record, hcall]
      simp only [Executor.callStep] at hs
      split at hs
      · simp only [Option.some.injEq, Prod.mk.injEq] at hs
        exact H.goOn hended hcall (by rw [← hs.1]) [] hjoins (by simp) (by simp [StopPhase.err])
      · simp only [Option.some.injEq, Prod.mk.injEq] at hs
        refine H.goOn hended hcall (by rw [← hs.1]) [] hjoins (by simp) ?_
        cases wait <;> simp [StopPhase.err]
    | joining j err phase =>
      have hjoins : x.record (.call i) = x.joins.modify i (· ++ x.exc.endedJoin wait j phase) := by
        simp [record, hcall]
      simp only [Executor.callStep] at hs
      split at hs
      · rename_i w hw
        simp only [Option.map_eq_some_iff, Prod.mk.injEq] at hs
        obtain ⟨r, hjoin, rfl, -⟩ := hs
        refine H.goOn hended hcall rfl _ hjoins (fun e => Executor.tells_endedJoin) ?_
        intro joins herr
        cases r with
        | inl phase' =>
          simpa [Executor.endedJoin, hw, hjoin, Executor.afterJoin, StopPhase.err] using herr
        | inr ret =>
          simp [Executor.endedJoin, hw, hjoin, Executor.afterJoin, StopPhase.err, lastRet]
      · rename_i hnone
        simp only [Option.some.injEq, Prod.mk.injEq] at hs
        refine H.goOn hended hcall (by rw [← hs.1]) _ hjoins (fun e => Executor.tells_endedJoin) ?_
        simp [Executor.endedJoin, hnone, StopPhase.err]
    | clearing err =>
      simp only [Executor.callStep, Option.some.injEq, Prod.mk.injEq] at hs
      apply H.leave hended
      · rw [← hs.1]
      · simp [record, hcall]

/-- **A step** keeps the record sound. -/
theorem Sound.step (H : x.Sound) {a : Action ι β}
    (hs : (joiningSystem ι β).step x a = some (x', es)) : x'.Sound := by
  simp only [joiningSystem, Joining.step, Option.map_eq_some_iff, Prod.mk.injEq] at hs
  obtain ⟨⟨s', es'⟩, hstep, rfl, -⟩ := hs
  replace hstep : (executorSystem ι β).step x.exc a = some (s', es') := hstep
  change Sound ⟨s', x.record a⟩
  have hended : ∀ tid, x.exc.Ended tid → s'.Ended tid :=
    fun _ => (Executor.step_cases hstep).ended
  cases a with
  | call i => exact H.call hstep
  | fire id created =>
    refine H.sameCalls hended ?_ rfl
    cases Executor.step_cases hstep with
    | fire => exact Executor.workerDiscard_calls ..
  | start created =>
    refine H.sameCalls hended ?_ rfl
    cases Executor.step_cases hstep with
    | startAgain => rfl
    | start =>
      obtain ⟨workers, heq, -⟩ := Executor.startLoop_eq { x.exc with running := true } 0 0 created
      rw [heq]
  | stop wait =>
    cases Executor.step_cases hstep with
    | stop =>
      refine H.enter hended rfl rfl ?_
      rintro phase ⟨⟩
      rfl
  | dispatch caller args =>
    cases Executor.step_cases hstep with
    | refuse hcaller hcheck => exact H.sameCalls hended rfl (by simp [record, hcheck])
    | enter hcaller hcheck => exact H.enter hended rfl (by simp [record, hcheck]) (by simp)
  | thread | workReturn | collectReturn =>
    refine H.sameCalls hended ?_ rfl
    cases Executor.step_cases hstep <;> rfl

/-- A pool that has not started, and no call. -/
theorem sound_init (n cap : ℕ) : Sound ⟨(Executor.executorInit n cap : Executor ι β), []⟩ := by
  constructor
  · rfl
  · intro i phase joins hcall
    simp [Executor.executorInit] at hcall
  · intro joins hjoins
    cases hjoins

/-- Every state of a run is sound. -/
theorem sound_of_run {n cap : ℕ} {moves : List (JoiningMove ι β)} {h : List (Event ι β)}
    (hr : (joiningSystem ι β).Run ⟨Executor.executorInit n cap, []⟩ moves h x) :
    x.Sound ∧ ∀ m ∈ moves, m.pre.Sound := by
  induction hr with
  | init => exact ⟨sound_init n cap, by simp⟩
  | step hrun hs ih =>
    obtain ⟨H, hall⟩ := ih
    refine ⟨H.step hs, fun m hm => ?_⟩
    rcases List.mem_append.mp hm with hm | hm
    · exact hall m hm
    · rw [List.mem_singleton.mp hm]
      exact H

omit [Payload β] in
/-- What the joins of a stop that returns `err` say of the threads. -/
theorem Sound.covered_iff (H : x.Sound) {i : ℕ} {err : ℤ} {joins : List Join}
    (hcall : x.exc.calls[i]? = some (.stop true (.clearing err)))
    (hjoins : x.joins[i]? = some joins) :
    x.exc.Covered joins ↔
      (err = 0 → ∀ t ∈ x.exc.threads, t.pc = .exited) ∧ ((∃ e ∈ joins, e.ret ≠ 0) → err ≠ 0) := by
  have herr : err = lastRet joins := H.err i _ joins hcall hjoins
  have htells := H.tells joins (List.mem_of_getElem? hjoins)
  have hended : (∀ t ∈ x.exc.threads, t.pc = .exited) ↔
      ∀ tid < x.exc.threads.length, x.exc.Ended tid := by
    rw [List.forall_mem_iff_getElem]
    refine forall₂_congr fun tid htid => ?_
    rw [Executor.Ended, List.getElem?_eq_getElem htid, Option.map_some, Option.some.injEq]
  have hbusy : ∀ e ∈ joins, e.thread = none ↔ e.ret ≠ 0 := by
    intro e he
    have := htells e he
    unfold Executor.Tells at this
    split at this
    · simp [this.1, ‹e.thread = some _›]
    · simp [this, ‹e.thread = none›]
  rw [hended]
  constructor
  · rintro (⟨e, he, hnone⟩ | ⟨hjoined, hrest⟩)
    · -- the last worker was busy
      have hne : err ≠ 0 := by
        rw [herr, lastRet, Option.mem_def.mp he]
        exact (hbusy e (List.mem_of_getLast? he)).mp hnone
      exact ⟨fun h => absurd h hne, fun _ => hne⟩
    · refine ⟨fun _ tid htid => ?_, ?_⟩
      · by_cases hmem : ∃ e ∈ joins, e.thread = some tid
        · obtain ⟨e, he, hthread⟩ := hmem
          have := htells e he
          rw [Executor.Tells, hthread] at this
          exact this.2
        · exact hrest tid htid fun e he hthread => hmem ⟨e, he, hthread⟩
      · rintro ⟨e, he, hret⟩
        exact absurd ((hbusy e he).mpr hret) (hjoined e he)
  · rintro ⟨hzero, hret⟩
    by_cases hlast : ∃ e ∈ joins.getLast?, e.thread = none
    · exact .inl hlast
    · have h0 : err = 0 := by
        rw [herr, lastRet]
        cases hget : joins.getLast? with
        | none => rfl
        | some e =>
          by_contra hne
          exact hlast ⟨e, hget, (hbusy e (List.mem_of_getLast? hget)).mpr hne⟩
      refine .inr ⟨fun e he hthread => ?_, fun tid htid _ => hzero h0 tid htid⟩
      exact hret ⟨e, he, (hbusy e he).mp hthread⟩ h0

end Joining

/-- The step returns from a waiting stop, with the given result. -/
def returnsWith (err : ℤ) (m : JoiningMove ι β) : Bool :=
  match m.action with
  | .call i =>
    match m.pre.exc.calls[i]? with
    | some (.stop true (.clearing e)) => e == err
    | _ => false
  | _ => false

end Vmon
