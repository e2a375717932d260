import Vmon.Sampler.Request
import Vmon.Sampler.Steps
import Vmon.VmInfo.Documents

/-!
# The lines of the output

Everything the daemon writes is a sequence of documents. A response and an error response end
in a newline, an event does not: it runs into the next document, or ends the output. So the
output is framed exactly as long as no record that was reported had an event
(`output_framed_iff`).

## Main definitions

* `output` — the bytes written to `ctx->out`.
* `Env.Plain` — clean uuid texts of the documented length.
* `Uneventful`, `Quiet` — no event for a record, and none in a move.
* `Writes` — the documents of some events, and whether all got a newline.
-/

namespace Vmon

variable {δ : Type}

/-! ## The output -/

/-- The bytes of one write. -/
def SamplerEvent.bytes : SamplerEvent δ → Bytes
  | .response _ _ _ events data => events ++ data.getD []
  | .error _ _ _ text => text
  | _ => []

/-- What went to `ctx->out`, each write whole. -/
def output (h : List (SamplerEvent δ)) : Bytes := h.flatMap SamplerEvent.bytes

@[simp] theorem output_append (h es : List (SamplerEvent δ)) :
    output (h ++ es) = output h ++ output es := List.flatMap_append

@[simp] theorem output_cons (e : SamplerEvent δ) (es : List (SamplerEvent δ)) :
    output (e :: es) = e.bytes ++ output es := List.flatMap_cons

@[simp] theorem output_exec (es : List (ExecutorEvent δ)) : output (es.map .exec) = [] := by
  induction es with
  | nil => rfl
  | cons e es ih => simpa [SamplerEvent.bytes] using ih

theorem output_freeDomain (tid : ℕ) (req : VmonRequest δ) :
    output (Daemon.freeDomain tid req) = [] := by
  cases hdom : req.dom <;> simp [Daemon.freeDomain, hdom, output, SamplerEvent.bytes]

/-- The texts of uuids are clean, and fit the buffers of the source. -/
structure Env.Plain (env : Env δ) : Prop where
  unparse : ∀ uuid, Clean (env.uuidUnparse uuid) ∧ (env.uuidUnparse uuid).length < uuidStringLen
  string : ∀ dom text, env.host.uuidString dom = some text →
    Clean text ∧ text.length < uuidStringLen

/-! ## Documents -/

section Documents

variable {ctx : VmonContext} {env : Env δ} {req : VmonRequest δ}

/-- An error response, between its braces. -/
def errorBody (env : Env δ) (req : VmonRequest δ) (error : ℤ) (timeout : Bool) : Bytes :=
  lit " \"req-id\": \"" ++ env.uuidUnparse req.sr.uuid ++
  lit "\", \"timestamp\": " ++ decimal env.now.toNat ++
  lit ", \"data\": \x7b \"vm-id\": \"" ++ (req.dom.bind env.host.uuidString).getD [] ++
  lit "\", \"error\": \x7b \"code\": " ++ decimalInt error ++
  lit ", \"message\": \"\" \x7d, \"timeout\": \"" ++ (if timeout then lit "yes" else lit "no") ++
  lit "\" \x7d "

/-- The uuid of the domain, or nothing. -/
theorem Env.Plain.domUuid (hplain : env.Plain) (dom : Option δ) :
    Clean ((dom.bind env.host.uuidString).getD []) ∧
      ((dom.bind env.host.uuidString).getD []).length < uuidStringLen := by
  cases h : dom.bind env.host.uuidString with
  | none => exact ⟨by simp [Clean], by decide⟩
  | some text =>
    obtain ⟨d, -, hd⟩ := Option.bind_eq_some_iff.mp h
    exact hplain.string d text hd

variable (req) in
theorem scans_error (hplain : env.Plain) (error : ℤ) (timeout : Bool) :
    Scans false 0 (errorBody env req error timeout) false 0 := by
  have hopen : Scans false 0 (lit " \"req-id\": \"") true 0 := .of_track (by decide)
  have htimestamp : Scans true 0 (lit "\", \"timestamp\": ") false 0 := .of_track (by decide)
  have hdata : Scans false 0 (lit ", \"data\": \x7b \"vm-id\": \"") true 1 := .of_track (by decide)
  have hcode : Scans true 1 (lit "\", \"error\": \x7b \"code\": ") false 2 :=
    .of_track (by decide)
  have hmessage : Scans false 2 (lit ", \"message\": \"\" \x7d, \"timeout\": \"") true 1 :=
    .of_track (by decide)
  have htimeout : Scans true 1 (if timeout then lit "yes" else lit "no") true 1 := by
    cases timeout <;> exact .of_track (by decide)
  have hclose : Scans true 1 (lit "\" \x7d ") false 0 := .of_track (by decide)
  have hhead := ((hopen.append (.body (hplain.unparse req.sr.uuid).1)).append htimestamp).append
    (.digits env.now.toNat)
  have herror := ((hhead.append hdata).append (.body (hplain.domUuid req.dom).1)).append hcode
  exact ((((herror.append (.digitsInt error)).append hmessage).append htimeout).append hclose)

variable (req) in
theorem length_errorBody (hplain : env.Plain) {error : ℤ} (herror : ErrorCode error)
    (timeout : Bool) : (errorBody env req error timeout).length ≤ 300 := by
  have huuid := (hplain.unparse req.sr.uuid).2
  have hdom := (hplain.domUuid req.dom).2
  have hnow : (decimal env.now.toNat).length ≤ 20 := by
    have hlt := env.now.toNat_lt
    exact length_decimal_le (by decide) (by omega)
  have hcode : (decimalInt error).length ≤ 1 + 1 := by
    obtain ⟨hlow, hhigh⟩ := herror
    unfold executorErrorTooMuchData at hlow
    exact length_decimalInt_le (by decide) (by omega)
  have htimeout : (if timeout then lit "yes" else lit "no").length ≤ 3 := by
    cases timeout <;> decide
  unfold uuidStringLen at huuid hdom
  simp only [errorBody, List.length_append]
  generalize (if timeout then lit "yes" else lit "no").length = n at htimeout ⊢
  simp [lit]
  omega

/-- **An error response** is one document, ended by a newline: the buffer holds all of it. -/
theorem collectError_eq (hplain : env.Plain) {error : ℤ} (herror : ErrorCode error)
    (timeout : Bool) :
    collectError env req error timeout =
      written [(.ofBody _ (scans_error req hplain error timeout), true)] := by
  have hbuffer := length_errorBody req hplain herror timeout
  have hopen : lit "\x7b \"req-id\": \"" = 0x7B :: lit " \"req-id\": \"" := rfl
  have hclose : lit "\" \x7d \x7d\n" = lit "\" \x7d " ++ [0x7D, 0x0A] := rfl
  have htext : collectError env req error timeout =
      (0x7B :: (errorBody env req error timeout ++ [0x7D, 0x0A])).take (errorBufferSize - 1) := by
    simp only [collectError, errorBody, hopen, hclose, List.cons_append, List.append_assoc]
  rw [htext, List.take_of_length_le]
  · simp [written, Document.ofBody]
  · simp only [List.length_cons, List.length_append, List.length_nil, errorBufferSize]
    omega

/-- The response for one record, between its braces. -/
def responseBody (env : Env δ) (ts : UInt64) (reqId : Uuid) (vm : VmInfo) : Bytes :=
  lit " \"req-id\": \"" ++ env.uuidUnparse reqId ++ lit "\", \"timestamp\": " ++
  decimal ts.toNat ++ lit ", \"data\": " ++ vminfoPrintJson vm ++ lit " "

theorem scans_response (hplain : env.Plain) (ts : UInt64) (reqId : Uuid) {vm : VmInfo}
    (hvm : vm.CleanNames) : Scans false 0 (responseBody env ts reqId vm) false 0 := by
  have hhead : Scans false 0 (lit " \"req-id\": \"" ++ env.uuidUnparse reqId ++
      lit "\", \"timestamp\": ") false 0 :=
    .around (j := 0) (by decide) (hplain.unparse reqId).1 (by decide)
  have hdata : Scans false 0 (lit ", \"data\": ") false 0 := .of_track (by decide)
  have hclose : Scans false 0 (lit " ") false 0 := .of_track (by decide)
  exact (((hhead.append (.digits ts.toNat)).append hdata).append (scans_vminfo hvm)).append hclose

theorem response_eq (hplain : env.Plain) (ts : UInt64) (reqId : Uuid) {vm : VmInfo}
    (hvm : vm.CleanNames) : responseBegin env ts reqId ++ vminfoPrintJson vm ++ responseFinish =
      written [(.ofBody _ (scans_response hplain ts reqId hvm), true)] := by
  have hopen : lit "\x7b \"req-id\": \"" = 0x7B :: lit " \"req-id\": \"" := rfl
  have hclose : lit " \x7d\n" = lit " " ++ [0x7D, 0x0A] := rfl
  simp [responseBegin, responseFinish, responseBody, written, Document.ofBody, hopen, hclose]

/-- No device of a record is announced, or the first is not over the threshold. -/
def Uneventful (ctx : VmonContext) (host : Host δ) (record : StatsRecord δ) : Prop :=
  let vm := (vminfoParse host vminfoInit record).2
  vm.block.nstats = 0 ∨
    vmCheckTriggeredUsageThreshold (vm.block.items.headD 0) ctx.conf.diskUsagePerc = false

instance (ctx : VmonContext) (host : Host δ) (record : StatsRecord δ) :
    Decidable (Uneventful ctx host record) := inferInstanceAs (Decidable (_ ∨ _))

/-- The events `es` wrote documents, and each got its newline exactly if `ended`. -/
def Writes (es : List (SamplerEvent δ)) (ended : Prop) : Prop :=
  ∃ docs, output es = written docs ∧ ((∀ d ∈ docs, d.2 = true) ↔ ended)

theorem Writes.nothing {es : List (SamplerEvent δ)} (hes : output es = []) : Writes es True :=
  ⟨[], hes, by simp⟩

theorem Writes.append {es es' : List (SamplerEvent δ)} {p q : Prop} (h : Writes es p)
    (h' : Writes es' q) : Writes (es ++ es') (p ∧ q) := by
  obtain ⟨docs, hout, hp⟩ := h
  obtain ⟨docs', hout', hq⟩ := h'
  refine ⟨docs ++ docs', by rw [output_append, hout, hout', written_append], ?_⟩
  rw [List.forall_mem_append, hp, hq]

theorem Writes.framed {h : List (SamplerEvent δ)} {p : Prop} (H : Writes h p) :
    Framed (output h) ↔ p := by
  obtain ⟨docs, hout, hp⟩ := H
  rw [hout, framed_written, hp]

variable (req) in
theorem writes_error (hplain : env.Plain) {error : ℤ} (herror : ErrorCode error) (timeout : Bool)
    (tid : ℕ) (dom : Option δ) :
    Writes [.error tid env dom (collectError env req error timeout)] True :=
  ⟨_, by rw [output_cons]; exact (List.append_nil _).trans (collectError_eq hplain herror timeout),
    by simp⟩

variable (ctx req) in
/-- **The write for a record**: its events have no newline, its response has. -/
theorem writes_record (hplain : env.Plain) (tid : ℕ) (ts : UInt64) (record : StatsRecord δ) :
    Writes [.response tid env record.dom (collectRecord ctx env ts req record).1
      (collectRecord ctx env ts req record).2] (Uneventful ctx env.host record) := by
  obtain ⟨hzeroed, huuid⟩ := vminfoParse_zeroed env.host record
  generalize hvm : (vminfoParse env.host vminfoInit record).2 = vm at hzeroed huuid
  have hclean : vm.CleanNames := by
    apply hzeroed.cleanNames
    rcases huuid with huuid | huuid
    · simp [huuid, Clean]
    · exact (hplain.string _ _ huuid).1
  have hlabel : Clean (vm.block.items.headD 0).label := by
    rw [hzeroed.block.headD]
    decide
  let events : List (Document × Bool) :=
    if vmCheckTriggeredUsageThreshold (vm.block.items.headD 0) ctx.conf.diskUsagePerc then
      List.replicate vm.block.nstats (eventDocument _ hlabel, false)
    else []
  let data : List (Document × Bool) :=
    if ctx.conf.eventsOnly then []
    else [(.ofBody _ (scans_response hplain ts req.sr.uuid hclean), true)]
  have hevents : (collectRecord ctx env ts req record).1 = written events := by
    simp only [collectRecord, hvm, events]
    rw [vminfoSendEvents_written _ _ hlabel]
    split <;> rfl
  have hdata : (collectRecord ctx env ts req record).2.getD [] = written data := by
    simp only [collectRecord, hvm, data]
    split
    · rfl
    · exact response_eq hplain ts req.sr.uuid hclean
  refine ⟨events ++ data, ?_, ?_⟩
  · rw [output_cons, SamplerEvent.bytes, hevents, hdata, written_append]
    exact List.append_nil _
  · have hended : ∀ d ∈ data, d.2 = true := by
      intro d hd
      simp only [data] at hd
      split at hd
      · cases hd
      · rw [List.mem_singleton.mp hd]
    rw [List.forall_mem_append, and_iff_left hended]
    simp only [events, Uneventful, hvm]
    split
    · next htriggered => simp [htriggered, -List.headD_eq_head?_getD]
    · next htriggered => simp [htriggered, -List.headD_eq_head?_getD]

end Documents

/-! ## Error codes inside the sampler -/

/-- A frame keeps error codes only. -/
def Frame.Coded : Frame δ → Prop
  | .listing _ err => ErrorCode err
  | .collecting error _ => ErrorCode error
  | _ => True

namespace Daemon

variable {ctx : VmonContext} {s s' : Daemon δ} {a : SamplerAction δ} {es : List (SamplerEvent δ)}

/-- The daemon keeps error codes only. -/
structure Coded (s : Daemon δ) : Prop where
  exc : s.exc.Codes
  frames : ∀ tid, (s.frames tid).Coded

namespace Coded

theorem update {frames : ℕ → Frame δ} (H : ∀ tid, (frames tid).Coded) {j : ℕ} {frame : Frame δ}
    (hframe : frame.Coded) : ∀ tid, (Function.update frames j frame tid).Coded := by
  intro tid
  by_cases htid : tid = j
  · rwa [htid, Function.update_self]
  · rw [Function.update_of_ne htid]
    exact H tid

theorem setFrame (H : Coded s) {j : ℕ} {frame : Frame δ} (hframe : frame.Coded) :
    Coded (s.setFrame j frame) := ⟨H.exc, update H.frames hframe⟩

theorem follow {frames : ℕ → Frame δ} (H : ∀ tid, (frames tid).Coded) {e : ExecutorEvent δ}
    (he : e.Coded) : ∀ tid, (Daemon.follow frames e tid).Coded := by
  cases e with
  | workCalled => exact update H trivial
  | workReturned => exact update H trivial
  | collectCalled => exact update H he
  | collectReturned => exact update H trivial
  | dispatched caller args ret =>
    cases caller with
    | client => exact H
    | worker j =>
      have hfollow : Daemon.follow frames (.dispatched (.worker j) args ret) = frames ∨
          ∃ domains, Daemon.follow frames (.dispatched (.worker j) args ret) =
            Function.update frames j (.listing domains ret) := by
        simp only [Daemon.follow]
        cases frames j with
        | listing domains err => exact .inr ⟨domains, rfl⟩
        | _ => exact .inl rfl
      rcases hfollow with heq | ⟨domains, heq⟩
      · rwa [heq]
      · rw [heq]
        exact update H he
  | _ => exact H

/-- A step of the executor hands on error codes only. -/
theorem after (H : Coded s) {b : ExecutorAction δ} {exc : SamplerExecutor δ}
    {es : List (ExecutorEvent δ)} (hs : s.exc.Steps b exc es)
    (hwork : ∀ tid ret data, b = .workReturn tid ret data → ErrorCode ret)
    (hcollect : ∀ tid ret, b = .collectReturn tid ret → ErrorCode ret) :
    Coded (s.after exc es) ∧ ∀ e ∈ es, e.Coded := by
  obtain ⟨hexc, hes⟩ := H.exc.step hs hwork hcollect
  refine ⟨⟨hexc, ?_⟩, hes⟩
  have hfollow : ∀ (es : List (ExecutorEvent δ)) (frames : ℕ → Frame δ),
      (∀ e ∈ es, e.Coded) → (∀ tid, (frames tid).Coded) →
        ∀ tid, (es.foldl Daemon.follow frames tid).Coded := by
    intro es
    induction es with
    | nil => exact fun _ _ H => H
    | cons e es ih =>
      intro frames hes H
      obtain ⟨he, hes⟩ := List.forall_mem_cons.mp hes
      exact ih _ hes (follow H he)
  exact hfollow es s.frames hes H.frames

theorem of_started (workersCount maxTasks : ℕ) :
    Coded (started workersCount maxTasks : Daemon δ) :=
  ⟨.of_started _ _, fun _ => trivial⟩

end Coded

/-! ## Runs -/

/-- In the move a record is reported. -/
structure Reports (m : SamplerMove δ) (env : Env δ) (record : StatsRecord δ) (tid : ℕ) : Prop where
  action : m.action = .collect tid env
  collect : ∃ t, m.pre.exc.threads[tid]? = some t ∧ t.task.td.collect = .client .samplingCollect
  frame : ∃ ts records, m.pre.frames tid = .reporting ts (record :: records)

/-- No record with an event is reported in the move. -/
def Quiet (ctx : VmonContext) (m : SamplerMove δ) : Prop :=
  ∀ env record tid, Reports m env record tid → Uneventful ctx env.host record

/-- What is written in a move that reports no record. -/
theorem quiet_of_not_reports {m : SamplerMove δ} (hw : Writes es True)
    (hm : ∀ env record tid, ¬Reports m env record tid) : Writes es (Quiet ctx m) := by
  obtain ⟨docs, hout, hdocs⟩ := hw
  refine ⟨docs, hout, hdocs.trans ?_⟩
  simp only [Quiet, true_iff]
  exact fun env record tid hreports => absurd hreports (hm env record tid)

theorem not_reports_of_action {m : SamplerMove δ} (ha : ∀ tid env, m.action ≠ .collect tid env) :
    ∀ env record tid, ¬Reports m env record tid :=
  fun env _ tid hreports => ha tid env hreports.action

theorem writes_afterDispatch {env : Env δ} (hplain : env.Plain) {es : List (ExecutorEvent δ)}
    (hes : ∀ e ∈ es, e.Coded) : Writes (es.flatMap (afterDispatch env)) True := by
  induction es with
  | nil => exact .nothing rfl
  | cons e es ih =>
    obtain ⟨he, hes⟩ := List.forall_mem_cons.mp hes
    have hone : Writes (afterDispatch env e) True := by
      unfold afterDispatch
      split
      · split
        · next tid args ret _ =>
          have hexec : Writes [SamplerEvent.exec (.dispatched (.worker tid) args ret)] True :=
            .nothing rfl
          simpa using hexec.append (writes_error _ hplain he false tid args.data.dom)
        · exact .nothing rfl
      · exact .nothing rfl
    simpa using hone.append (ih hes)

/-- **One step** writes documents, and ends each exactly if it is quiet. -/
theorem Steps.writes (hs : Steps ctx s a s' es) (H : Coded s)
    (hplain : ∀ env ∈ a.env, env.Plain) (h : List (SamplerEvent δ)) :
    Coded s' ∧ Writes es (Quiet ctx ⟨h, s, a⟩) := by
  have hzero : ErrorCode 0 := errorCode_zero
  have hlibvirt : ErrorCode libvirtError := by decide
  cases hs with
  | thread hs =>
    exact ⟨(H.after hs (by simp) (by simp)).1, quiet_of_not_reports (.nothing (output_exec _))
      (not_reports_of_action (by simp))⟩
  | @outer _ b _ _ ha hs =>
    have hb : (∀ tid ret data, b ≠ .workReturn tid ret data) ∧
        (∀ tid ret, b ≠ .collectReturn tid ret) ∧ ∀ tid env, a ≠ .collect tid env := by
      cases ha <;> simp
    obtain ⟨hwork, hcollect, ha⟩ := hb
    exact ⟨(H.after hs (fun _ _ _ hb => absurd hb (hwork _ _ _))
      (fun _ _ hb => absurd hb (hcollect _ _))).1,
      quiet_of_not_reports (.nothing (output_exec _)) (not_reports_of_action ha)⟩
  | call hs =>
    obtain ⟨hcoded, hes⟩ := H.after hs (by simp) (by simp)
    exact ⟨hcoded, quiet_of_not_reports (writes_afterDispatch (hplain _ rfl) hes)
      (not_reports_of_action (by simp))⟩
  | @query tid env t f ret exc es ht hpc hwork hframe hquery hs =>
    have hsampled : output (ret.toList.map (SamplerEvent.sampled tid)) = [] := by
      cases ret <;> rfl
    exact ⟨(H.after hs (by simp [hzero]) (by simp)).1,
      quiet_of_not_reports (.nothing (by simp [hsampled])) (not_reports_of_action (by simp))⟩
  | @listFails tid env t exc es ht hpc hwork hframe hlist hs =>
    have herror := writes_error t.task.arg (hplain env rfl) hlibvirt false tid
      t.task.arg.dom
    refine ⟨(H.after hs (by simp [hlibvirt]) (by simp)).1,
      quiet_of_not_reports ?_ (not_reports_of_action (by simp))⟩
    simpa using herror.append (.nothing (output_exec es))
  | list => exact ⟨H.setFrame hzero, quiet_of_not_reports (.nothing rfl)
      (not_reports_of_action (by simp))⟩
  | @listDispatch tid env t dom domains err exc es ht hpc hwork hframe hs =>
    have herr : ErrorCode err := by
      have := H.frames tid
      rwa [hframe] at this
    have hframes : Frame.Coded (.listing domains err : Frame δ) := herr
    obtain ⟨hcoded, hes⟩ := (H.setFrame hframes).after hs (by simp) (by simp)
    exact ⟨hcoded, quiet_of_not_reports (writes_afterDispatch (hplain _ rfl) hes)
      (not_reports_of_action (by simp))⟩
  | @listReturn tid env t err exc es ht hpc hwork hframe hs =>
    have herr : ErrorCode err := by
      have := H.frames tid
      rwa [hframe] at this
    exact ⟨(H.after hs (by simp [herr]) (by simp)).1,
      quiet_of_not_reports (.nothing (output_exec _)) (not_reports_of_action (by simp))⟩
  | stopWork ht hpc hwork hframe hs =>
    exact ⟨(H.after hs (by simp [hzero]) (by simp)).1,
      quiet_of_not_reports (.nothing (output_exec _)) (not_reports_of_action (by simp))⟩
  | @collectFails tid env t error timeout exc es ht hpc hcollect hframe herr hs =>
    have herror : ErrorCode error := by
      have := H.frames tid
      rwa [hframe] at this
    have hwrite := writes_error t.task.arg (hplain env rfl) herror timeout tid
      t.task.arg.dom
    refine ⟨(H.after hs (by simp) (by simp [hzero])).1, quiet_of_not_reports ?_ ?_⟩
    · have hrest : output (freeDomain tid t.task.arg ++ es.map .exec) = [] := by
        simp [output_freeDomain]
      simpa using hwrite.append (.nothing hrest)
    · rintro env' record tid' ⟨haction, -, ts, records, hreporting⟩
      cases haction
      simp [hframe] at hreporting
  | @collectStart tid env t ht hpc hcollect hframe =>
    refine ⟨H.setFrame trivial, quiet_of_not_reports (.nothing rfl) ?_⟩
    rintro env' record tid' ⟨haction, -, ts, records, hreporting⟩
    cases haction
    simp [hframe] at hreporting
  | @collectRecord tid env t ts record records ht hpc hcollect hframe =>
    refine ⟨H.setFrame trivial, ?_⟩
    have hwrite := writes_record ctx t.task.arg (hplain env rfl) tid ts record
    have hquiet : Uneventful ctx env.host record ↔ Quiet ctx ⟨h, s, .collect tid env⟩ := by
      constructor
      · rintro hrecord env' record' tid' ⟨haction, -, ts', records', hreporting⟩
        cases haction
        obtain ⟨-, rfl, -⟩ : ts = ts' ∧ record = record' ∧ records = records' := by
          simpa [hframe] using hreporting
        exact hrecord
      · intro hmove
        exact hmove env record tid ⟨rfl, ⟨t, ht, hcollect⟩, ts, records, hframe⟩
    rwa [propext hquiet] at hwrite
  | @collectEnd tid env t ts exc es ht hpc hcollect hframe hs =>
    refine ⟨(H.after hs (by simp) (by simp [hzero])).1, quiet_of_not_reports (.nothing ?_) ?_⟩
    · simp [SamplerEvent.bytes, output_freeDomain]
    · rintro env' record tid' ⟨haction, -, ts', records, hreporting⟩
      cases haction
      simp [hframe] at hreporting
  | @stopCollect tid env t exc es ht hpc hcollect hs =>
    refine ⟨(H.after hs (by simp) (by simp [hzero])).1,
      quiet_of_not_reports (.nothing (output_exec _)) ?_⟩
    rintro env' record tid' ⟨haction, ⟨u, hu, hsampling⟩, -⟩
    cases haction
    obtain rfl : u = t := by simpa [ht] using hu.symm
    simp [hcollect] at hsampling

end Daemon

/-- **When the output is framed**: exactly as long as no record that was reported had an
event. -/
theorem output_framed_iff {ctx : VmonContext} {workersCount maxTasks : ℕ}
    {moves : List (SamplerMove δ)} {h : List (SamplerEvent δ)} {s : Daemon δ}
    (hr : (samplerSystem δ ctx).Run (Daemon.started workersCount maxTasks) moves h s)
    (hplain : ∀ m ∈ moves, ∀ env ∈ m.action.env, env.Plain) :
    Framed (output h) ↔ ∀ m ∈ moves, Daemon.Quiet ctx m := by
  have hrun : s.Coded ∧ Writes h (∀ m ∈ moves, Daemon.Quiet ctx m) := by
    induction hr with
    | init => exact ⟨.of_started _ _, [], rfl, by simp⟩
    | @step moves h s s' a es hr hs ih =>
      obtain ⟨hcoded, hwrites⟩ := ih fun m hm => hplain m (List.mem_append_left _ hm)
      obtain ⟨hcoded', hstep⟩ := (Daemon.step_cases hs).writes hcoded
        (hplain ⟨h, s, a⟩ (by simp)) h
      refine ⟨hcoded', ?_⟩
      simpa [or_imp, forall_and] using hwrites.append hstep
  exact hrun.2.framed

/-! ## One record -/

/-- The texts of the zero uuid, which every request and every domain here has. -/
def zeroUuid : Bytes := lit "00000000-0000-0000-0000-000000000000"

theorem zeroUuid_plain : Clean zeroUuid ∧ zeroUuid.length < uuidStringLen := by decide

private def namedEnv (record : StatsRecord ℕ) : Env ℕ :=
  { host := { calloc := fun _ _ => true, strdup := fun _ => true,
              uuidString := fun _ => some zeroUuid, bigEndian := false, string := fun _ => [] }
    conn := { listAllDomains := fun _ => some [], getAllDomainStats := fun _ => some [record],
              domainListGetStats := fun _ _ => some [record] }
    now := 0, uuidUnparse := fun _ => zeroUuid }

private theorem namedEnv_plain (record : StatsRecord ℕ) : (namedEnv record).Plain := by
  refine ⟨fun _ => zeroUuid_plain, ?_⟩
  intro dom text htext
  obtain rfl : zeroUuid = text := by simpa [namedEnv] using htext
  exact zeroUuid_plain

/-- A bulk request, answered by one record, up to the write for it. -/
private def recordSteps (record : StatsRecord ℕ) : List (SamplerAction ℕ) :=
  let env := namedEnv record
  [SamplerAction.send (.ofSample ⟨Vector.replicate 16 0, 0⟩), .call 0 env] ++
    List.replicate 4 (SamplerAction.thread 0) ++ [SamplerAction.work 0 env] ++
    List.replicate 4 (SamplerAction.thread 0) ++ List.replicate 2 (SamplerAction.collect 0 env)

/-- A context where one domain is asked for with bulk sampling. -/
private def bulkContext (diskUsagePerc : ℤ) : VmonContext :=
  { conf := { timeout := 1000, bulkSampling := true, diskUsagePerc := diskUsagePerc,
              eventsOnly := false }
    flags := 0 }

private theorem recordSteps_plain {record : StatsRecord ℕ} {moves : List (SamplerMove ℕ)}
    (hmoves : moves.map Move.action = recordSteps record) :
    ∀ m ∈ moves, ∀ env ∈ m.action.env, env.Plain := by
  have hsteps : ∀ a ∈ recordSteps record, ∀ env ∈ a.env, namedEnv record = env := by
    simp [recordSteps, SamplerAction.env]
  intro m hm env henv
  rw [← hsteps m.action (hmoves ▸ List.mem_map_of_mem hm) env henv]
  exact namedEnv_plain record

theorem output_framed_iff_one_record : ∃ (moves : List (SamplerMove ℕ)) (h : List (SamplerEvent ℕ))
    (s : Daemon ℕ),
    (samplerSystem ℕ (bulkContext 0)).Run (Daemon.started 1 4) moves h s ∧
      (Framed (output h) ↔ ∀ m ∈ moves, Daemon.Quiet (bulkContext 0) m) ∧ output h ≠ [] := by
  obtain ⟨moves, h, s, hr, hmoves, hp⟩ := Lts.exists_run_of_trace
    (samplerSystem ℕ (bulkContext 0)) (Daemon.started 1 4) (recordSteps ⟨0, []⟩)
    (fun _ h _ => !(output h).isEmpty) (by decide +kernel)
  refine ⟨moves, h, s, hr, output_framed_iff hr (recordSteps_plain hmoves), ?_⟩
  simpa using hp

/-- Nothing is between an event and the response after it. -/
theorem output_framed_fails : ∃ (moves : List (SamplerMove ℕ)) (h : List (SamplerEvent ℕ))
    (s : Daemon ℕ),
    (samplerSystem ℕ (bulkContext 99)).Run (Daemon.started 1 4) moves h s ∧
      (∀ m ∈ moves, ∀ env ∈ m.action.env, env.Plain) ∧ ¬Framed (output h) := by
  obtain ⟨moves, h, s, hr, hmoves, hp⟩ := Lts.exists_run_of_trace
    (samplerSystem ℕ (bulkContext 99)) (Daemon.started 1 4)
    (recordSteps ⟨0, [⟨lit "block.count", ⟨1⟩⟩]⟩)
    (fun _ h _ => !decide (Framed (output h))) (by decide +kernel)
  exact ⟨moves, h, s, hr, recordSteps_plain hmoves, by simpa using hp⟩

end Vmon
