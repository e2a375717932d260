import Vmon.Sampler.Framing
import Vmon.Sampler.Responses
import Vmon.VmInfo.Readback

/-!
# The errors of the per-domain fan-out

`list_domains_work` writes an error response for a listing that failed and for each call of
`executor_dispatch` that failed, and then it returns the last error it has seen, for which the
collect function writes another one. And where `virDomainGetUUIDString` fails, the response has
an empty id for the domain. So the parent task writes the error responses it should exactly where
the listing succeeded, the last dispatch did, too, and each domain that was not dispatched has a
uuid to write (`fan_out_errors_iff`).

## Main definitions

* `listings`, `dispatches` — what the parent task asked for.
* `ErrorFor` — an error response with the ids of a request and a domain; no text is one for two
  (`ErrorFor.unique`).
* `FanOutErrors` — the promise.
* `FanOut`, `Listing` — what the work function did, and how far the task is.
-/

namespace Vmon

variable {δ : Type}

/-! ## What the parent task did -/

/-- The results of `virConnectListAllDomains` in thread `tid`. -/
def listings (tid : ℕ) (h : List (SamplerEvent δ)) : List (List δ) :=
  h.filterMap fun
    | .listed j domains => if j = tid then some domains else none
    | _ => none

/-- The calls of `executor_dispatch` by thread `tid`, with what they returned. -/
def dispatches (tid : ℕ) (h : List (SamplerEvent δ)) :
    List (DispatchArgs SamplerFunction (VmonRequest δ) × ℤ) :=
  h.filterMap fun
    | .exec (.dispatched (.worker j) args ret) => if j = tid then some (args, ret) else none
    | _ => none

/-- What `list_domains_work` returns after the calls `ds`. -/
def lastError {γ : Type} (ds : List (γ × ℤ)) : ℤ := (ds.getLast?.map Prod.snd).getD 0

/-- The calls that failed. -/
def failures {γ : Type} (ds : List (γ × ℤ)) : List (γ × ℤ) := ds.filter fun d => d.2 ≠ 0

/-- In the environment, the uuids of requests and domains have the texts `unparse` and `vmUuid`. -/
structure Env.Names (env : Env δ) (unparse : Uuid → Bytes) (vmUuid : δ → Option Bytes) : Prop where
  unparse : env.uuidUnparse = unparse
  string : env.host.uuidString = vmUuid

/-- The text of an error response, up to its code. -/
def errorHead (reqId : Bytes) (now : UInt64) (vmId : Bytes) : Bytes :=
  lit "\x7b \"req-id\": \"" ++ reqId ++ lit "\", \"timestamp\": " ++ decimal now.toNat ++
  lit ", \"data\": \x7b \"vm-id\": \"" ++ vmId ++ lit "\", \"error\": \x7b \"code\": "

/-- The text is an error response that carries the id `reqId` of a request, and the id `vmId` of
a domain. -/
def ErrorFor (reqId vmId text : Bytes) : Prop := ∃ now : UInt64, errorHead reqId now vmId <+: text

/-- An error response of the request `reqId` for a call that failed, with the id of the domain of
the call. -/
def ReportsFailure (vmUuid : δ → Option Bytes) (reqId : Bytes)
    (d : DispatchArgs SamplerFunction (VmonRequest δ) × ℤ) (w : ErrorWrite δ) : Prop :=
  ∃ dom vmId, d.1.data.dom = some dom ∧ vmUuid dom = some vmId ∧ ErrorFor reqId vmId w.text

/-- The error responses of the parent task of the request `reqId`: one where the listing failed,
and otherwise one for each domain whose dispatch failed. -/
structure FanOutErrors (vmUuid : δ → Option Bytes) (reqId : Bytes) (tid : ℕ)
    (h : List (SamplerEvent δ)) : Prop where
  failed : listings tid h = [] → ∃ w vmId, errorWrites tid h = [w] ∧ ErrorFor reqId vmId w.text
  listed : ∀ domains, listings tid h = [domains] →
    (dispatches tid h).map (fun d => d.1.data.dom) = domains.map some ∧
      List.Forall₂ (ReportsFailure vmUuid reqId) (failures (dispatches tid h)) (errorWrites tid h)

/-! ### The ids in a text -/

/-- The head of an error response can be read. -/
theorem legible_errorHead :
    Legible (fun x : Bytes × UInt64 × Bytes => 0x22 ∉ x.1 ∧ True ∧ 0x22 ∉ x.2.2) (fun _ => True)
      fun x => errorHead x.1 x.2.1 x.2.2 := by
  have hname : Legible (fun name : Bytes => 0x22 ∉ name) (fun _ => True)
      fun name => name ++ lit "\", \"error\": \x7b \"code\": " :=
    legible_name.suffixed _ fun _ _ => rfl
  have hdom := hname.prefixed (lit ", \"data\": \x7b \"vm-id\": \"")
  have htime := (legible_uint64.pair hdom fun dom r _ _ => by
    rw [List.append_assoc]
    exact endsNumber_lit (by decide) _).prefixed (lit "\", \"timestamp\": ")
  have hhead := (legible_name.prefixed (lit "\x7b \"req-id\": \"")).pair htime fun x r _ _ => rfl
  intro x x' r r' hx hx' hr hr' heq
  refine hhead hx hx' hr hr' ?_
  simpa only [errorHead, List.append_assoc] using heq

/-- A text is an error response for one request and one domain. -/
theorem ErrorFor.unique {reqId reqId' vmId vmId' text : Bytes} (h : ErrorFor reqId vmId text)
    (h' : ErrorFor reqId' vmId' text) (hreq : Clean reqId ∧ Clean reqId')
    (hvm : Clean vmId ∧ Clean vmId') : reqId = reqId' ∧ vmId = vmId' := by
  have hquote : ∀ {name : Bytes}, Clean name → 0x22 ∉ name := fun hname hmem => (hname _ hmem).1 rfl
  obtain ⟨now, rest, htext⟩ := h
  obtain ⟨now', rest', htext'⟩ := h'
  obtain ⟨hids, -⟩ := @legible_errorHead (reqId, now, vmId) (reqId', now', vmId') rest rest'
    ⟨hquote hreq.1, trivial, hquote hvm.1⟩ ⟨hquote hreq.2, trivial, hquote hvm.2⟩ trivial trivial
    (htext.trans htext'.symm)
  exact ⟨congrArg Prod.fst hids, congrArg (fun x => x.2.2) hids⟩

/-- The text of `collect_error` carries the ids of its request and its domain: they fit the
buffer. -/
theorem errorFor_collectError {env : Env δ} {unparse : Uuid → Bytes} {vmUuid : δ → Option Bytes}
    (hplain : env.Plain) (hnames : env.Names unparse vmUuid) (req : VmonRequest δ) (error : ℤ)
    (timeout : Bool) :
    ErrorFor (unparse req.sr.uuid) ((req.dom.bind vmUuid).getD [])
      (collectError env req error timeout) := by
  have huuid := (hplain.unparse req.sr.uuid).2
  have hdom := (hplain.domUuid req.dom).2
  obtain ⟨rfl, rfl⟩ := hnames
  have hnow : (decimal env.now.toNat).length ≤ 20 := by
    have hlt := env.now.toNat_lt
    exact length_decimal_le (by decide) (by omega)
  unfold uuidStringLen at huuid hdom
  refine ⟨env.now, List.prefix_take_iff.mpr ⟨?_, ?_⟩⟩
  · simp only [errorHead, List.append_assoc]
    exact ⟨_, by simp only [List.append_assoc]; rfl⟩
  · simp only [errorHead, List.length_append, errorBufferSize]
    simp [lit]
    omega

/-! ### The events -/

section Events

variable {tid : ℕ}

@[simp] theorem listings_append (h es : List (SamplerEvent δ)) :
    listings tid (h ++ es) = listings tid h ++ listings tid es := List.filterMap_append

@[simp] theorem dispatches_append (h es : List (SamplerEvent δ)) :
    dispatches tid (h ++ es) = dispatches tid h ++ dispatches tid es := List.filterMap_append

theorem listings_filter (h : List (SamplerEvent δ)) :
    listings tid (h.filter fun e => e.tid = some tid) = listings tid h := by
  apply filterMap_filter_tid
  intro e x he
  cases e <;> simp only [reduceCtorEq, Option.ite_none_right_eq_some] at he
  rw [← he.1]
  rfl

theorem dispatches_filter (h : List (SamplerEvent δ)) :
    dispatches tid (h.filter fun e => e.tid = some tid) = dispatches tid h := by
  apply filterMap_filter_tid
  intro e x he
  split at he
  · simp only [Option.ite_none_right_eq_some] at he
    rw [← he.1]
    rfl
  · cases he

theorem lastError_append {γ : Type} (ds : List (γ × ℤ)) (x : γ) (ret : ℤ) :
    lastError (ds ++ [(x, ret)]) = ret := by simp [lastError]

theorem failures_append {γ : Type} (ds : List (γ × ℤ)) (x : γ) (ret : ℤ) :
    failures (ds ++ [(x, ret)]) = failures ds ++ if ret = 0 then [] else [(x, ret)] := by
  by_cases h : ret = 0 <;> simp [failures, h]

end Events

/-! ## The progress of the task -/

/-- What the events say of the fan-out of thread `tid`. -/
structure FanOut (δ : Type) where
  listings : List (List δ)
  dispatches : List (DispatchArgs SamplerFunction (VmonRequest δ) × ℤ)
  errors : List (ErrorWrite δ)

def fanOut (tid : ℕ) (h : List (SamplerEvent δ)) : FanOut δ :=
  ⟨listings tid h, dispatches tid h, errorWrites tid h⟩

/-- Events that are not about the fan-out. -/
theorem fanOut_append {tid : ℕ} {h es : List (SamplerEvent δ)}
    (hlist : ∀ domains, .listed tid domains ∉ es)
    (hdispatch : ∀ args ret, .exec (.dispatched (.worker tid) args ret) ∉ es)
    (herror : ∀ env dom text, .error tid env dom text ∉ es) : fanOut tid (h ++ es) = fanOut tid h := by
  have hlists : listings tid es = [] := by
    rw [listings, List.filterMap_eq_nil_iff]
    intro e he
    cases e with
    | listed j domains =>
      apply if_neg
      rintro rfl
      exact hlist domains he
    | _ => rfl
  have hdispatches : dispatches tid es = [] := by
    rw [dispatches, List.filterMap_eq_nil_iff]
    intro e he
    split
    · apply if_neg
      rintro rfl
      exact hdispatch _ _ he
    · rfl
  rw [fanOut, fanOut, errorWrites_append_of_forall herror, listings_append, dispatches_append,
    hlists, hdispatches, List.append_nil, List.append_nil]

theorem fanOut_listed (tid : ℕ) (h : List (SamplerEvent δ)) (domains : List δ) :
    fanOut tid (h ++ [.listed tid domains]) =
      { fanOut tid h with listings := listings tid h ++ [domains] } := by
  have hlists : listings tid [(.listed tid domains : SamplerEvent δ)] = [domains] := by
    simp [listings]
  have hdispatches : dispatches tid [(.listed tid domains : SamplerEvent δ)] = [] := rfl
  have herrors : errorWrites tid [(.listed tid domains : SamplerEvent δ)] = [] := rfl
  rw [fanOut, listings_append, dispatches_append, errorWrites_append, hlists, hdispatches, herrors,
    List.append_nil, List.append_nil]
  rfl

/-- What `list_domains_work` writes for a call that failed. -/
structure Failed (req : VmonRequest δ) (d : DispatchArgs SamplerFunction (VmonRequest δ) × ℤ)
    (w : ErrorWrite δ) : Prop where
  request : d.1.data.sr = req.sr
  domain : d.1.data.dom.isSome
  text : w.text = collectError w.env d.1.data d.2 false

/-- The listing for `req` succeeded, and the calls so far were made for the domains `called`. -/
structure FanOut.Listed (x : FanOut δ) (req : VmonRequest δ) (domains : List δ)
    (called : List (Option δ)) : Prop where
  listings : x.listings = [domains]
  dispatches : x.dispatches.map (fun d => d.1.data.dom) = called
  errors : List.Forall₂ (Failed req) (failures x.dispatches) x.errors

/-- What the work function did for `req`, where it returned `err`. -/
inductive FanOut.Returned (x : FanOut δ) (req : VmonRequest δ) (err : ℤ) : Prop
  | failed {env : Env δ} (hlistings : x.listings = []) (herr : err = libvirtError)
      (herrors : x.errors = [⟨env, req.dom, collectError env req libvirtError false⟩])
  | listed {domains : List δ} (hlisted : x.Listed req domains (domains.map some))
      (herr : err = lastError x.dispatches)

/-- How far thread `tid` is in the parent task of `req`. -/
inductive Listing (ctx : VmonContext) (tid : ℕ) (req : VmonRequest δ) (v : View δ)
    (events : List (SamplerEvent δ)) : Prop
  | called (hv : v.Called .listDomainsWork req) (hx : fanOut tid events = ⟨[], [], []⟩)
  | listing {domains left : List δ} {done : List (Option δ)} {err : ℤ}
      (hpc : v.thread.pc = .working) (hwork : v.thread.task.td.work = .client .listDomainsWork)
      (harg : v.thread.task.arg = req) (hframe : v.frame = .listing left err)
      (hlisted : (fanOut tid events).Listed req domains done)
      (herr : err = lastError (fanOut tid events).dispatches) (hpending : v.pending = [])
      (hleft : done ++ left.map some = domains.map some)
  | dispatching {domains left : List δ} {dom : δ} {done : List (Option δ)} {err : ℤ}
      (hpc : v.thread.pc = .working) (hwork : v.thread.task.td.work = .client .listDomainsWork)
      (harg : v.thread.task.arg = req) (hframe : v.frame = .listing left err)
      (hlisted : (fanOut tid events).Listed req domains done)
      (hpending : v.pending = [listDomainsDispatch ctx req dom])
      (hleft : done ++ some dom :: left.map some = domains.map some)
  | returned (hpc : v.thread.pc ∈ [Pc.worked, .cleared, .deleting, .finished])
      (harg : v.thread.task.arg = req) (hpending : v.pending = [])
      (hx : (fanOut tid events).Returned req v.thread.err)
  | collecting {err : ℤ} {timeout : Bool} (hpc : v.thread.pc = .collecting)
      (hframe : v.frame = .collecting err timeout)
      (htimeout : timeout = true → TimedOut tid events) (harg : v.thread.task.arg = req)
      (hpending : v.pending = []) (hx : (fanOut tid events).Returned req err)
  | reporting {ts : UInt64} {records : List (StatsRecord δ)} (hpc : v.thread.pc = .collecting)
      (hframe : v.frame = .reporting ts records) (hpending : v.pending = [])
      (hx : (fanOut tid events).Returned req 0)
  | timedOut (hpc : v.thread.pc = .get) (htimeout : TimedOut tid events)
  | succeeded (hpc : v.thread.pc = .get) (hx : (fanOut tid events).Returned req 0)
  | failed {x : FanOut δ} {err : ℤ} {env : Env δ} (hpc : v.thread.pc = .get) (herr : err ≠ 0)
      (hx : x.Returned req err) (hevents : fanOut tid events =
        { x with errors := x.errors ++ [⟨env, req.dom, collectError env req err false⟩] })

section Progress

variable {ctx : VmonContext} {tid : ℕ} {req : VmonRequest δ} {v v' : View δ}
  {input : Option (TaskInput δ)} {inputs : List (TaskInput δ)} {events es : List (SamplerEvent δ)}

variable (ctx) in
/-- `executor_dispatch` returned to the loop. -/
theorem listed_dispatched {domains : List δ} {done : List (Option δ)} (env : Env δ)
    (H : (fanOut tid events).Listed req domains done) (dom : δ) (ret : ℤ) :
    let es := Daemon.afterDispatch env (.dispatched (.worker tid) (listDomainsDispatch ctx req dom) ret)
    (fanOut tid (events ++ es)).Listed req domains (done ++ [some dom]) ∧
      lastError (fanOut tid (events ++ es)).dispatches = ret := by
  intro es
  have hlists : listings tid es = [] := by
    simp only [es, Daemon.afterDispatch, listings]
    split <;> simp
  have hdispatches : dispatches tid es = [(listDomainsDispatch ctx req dom, ret)] := by
    simp only [es, Daemon.afterDispatch, dispatches]
    split <;> simp
  obtain ⟨hlistings, hdone, herrors⟩ := H
  constructor
  · constructor
    · simpa [fanOut, hlists] using hlistings
    · simp only [fanOut] at hdone ⊢
      rw [dispatches_append, hdispatches, List.map_append, hdone]
      rfl
    · simp only [fanOut] at herrors ⊢
      rw [dispatches_append, hdispatches, failures_append, errorWrites_append]
      refine List.rel_append herrors ?_
      by_cases hret : ret = 0
      · simp [es, hret, Daemon.afterDispatch, errorWrites]
      · simp only [es, hret, if_false, Daemon.afterDispatch, errorWrites, ne_eq, not_false_eq_true,
          if_true, List.filterMap_cons, List.filterMap_nil]
        exact .cons ⟨rfl, rfl, rfl⟩ .nil
  · simp only [fanOut]
    rw [dispatches_append, hdispatches, lastError_append]

/-- **One step of the parent task.** -/
theorem Listing.step (H : Listing ctx tid req v events) (hin : v.InTask)
    (hs : Local ctx tid v input es v') : Listing ctx tid req v' (events ++ es) := by
  -- most steps say nothing about the fan-out
  have hquiet : ∀ {es : List (ExecutorEvent δ)}, (∀ caller args ret,
      .dispatched caller args ret ∉ es) →
      fanOut tid (events ++ es.map .exec) = fanOut tid events := by
    intro es hes
    apply fanOut_append
    · simp
    · simpa using fun args ret => hes _ args ret
    · simp
  cases H with
  | called hv hx =>
    cases hs with
    | stay => exact .called hv (by simpa using hx)
    | mark =>
      exact .called ⟨hv.pc, hv.frame, hv.work, hv.collect, hv.arg, hv.pending⟩ (by simpa using hx)
    | query _ hwork _ hquery =>
      rw [hv.work] at hwork
      cases hwork
      cases hquery
    | @listFails env hpc hwork hframe =>
      refine .returned (by simp [View.returned]) ?_ rfl (@FanOut.Returned.failed _ _ _ _ env ?_ rfl ?_)
      · simp [View.returned, hv.arg]
      · have := congrArg FanOut.listings hx
        simpa [fanOut, listings] using this
      · have := congrArg FanOut.errors hx
        simp only [fanOut] at this ⊢
        rw [errorWrites_append, this, hv.arg]
        simp [errorWrites]
    | @list domains hpc hwork hframe =>
      have hlistings : listings tid events = [] := congrArg FanOut.listings hx
      have hlisted := fanOut_listed tid events domains
      rw [hx, hlistings] at hlisted
      refine @Listing.listing _ _ _ _ _ _ domains domains [] _ hv.pc hv.work hv.arg rfl ?_ ?_
        hv.pending rfl
      · rw [hlisted]
        exact ⟨rfl, rfl, .nil⟩
      · rw [hlisted]
        rfl
    | refuse _ _ h => simp [hv.frame] at h
    | enter _ _ h => simp [hv.frame] at h
    | put h => simp [hv.pending] at h
    | listReturn _ _ h => simp [hv.frame] at h
    | statement h => simp [hv.pc] at h
    | callCollect h => simp [hv.pc] at h
    | collectFails h => simp [hv.pc] at h
    | collectStart h => simp [hv.pc] at h
    | collectRecord h => simp [hv.pc] at h
    | collectEnd h => simp [hv.pc] at h
  | @listing domains left done err hpc hwork harg hframe hlisted herr hpending hleft =>
    cases hs with
    | stay =>
      exact .listing hpc hwork harg hframe (by simpa using hlisted) (by simpa using herr) hpending
        hleft
    | mark =>
      exact .listing hpc hwork harg hframe (by simpa using hlisted) (by simpa using herr) hpending
        hleft
    | @refuse env dom domains' err' ret _ _ hframe' =>
      obtain ⟨rfl, rfl⟩ : left = dom :: domains' ∧ err = err' := by simpa [hframe] using hframe'
      obtain ⟨hlisted', hlast⟩ := listed_dispatched ctx env hlisted dom ret
      rw [harg]
      refine @Listing.listing _ _ _ _ _ _ _ domains' _ _ hpc hwork harg rfl hlisted' hlast.symm
        hpending ?_
      simpa using hleft
    | @enter dom domains' err' _ _ hframe' =>
      obtain ⟨rfl, rfl⟩ : left = dom :: domains' ∧ err = err' := by simpa [hframe] using hframe'
      refine @Listing.dispatching _ _ _ _ _ _ _ domains' dom _ _ hpc hwork harg rfl
        (by simpa using hlisted) ?_ hleft
      rw [harg]
    | @listReturn err' _ _ hframe' =>
      obtain ⟨rfl, rfl⟩ : left = [] ∧ err = err' := by simpa [hframe] using hframe'
      obtain rfl : done = domains.map some := by simpa using hleft
      have hsame := @hquiet [.workReturned tid v.thread.ticket err v.thread.task.arg] (by simp)
      refine .returned (by simp [View.returned]) (by simpa [View.returned] using harg) rfl ?_
      rw [List.map_singleton] at hsame
      rw [hsame]
      exact .listed hlisted herr
    | query _ _ h => simp [hframe] at h
    | listFails _ _ h => simp [hframe] at h
    | list _ _ h => simp [hframe] at h
    | put h => simp [hpending] at h
    | statement h => simp [hpc] at h
    | callCollect h => simp [hpc] at h
    | collectFails h => simp [hpc] at h
    | collectStart h => simp [hpc] at h
    | collectRecord h => simp [hpc] at h
    | collectEnd h => simp [hpc] at h
  | @dispatching domains left dom done err hpc hwork harg hframe hlisted hpending hleft =>
    cases hs with
    | stay => exact .dispatching hpc hwork harg hframe (by simpa using hlisted) hpending hleft
    | mark => exact .dispatching hpc hwork harg hframe (by simpa using hlisted) hpending hleft
    | @put env args ret hpending' =>
      obtain rfl : listDomainsDispatch ctx req dom = args := by simpa [hpending] using hpending'
      obtain ⟨hlisted', hlast⟩ := listed_dispatched ctx env hlisted dom ret
      refine @Listing.listing _ _ _ _ _ _ _ left _ _ hpc hwork harg ?_ hlisted' hlast.symm rfl ?_
      · simp [View.dispatched, hframe]
      · simpa [listDomainsDispatch] using hleft
    | query _ _ h => simp [hframe] at h
    | listFails _ _ h => simp [hframe] at h
    | list _ _ h => simp [hframe] at h
    | refuse _ _ _ h => simp [hpending] at h
    | enter _ _ _ h => simp [hpending] at h
    | listReturn _ _ _ h => simp [hpending] at h
    | statement h => simp [hpc] at h
    | callCollect h => simp [hpc] at h
    | collectFails h => simp [hpc] at h
    | collectStart h => simp [hpc] at h
    | collectRecord h => simp [hpc] at h
    | collectEnd h => simp [hpc] at h
  | returned hpc harg hpending hx =>
    have hworking : v.thread.pc ≠ .working := fun h => by simp [h] at hpc
    have hcollecting : v.thread.pc ≠ .collecting := fun h => by simp [h] at hpc
    cases hs with
    | stay => exact .returned hpc harg hpending (by simpa using hx)
    | mark =>
      refine .returned hpc harg hpending ?_
      rw [List.append_nil]
      exact hx
    | put h => simp [hpending] at h
    | @statement pc es hnext hes =>
      refine .returned ?_ harg hpending ?_
      · simp only [List.mem_cons, Prod.mk.injEq, List.not_mem_nil, or_false] at hnext
        rcases hnext with ⟨-, rfl⟩ | ⟨-, rfl⟩ | ⟨-, rfl⟩ | ⟨-, rfl⟩ <;> simp
      · rw [hquiet (by rcases hes with rfl | ⟨id, rfl⟩ <;> simp)]
        exact hx
    | callCollect =>
      have hsame := @hquiet [.collectCalled tid v.thread.ticket v.thread.task.td.collect
        v.thread.task.arg v.thread.err v.thread.task.td.discarded] (by simp)
      rw [List.map_singleton] at hsame
      refine .collecting rfl rfl ?_ harg hpending (by rw [hsame]; exact hx)
      intro htimeout
      rw [htimeout]
      exact ⟨_, _, _, _, List.mem_append_right _ (List.mem_singleton_self _)⟩
    | query h => exact absurd h hworking
    | listFails h => exact absurd h hworking
    | list h => exact absurd h hworking
    | refuse h => exact absurd h hworking
    | enter h => exact absurd h hworking
    | listReturn h => exact absurd h hworking
    | collectFails h => exact absurd h hcollecting
    | collectStart h => exact absurd h hcollecting
    | collectRecord h => exact absurd h hcollecting
    | collectEnd h => exact absurd h hcollecting
  | @collecting err timeout hpc hframe htimeout harg hpending hx =>
    cases hs with
    | stay =>
      exact .collecting hpc hframe (fun h => (htimeout h).append _) harg hpending (by simpa using hx)
    | mark =>
      exact .collecting hpc hframe (fun h => (htimeout h).append _) harg hpending (by simpa using hx)
    | put h => simp [hpending] at h
    | @collectFails env err' timeout' hpc' hframe' herr =>
      obtain ⟨rfl, rfl⟩ : err = err' ∧ timeout = timeout' := by simpa [hframe] using hframe'
      cases timeout with
      | true => exact .timedOut rfl ((htimeout rfl).append _)
      | false =>
        refine @Listing.failed _ _ _ _ _ _ _ _ env rfl (by simpa using herr) hx ?_
        simp [fanOut, harg, listings, dispatches, errorWrites, Daemon.freeDomain]
    | @collectStart ts hpc' hframe' =>
      obtain ⟨rfl, rfl⟩ : err = 0 ∧ timeout = false := by simpa [hframe] using hframe'
      exact .reporting hpc rfl hpending (by simpa using hx)
    | collectRecord _ h => simp [hframe] at h
    | collectEnd _ h => simp [hframe] at h
    | query h => simp [hpc] at h
    | listFails h => simp [hpc] at h
    | list h => simp [hpc] at h
    | refuse h => simp [hpc] at h
    | enter h => simp [hpc] at h
    | listReturn h => simp [hpc] at h
    | statement h => simp [hpc] at h
    | callCollect h => simp [hpc] at h
  | reporting hpc hframe hpending hx =>
    cases hs with
    | stay => exact .reporting hpc hframe hpending (by simpa using hx)
    | mark => exact .reporting hpc hframe hpending (by simpa using hx)
    | put h => simp [hpending] at h
    | collectRecord =>
      refine .reporting hpc rfl hpending ?_
      rw [fanOut_append (by simp) (by simp) (by simp)]
      exact hx
    | collectEnd =>
      refine .succeeded rfl ?_
      rw [fanOut_append (by simp [Daemon.freeDomain]) (by simp [Daemon.freeDomain])
        (by simp [Daemon.freeDomain])]
      exact hx
    | collectFails _ h => simp [hframe] at h
    | collectStart _ h => simp [hframe] at h
    | query h => simp [hpc] at h
    | listFails h => simp [hpc] at h
    | list h => simp [hpc] at h
    | refuse h => simp [hpc] at h
    | enter h => simp [hpc] at h
    | listReturn h => simp [hpc] at h
    | statement h => simp [hpc] at h
    | callCollect h => simp [hpc] at h
  | timedOut hpc htimeout => exact absurd hin.pc (by simp [hpc])
  | succeeded hpc hx => exact absurd hin.pc (by simp [hpc])
  | failed hpc herr hx hevents => exact absurd hin.pc (by simp [hpc])

theorem listing_of_replay {v₀ : View δ} (hcalled : v₀.Called .listDomainsWork req)
    (hr : Replay ctx tid v₀ inputs events v) : Listing ctx tid req v events := by
  induction hr with
  | refl => exact .called hcalled rfl
  | snoc _ hin hs ih => exact ih.step hin hs

end Progress

/-! ## The errors of a run -/

section Runs

variable {ctx : VmonContext} {workersCount maxTasks tid : ℕ} {req : VmonRequest δ}
  {moves : List (SamplerMove δ)} {h : List (SamplerEvent δ)}

theorem fanOut_filter (h : List (SamplerEvent δ)) :
    fanOut tid (h.filter fun e => e.tid = some tid) = fanOut tid h := by
  rw [fanOut, listings_filter, dispatches_filter, errorWrites_filter]
  rfl

/-- What the parent task of a run did, unless it timed out. -/
theorem returned_of_taskRun
    (hr : TaskRun ctx workersCount maxTasks tid .listDomainsWork req moves h)
    (htime : ¬TimedOut tid h) :
    ∃ x err, FanOut.Returned x req err ∧ ((err = 0 ∧ fanOut tid h = x) ∨ (err ≠ 0 ∧ ∃ env : Env δ,
      fanOut tid h =
        { x with errors := x.errors ++ [⟨env, req.dom, collectError env req err false⟩] })) := by
  obtain ⟨v₀, v, hcalled, hget, hreplay⟩ := hr.replay
  cases listing_of_replay hcalled hreplay with
  | called hv => simp [hv.pc] at hget
  | listing hpc => simp [hpc] at hget
  | dispatching hpc => simp [hpc] at hget
  | returned hpc => simp [hget] at hpc
  | collecting hpc => simp [hpc] at hget
  | reporting hpc => simp [hpc] at hget
  | timedOut hpc htimeout => exact absurd (timedOut_filter.mp htimeout) htime
  | succeeded hpc hx => exact ⟨_, 0, hx, .inl ⟨rfl, (fanOut_filter h).symm⟩⟩
  | @failed x err env hpc herr hx hevents =>
    rw [fanOut_filter] at hevents
    exact ⟨x, err, hx, .inr ⟨herr, env, hevents⟩⟩

/-- What a task writes, it writes in the environment of one of its moves. -/
theorem env_of_mem_errorWrites {f : SamplerFunction}
    (hr : TaskRun ctx workersCount maxTasks tid f req moves h) {w : ErrorWrite δ}
    (hw : w ∈ errorWrites tid h) : ∃ m ∈ moves, m.action.env = some w.env := by
  obtain ⟨e, he, hwrite⟩ := List.mem_filterMap.mp hw
  have henv : e.env = some w.env := by
    cases e <;> simp only [reduceCtorEq, Option.ite_none_right_eq_some, Option.some.injEq] at hwrite
    rw [← hwrite.2]
    rfl
  obtain ⟨m, hm, -, hact⟩ := hr.writtenInMoves e he w.env henv
  exact ⟨m, hm, hact⟩

section Names

variable {unparse : Uuid → Bytes} {vmUuid : δ → Option Bytes}

/-- The response for a call that failed carries the id of the domain, if there is one. -/
theorem Failed.reports_iff {d : DispatchArgs SamplerFunction (VmonRequest δ) × ℤ}
    {w : ErrorWrite δ} (hd : Failed req d w) (hplain : w.env.Plain)
    (hnames : w.env.Names unparse vmUuid) :
    ReportsFailure vmUuid (unparse req.sr.uuid) d w ↔
      ∀ dom ∈ d.1.data.dom, (vmUuid dom).isSome := by
  obtain ⟨dom, hdom⟩ := Option.isSome_iff_exists.mp hd.domain
  rw [ReportsFailure, hdom]
  constructor
  · rintro ⟨dom', vmId, heq, hid, -⟩ dom'' hmem
    obtain rfl : dom = dom' := Option.some.inj heq
    obtain rfl : dom = dom'' := Option.some.inj hmem
    simp [hid]
  · intro hsome
    obtain ⟨vmId, hid⟩ := Option.isSome_iff_exists.mp (hsome dom rfl)
    have htext := errorFor_collectError hplain hnames d.1.data d.2 false
    rw [← hd.text, hd.request, hdom, Option.bind_some, hid] at htext
    exact ⟨dom, vmId, rfl, hid, htext⟩

theorem forall₂_reports_iff {ds : List (DispatchArgs SamplerFunction (VmonRequest δ) × ℤ)}
    {ws : List (ErrorWrite δ)} (hfailed : List.Forall₂ (Failed req) ds ws)
    (henv : ∀ w ∈ ws, w.env.Plain ∧ w.env.Names unparse vmUuid) :
    List.Forall₂ (ReportsFailure vmUuid (unparse req.sr.uuid)) ds ws ↔
      ∀ d ∈ ds, ∀ dom ∈ d.1.data.dom, (vmUuid dom).isSome := by
  induction hfailed with
  | nil => simp
  | cons hd _ ih =>
    obtain ⟨⟨hplain, hnames⟩, henv⟩ := List.forall_mem_cons.mp henv
    rw [List.forall₂_cons, List.forall_mem_cons, ih henv, hd.reports_iff hplain hnames]

/-- **The parent task writes the error responses it should exactly where the listing succeeded,
the last dispatch did, and the domains of the others have uuids.** -/
theorem fan_out_errors_iff
    (hr : TaskRun ctx workersCount maxTasks tid .listDomainsWork req moves h)
    (htime : ¬TimedOut tid h)
    (henv : ∀ m ∈ moves, ∀ env ∈ m.action.env, env.Plain ∧ env.Names unparse vmUuid) :
    FanOutErrors vmUuid (unparse req.sr.uuid) tid h ↔
      listings tid h ≠ [] ∧ lastError (dispatches tid h) = 0 ∧
        ∀ d ∈ failures (dispatches tid h), ∀ dom ∈ d.1.data.dom, (vmUuid dom).isSome := by
  obtain ⟨x, err, hx, hend⟩ := returned_of_taskRun hr htime
  have hwrites : ∀ w ∈ errorWrites tid h, w.env.Plain ∧ w.env.Names unparse vmUuid := by
    intro w hw
    obtain ⟨m, hm, hact⟩ := env_of_mem_errorWrites hr hw
    exact henv m hm w.env hact
  rcases hend with ⟨rfl, rfl⟩ | ⟨herr, env, hevents⟩
  · cases hx with
    | failed _ herr => simp [libvirtError] at herr
    | @listed domains hlisted herr =>
      have hlistings : listings tid h = [domains] := hlisted.listings
      have hreports := forall₂_reports_iff hlisted.errors hwrites
      constructor
      · intro H
        exact ⟨by simp [hlistings], herr.symm, hreports.mp (H.listed domains hlistings).2⟩
      · rintro ⟨-, -, hnamed⟩
        refine ⟨fun hnone => by simp [hlistings] at hnone, ?_⟩
        intro domains' hsome
        obtain rfl : domains = domains' := by simpa [hlistings] using hsome
        exact ⟨hlisted.dispatches, hreports.mpr hnamed⟩
  · have hlistings : listings tid h = x.listings := congrArg FanOut.listings hevents
    have hdispatches : dispatches tid h = x.dispatches := congrArg FanOut.dispatches hevents
    have herrors : errorWrites tid h = x.errors ++ [⟨env, req.dom, collectError env req err false⟩] :=
      congrArg FanOut.errors hevents
    cases hx with
    | failed hnone _ hone =>
      -- the collect function wrote a second error response
      refine iff_of_false ?_ ?_
      · intro H
        obtain ⟨w, vmId, htwo, -⟩ := H.failed (hlistings.trans hnone)
        rw [herrors, hone] at htwo
        simp at htwo
      · rintro ⟨hne, -⟩
        exact hne (hlistings.trans hnone)
    | @listed domains hlisted hlast =>
      refine iff_of_false ?_ ?_
      · intro H
        obtain ⟨-, hreports⟩ := H.listed domains (hlistings.trans hlisted.listings)
        have hlength := hreports.length_eq
        rw [hdispatches, hlisted.errors.length_eq, herrors] at hlength
        simp at hlength
      · rintro ⟨-, hzero, -⟩
        rw [hdispatches] at hzero
        exact herr (hlast.trans hzero)

end Names

end Runs

/-! ## One request -/

/-- An environment that lists `domains`, all uuids of which are zero. -/
private def listingEnv (domains : Option (List ℕ)) : Env ℕ :=
  let env := sampleEnv domains none
  { env with host := { env.host with uuidString := fun _ => some zeroUuid }
             uuidUnparse := fun _ => zeroUuid }

private theorem listingEnv_names (domains : Option (List ℕ)) : (listingEnv domains).Plain ∧
    (listingEnv domains).Names (fun _ => zeroUuid) fun _ => some zeroUuid := by
  refine ⟨⟨fun _ => zeroUuid_plain, ?_⟩, rfl, rfl⟩
  intro dom text htext
  obtain rfl : zeroUuid = text := by simpa [listingEnv] using htext
  exact zeroUuid_plain

/-- The parent task, with its listing and `n` domains of which each is dispatched. -/
private def parentSteps (env : Env ℕ) (n m : ℕ) : List (SamplerAction ℕ) :=
  [SamplerAction.work 0 env] ++
    (List.replicate n [SamplerAction.work 0 env, .call 0 env]).flatten ++
    List.replicate m (SamplerAction.work 0 env) ++ List.replicate 4 (SamplerAction.thread 0) ++
    List.replicate m (SamplerAction.collect 0 env)

private def fanOutTrace (domains : Option (List ℕ)) (n m : ℕ) :=
  taskTrace sampleContext 1 4 0 (requestSteps (listingEnv domains))
    (parentSteps (listingEnv domains) n m) (.collect 0 (listingEnv domains))

private theorem parentSteps_names {domains : Option (List ℕ)} {n m : ℕ}
    {moves : List (SamplerMove ℕ)} (hmoves : moves.map Move.action =
      parentSteps (listingEnv domains) n m ++ [.collect 0 (listingEnv domains)]) :
    ∀ move ∈ moves, ∀ env ∈ move.action.env,
      env.Plain ∧ env.Names (fun _ => zeroUuid) fun _ => some zeroUuid := by
  have hsteps : ∀ a ∈ parentSteps (listingEnv domains) n m ++ [.collect 0 (listingEnv domains)],
      ∀ env ∈ a.env, listingEnv domains = env := by
    intro a ha env henv
    have hcase : a = .work 0 (listingEnv domains) ∨ a = .call 0 (listingEnv domains) ∨
        a = .thread 0 ∨ a = .collect 0 (listingEnv domains) := by
      simp only [parentSteps, List.mem_append, List.mem_flatten, List.mem_replicate,
        List.mem_singleton] at ha
      aesop
    rcases hcase with rfl | rfl | rfl | rfl
    · exact Option.some.inj henv
    · exact Option.some.inj henv
    · cases henv
    · exact Option.some.inj henv
  intro move hmove env henv
  rw [← hsteps move.action (hmoves ▸ List.mem_map_of_mem hmove) env henv]
  exact listingEnv_names domains

theorem fan_out_errors_iff_one_domain : ∃ (req : VmonRequest ℕ)
    (moves : List (SamplerMove ℕ)) (h : List (SamplerEvent ℕ)),
    TaskRun sampleContext 1 4 0 .listDomainsWork req moves h ∧ listings 0 h = [[0]] ∧
      (FanOutErrors (fun _ : ℕ => some zeroUuid) zeroUuid 0 h ↔
        listings 0 h ≠ [] ∧ lastError (dispatches 0 h) = 0 ∧
          ∀ d ∈ failures (dispatches 0 h), ∀ dom ∈ d.1.data.dom, (some zeroUuid).isSome) := by
  obtain ⟨f, req, moves, h, hr, hmoves, hp⟩ := exists_taskRun sampleContext 1 4 0 _ _ _
    (fun f _ _ h => decide (f = .listDomainsWork) && !decide (TimedOut 0 h) &&
      decide (listings 0 h = [[0]]))
    (by decide : (fanOutTrace (some [0]) 1 1).any _ = true)
  simp only [Bool.and_eq_true, decide_eq_true_eq, Bool.not_eq_true',
    decide_eq_false_iff_not] at hp
  obtain ⟨⟨rfl, htime⟩, hlist⟩ := hp
  exact ⟨req, moves, h, hr, hlist, fan_out_errors_iff hr htime (parentSteps_names hmoves)⟩

/-- A listing that fails is answered by two error responses. -/
theorem fan_out_errors_fails : ∃ (req : VmonRequest ℕ)
    (moves : List (SamplerMove ℕ)) (h : List (SamplerEvent ℕ)),
    TaskRun sampleContext 1 4 0 .listDomainsWork req moves h ∧ ¬TimedOut 0 h ∧
      listings 0 h = [] ∧ (errorWrites 0 h).length = 2 ∧
      ∀ vmUuid reqId, ¬FanOutErrors vmUuid reqId 0 h := by
  obtain ⟨f, req, moves, h, hr, -, hp⟩ := exists_taskRun sampleContext 1 4 0 _ _ _
    (fun f _ _ h => decide (f = .listDomainsWork) && !decide (TimedOut 0 h) &&
      decide (listings 0 h = []) && decide ((errorWrites 0 h).length = 2))
    (by decide : (fanOutTrace none 0 0).any _ = true)
  simp only [Bool.and_eq_true, decide_eq_true_eq, Bool.not_eq_true',
    decide_eq_false_iff_not] at hp
  obtain ⟨⟨⟨rfl, htime⟩, hlist⟩, hlength⟩ := hp
  refine ⟨req, moves, h, hr, htime, hlist, hlength, ?_⟩
  intro vmUuid reqId H
  obtain ⟨w, vmId, herror, -⟩ := H.failed hlist
  simp [herror] at hlength

end Vmon
