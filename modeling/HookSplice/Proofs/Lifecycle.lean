import HookSplice.Proofs.EventSimulation

/-!
# The lifecycle of invocations

Whatever calls an invocation gets, in whatever order, its history is the beginning of a complete
one: every subscriber of one dispatch announced once and in order, then the verdict, then the exit
that the verdict implies.  Driving a payload through a bus gives exactly such a complete history, as
soon as the dispatch has come back.
-/

namespace HookSplice.Event.Invocation

/-! ### Complete histories -/

/-- The phases before subscriber `k` of `count` is announced. -/
def begun (count k : Nat) : List Phase :=
  [.entered, .payloadConstructed] ++ (List.range k).map fun index => .dispatching index count

/-- The phases of a finished invocation with `count` subscribers. -/
def complete (count : Nat) (verdict : Verdict) : List Phase :=
  begun count count ++ [.dispatched, .decided verdict, .finished verdict.exit]

theorem begun_succ (count k : Nat) :
    begun count (k + 1) = begun count k ++ [.dispatching k count] := by
  simp [begun, List.range_succ]

theorem begun_isPrefix {count k : Nat} (within : k ≤ count) :
    begun count k <+: begun count count := by
  have shorter : List.range k <+: List.range count := by
    rw [← Nat.min_eq_left within, ← List.take_range]
    exact List.take_prefix k _
  exact (List.prefix_append_right_inj _).mpr (shorter.map _)

/-- A phase that an invocation can be in, and the phases it went through before. -/
inductive Reached : List Phase → Phase → Prop
  | entered : Reached [] .entered
  | payloadConstructed : Reached [.entered] .payloadConstructed
  | dispatching {count k : Nat} (below : k < count) : Reached (begun count k) (.dispatching k count)
  | dispatched (count : Nat) : Reached (begun count count) .dispatched
  | decided (count : Nat) (verdict : Verdict) :
      Reached (begun count count ++ [.dispatched]) (.decided verdict)
  | finished (count : Nat) (verdict : Verdict) :
      Reached (begun count count ++ [.dispatched, .decided verdict]) (.finished verdict.exit)

theorem Reached.isPrefix {past : List Phase} {current : Phase} (reached : Reached past current) :
    ∃ count verdict, past ++ [current] <+: complete count verdict := by
  cases reached with
  | entered => exact ⟨0, .allowed, _, rfl⟩
  | payloadConstructed => exact ⟨0, .allowed, _, rfl⟩
  | @dispatching count k below =>
      refine ⟨count, .allowed, ?_⟩
      rw [← begun_succ]
      exact (begun_isPrefix below).trans (List.prefix_append _ _)
  | dispatched count => exact ⟨count, .allowed, _, List.append_assoc ..⟩
  | decided count verdict => exact ⟨count, verdict, [.finished verdict.exit], by simp [complete]⟩
  | finished count verdict => exact ⟨count, verdict, [], by simp [complete]⟩

/-- A phase that may follow is reached through the current one. -/
theorem Reached.goes {past : List Phase} {current target : Phase} (reached : Reached past current)
    (allowed : current.mayPrecede target) : Reached (past ++ [current]) target := by
  cases reached with
  | entered =>
      cases target with
      | payloadConstructed => exact .payloadConstructed
      | _ => cases allowed
  | payloadConstructed =>
      match target, allowed with
      | .dispatching 0 count, allowed =>
          have positive : 0 < count := by simpa [Phase.mayPrecede] using allowed
          exact .dispatching positive
      | .dispatched, _ => exact .dispatched 0
  | @dispatching count k below =>
      rw [← begun_succ]
      cases target with
      | dispatching next count' =>
          have follows : (count' = count ∧ next = k + 1) ∧ next < count := by
            simpa [Phase.mayPrecede] using allowed
          obtain ⟨⟨rfl, rfl⟩, below'⟩ := follows
          exact .dispatching below'
      | dispatched =>
          have last : k + 1 = count := by simpa [Phase.mayPrecede] using allowed
          rw [last]
          exact .dispatched count
      | _ => cases allowed
  | dispatched count =>
      cases target with
      | decided verdict => exact .decided count verdict
      | _ => cases allowed
  | decided count verdict =>
      cases target with
      | finished exit =>
          have implied : verdict.exit = exit := by simpa [Phase.mayPrecede] using allowed
          subst implied
          rw [List.append_assoc]
          exact .finished count verdict
      | _ => cases allowed
  | finished count verdict => cases target <;> cases allowed

/-! ### Sequences of calls -/

/-- The calls that lead an invocation from phase to phase. -/
inductive Call where
  | payloadConstructed
  | dispatching (index count : Nat)
  | dispatched
  | decide (verdict : Verdict)
  | finish

/-- The invocation behind a call that is accepted. -/
def Call.perform (i : Invocation) : Call → Except InvalidTransition Invocation
  | payloadConstructed => i.advance .payloadConstructed
  | dispatching index count => i.advance (.dispatching index count)
  | dispatched => i.advance .dispatched
  | decide verdict => i.advance (.decided verdict)
  | finish => i.finish

/-- The answer to a call, and the invocation behind it. -/
def Call.answer (i : Invocation) (call : Call) : Except InvalidTransition Unit × Invocation :=
  match call.perform i with
  | .ok next => (.ok (), next)
  | .error fault => (.error fault, i)

/-- The invocation behind a sequence of calls. -/
def performed (hook : String) (calls : List Call) : Invocation :=
  calls.foldl (fun i call => (call.answer i).2) (enter hook)

theorem advance_inv {i next : Invocation} {target : Phase}
    (accepted : i.advance target = .ok next) :
    i.phase.mayPrecede target ∧ next.hook = i.hook ∧ next.phase = target ∧
      next.history = i.history ++ [target] := by
  unfold advance at accepted
  split at accepted
  · next allowed =>
      cases accepted
      exact ⟨allowed, rfl, by simp [phase], rfl⟩
  · cases accepted

theorem finish_inv {i next : Invocation} (accepted : i.finish = .ok next) :
    ∃ verdict, i.phase = .decided verdict ∧ i.advance (.finished verdict.exit) = .ok next := by
  unfold finish at accepted
  split at accepted
  · next verdict decided => exact ⟨verdict, decided, accepted⟩
  · cases accepted

/-- Accepted calls advance the invocation. -/
theorem Call.perform_inv {i next : Invocation} {call : Call}
    (accepted : call.perform i = .ok next) :
    ∃ target, i.advance target = .ok next := by
  cases call with
  | finish =>
      obtain ⟨verdict, -, advanced⟩ := finish_inv accepted
      exact ⟨_, advanced⟩
  | _ => exact ⟨_, accepted⟩

/-- The history of an invocation ends in its phase, which can be reached that way. -/
def OnTrack (i : Invocation) : Prop :=
  ∃ past, i.history = past ++ [i.phase] ∧ Reached past i.phase

theorem onTrack_enter (hook : String) : (enter hook).OnTrack :=
  ⟨[], rfl, .entered⟩

theorem OnTrack.advance {i next : Invocation} {target : Phase} (track : i.OnTrack)
    (accepted : i.advance target = .ok next) : next.OnTrack := by
  obtain ⟨past, history, reached⟩ := track
  obtain ⟨allowed, -, phase, longer⟩ := advance_inv accepted
  refine ⟨past ++ [i.phase], ?_, ?_⟩
  · rw [longer, history, phase]
  · rw [phase]
    exact reached.goes allowed

theorem OnTrack.answer {i : Invocation} (track : i.OnTrack) (call : Call) :
    (call.answer i).2.OnTrack := by
  unfold Call.answer
  cases accepted : call.perform i with
  | error fault => exact track
  | ok next =>
      obtain ⟨target, advanced⟩ := Call.perform_inv accepted
      exact track.advance advanced

theorem onTrack_performed (hook : String) (calls : List Call) : (performed hook calls).OnTrack := by
  suffices ∀ i : Invocation, i.OnTrack →
      (calls.foldl (fun i call => (call.answer i).2) i).OnTrack from this _ (onTrack_enter hook)
  induction calls with
  | nil => exact fun _ track => track
  | cons call rest ih => exact fun _ track => ih _ (track.answer call)

theorem answer_of_rejected {i : Invocation} {call : Call} {fault : InvalidTransition}
    (rejected : (call.answer i).1 = .error fault) : (call.answer i).2 = i := by
  unfold Call.answer at rejected ⊢
  cases result : call.perform i with
  | error _ => rfl
  | ok next =>
      rw [result] at rejected
      cases rejected

theorem rejected_of_finished {i : Invocation} (finished : i.isFinished) (call : Call) :
    ∃ fault, (call.answer i).1 = .error fault := by
  obtain ⟨exit, phase⟩ : ∃ exit, i.phase = .finished exit := by
    unfold isFinished exit? at finished
    split at finished
    · next exit phase => exact ⟨exit, phase⟩
    · cases finished
  unfold Call.answer
  cases result : call.perform i with
  | error fault => exact ⟨fault, rfl⟩
  | ok next =>
      obtain ⟨target, advanced⟩ := Call.perform_inv result
      obtain ⟨allowed, -⟩ := advance_inv advanced
      rw [phase] at allowed
      cases target <;> cases allowed

/-! ### Dispatches -/

theorem foldlM_advance_inv {i next : Invocation} {targets : List Phase}
    (accepted : targets.foldlM advance i = .ok next) :
    next.hook = i.hook ∧ next.history = i.history ++ targets := by
  induction targets generalizing i with
  | nil =>
      cases accepted
      exact ⟨rfl, (List.append_nil _).symm⟩
  | cons target rest ih =>
      rw [List.foldlM_cons] at accepted
      obtain ⟨middle, first, later⟩ := Except.bind_eq_ok accepted
      obtain ⟨-, hook, -, longer⟩ := advance_inv first
      obtain ⟨hook', longer'⟩ := ih later
      refine ⟨hook'.trans hook, ?_⟩
      rw [longer', longer, List.append_assoc]
      rfl

/-- An invocation that follows a delivery goes through everything that was announced. -/
theorem ofDelivery_inv {hook : String} {d : Delivery} {i : Invocation}
    (followed : ofDelivery hook d = .ok i) :
    i.hook = hook ∧ i.phase = .finished d.report.verdict.exit ∧
      i.history = [.entered, .payloadConstructed] ++
        d.progress.map (fun e => .dispatching e.1 e.2) ++
        [.dispatched, .decided d.report.verdict, .finished d.report.verdict.exit] := by
  rw [ofDelivery_eq] at followed
  obtain ⟨i₁, constructed, followed⟩ := Except.bind_eq_ok followed
  obtain ⟨i₂, announced, followed⟩ := Except.bind_eq_ok followed
  obtain ⟨i₃, dispatched, followed⟩ := Except.bind_eq_ok followed
  obtain ⟨i₄, decided, followed⟩ := Except.bind_eq_ok followed
  obtain ⟨verdict, phase, finished⟩ := finish_inv followed
  rw [← List.foldlM_map] at announced
  obtain ⟨-, hook₁, -, history₁⟩ := advance_inv constructed
  obtain ⟨hook₂, history₂⟩ := foldlM_advance_inv announced
  obtain ⟨-, hook₃, -, history₃⟩ := advance_inv dispatched
  obtain ⟨-, hook₄, phase₄, history₄⟩ := advance_inv decided
  obtain ⟨-, hook₅, phase₅, history₅⟩ := advance_inv finished
  obtain rfl : d.report.verdict = verdict := Phase.decided.inj (phase₄.symm.trans phase)
  refine ⟨by rw [hook₅, hook₄, hook₃, hook₂, hook₁]; rfl, phase₅, ?_⟩
  rw [history₅, history₄, history₃, history₂, history₁]
  simp [history, enter]

/-- Driving a payload through a bus gives a complete history. -/
theorem ofDelivery_complete {ρ : Type} {depth : Nat} {s t : BusState ρ} {hook : String}
    {payload : Payload} {d : Delivery} {i : Invocation}
    (came : s.dispatch? depth hook payload = some (d, t)) (followed : ofDelivery hook d = .ok i) :
    i.hook = hook ∧ d.report.delivered = (s.bus.subscribersOf hook).length ∧
      i.exit? = some d.report.verdict.exit ∧
      i.history = complete d.report.delivered d.report.verdict := by
  obtain ⟨failures, -, report, progress⟩ := deliver_eq_some.mp came
  obtain ⟨hook', phase, history⟩ := ofDelivery_inv followed
  have delivered : d.report.delivered = (s.bus.subscribersOf hook).length := by rw [report]
  refine ⟨hook', delivered, ?_, ?_⟩
  · unfold exit?
    rw [phase]
  · rw [history, progress, delivered]
    simp [complete, begun]

/-- The lifecycle of an invocation.  Whatever is called on it, its history is the beginning of a
    complete one, calls that are rejected leave it as it was, and nothing is accepted behind its
    exit.  Driving a payload through a bus comes back when the handlers of the subscribers do, and
    to whatever depth they dispatch in their turn: what comes back is no failure and has a complete
    history, with the number of subscribers that were live and the verdict of the report, and is the
    same within every greater depth. -/
theorem lifecycle (hook : String) :
    (∀ calls : List Call,
      (∃ count verdict, (performed hook calls).history <+: complete count verdict) ∧
      (∀ call fault, (Call.answer (performed hook calls) call).1 = .error fault →
        (Call.answer (performed hook calls) call).2 = performed hook calls) ∧
      ((performed hook calls).isFinished →
        ∀ call, ∃ fault, (Call.answer (performed hook calls) call).1 = .error fault)) ∧
    ∀ {ρ : Type} (depth : Nat) (s : BusState ρ) (payload : Payload),
      ((∀ x ∈ s.bus.subscribersOf hook, x.handler.Returns (dispatchWithin depth)) →
        (run? depth s hook payload).isSome) ∧
      ∀ result d t, run? depth s hook payload = some (result, d, t) →
        (∀ more, run? (depth + more) s hook payload = some (result, d, t)) ∧
        ∃ i, result = .ok i ∧ i.hook = hook ∧
          d.report.delivered = (s.bus.subscribersOf hook).length ∧
          i.history = complete d.report.delivered d.report.verdict := by
  refine ⟨fun calls => ⟨?_, fun call fault => answer_of_rejected, rejected_of_finished⟩,
    fun {ρ} depth s payload => ⟨fun returns => ?_, fun result d t ran => ?_⟩⟩
  · obtain ⟨past, history, reached⟩ := onTrack_performed hook calls
    rw [history]
    exact reached.isPrefix
  · obtain ⟨⟨d, t⟩, came⟩ := Option.isSome_iff_exists.mp (BusState.isSome_dispatch? returns payload)
    exact Option.isSome_of_eq_some (run?_eq_some.mpr ⟨came, rfl⟩)
  · obtain ⟨came, rfl⟩ := run?_eq_some.mp ran
    obtain ⟨i, followed⟩ := exists_ofDelivery came
    obtain ⟨hook', delivered, -, history⟩ := ofDelivery_complete came followed
    exact ⟨fun more => run?_eq_some.mpr ⟨BusState.dispatch?_add came more, rfl⟩,
      i, followed, hook', delivered, history⟩

/-- A bus with one subscriber to sales, who keeps a note of each. -/
def counted : BusState Unit :=
  ⟨(Bus.empty.subscribe "sell" (.note () (.finish .done))).2, []⟩

/-- An event without subscribers that is denied: nothing is accepted any more.  The invocations of
    the counted sales come back at every depth, because the subscriber dispatches nothing. -/
theorem denied_lifecycle :
    (performed "sell" [.payloadConstructed, .dispatched, .decide .denied, .finish]).isFinished ∧
      (∀ call, ∃ fault, (Call.answer
        (performed "sell" [.payloadConstructed, .dispatched, .decide .denied, .finish]) call).1 =
          .error fault) ∧
      ∀ depth payload, (run? depth counted "sell" payload).isSome := by
  refine ⟨rfl, ((lifecycle "sell").1 _).2.2 rfl, fun depth payload => ?_⟩
  have subscribed : counted.bus.subscribersOf "sell" = [⟨0, .note () (.finish .done)⟩] := rfl
  refine ((lifecycle "sell").2 depth counted payload).1 fun x member => ?_
  rw [subscribed] at member
  obtain rfl := List.mem_singleton.mp member
  exact Script.Alone.returns trivial

end HookSplice.Event.Invocation
