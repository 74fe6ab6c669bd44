import HookSplice.Machine.Events
import HookSplice.Proofs.Declarations
import HookSplice.Proofs.DispatchDepth
import HookSplice.Proofs.MachineSimulation

/-!
# Events in two worlds

The constructors and the dispatch method of an event contract treat handles as names, when the
subscribers do: on heaps and buses that agree they make and dispatch the same events.  A dispatch
that comes back has not failed on its way through the phases of an invocation.
-/

namespace HookSplice

open Event (BusState Delivery Invocation Payload PayloadField PayloadKind Phase Verdict)

/-! ### Phases of a dispatch -/

namespace Event.Invocation

theorem advance_eq_ok {i : Invocation} {target : Phase} (allowed : i.phase.mayPrecede target) :
    ∃ next, i.advance target = .ok next ∧ next.phase = target := by
  refine ⟨{ i with later := i.later ++ [target] }, if_pos allowed, ?_⟩
  simp [phase]

/-- The subscribers before number `k` of `count` have run. -/
def RanBefore (k count : Nat) (i : Invocation) : Prop :=
  (k = 0 ∧ i.phase = .payloadConstructed) ∨ ∃ last, k = last + 1 ∧ i.phase = .dispatching last count

theorem RanBefore.dispatching {k count : Nat} {i : Invocation} (ran : RanBefore k count i)
    (below : k < count) :
    ∃ next, i.advance (.dispatching k count) = .ok next ∧ RanBefore (k + 1) count next := by
  have allowed : i.phase.mayPrecede (.dispatching k count) := by
    rcases ran with ⟨rfl, phase⟩ | ⟨last, rfl, phase⟩ <;> rw [phase]
    · simpa [Phase.mayPrecede] using below
    · simpa [Phase.mayPrecede] using below
  obtain ⟨next, advanced, phase⟩ := advance_eq_ok allowed
  exact ⟨next, advanced, Or.inr ⟨k, rfl, phase⟩⟩

theorem RanBefore.foldlM {n k count : Nat} {i : Invocation} (ran : RanBefore k count i)
    (rest : k + n = count) : ∃ next, ((List.range' k n).map fun j => (j, count)).foldlM
      (fun i e => i.advance (.dispatching e.1 e.2)) i = .ok next ∧ RanBefore count count next := by
  induction n generalizing k i with
  | zero =>
      obtain rfl : k = count := rest
      exact ⟨i, rfl, ran⟩
  | succ n ih =>
      obtain ⟨next, advanced, ran⟩ := ran.dispatching (by omega)
      obtain ⟨last, folded, ran⟩ := ih ran (by omega)
      refine ⟨last, ?_, ran⟩
      rw [List.range'_succ, List.map_cons, List.foldlM_cons, advanced]
      exact folded

theorem ofDelivery_eq (hook : String) (d : Delivery) :
    ofDelivery hook d = (enter hook).advance .payloadConstructed >>= fun i =>
      d.progress.foldlM (fun i e => i.advance (.dispatching e.1 e.2)) i >>= fun i =>
        i.advance .dispatched >>= fun i =>
          i.advance (.decided d.report.verdict) >>= finish :=
  rfl

theorem finish_eq_ok {i : Invocation} {verdict : Verdict} (decided : i.phase = .decided verdict) :
    ∃ next, i.finish = .ok next := by
  have permitted : i.phase.mayPrecede (.finished verdict.exit) := by
    rw [decided]
    simp [Phase.mayPrecede]
  obtain ⟨next, advanced, -⟩ := advance_eq_ok permitted
  refine ⟨next, ?_⟩
  unfold finish
  rw [decided]
  exact advanced

/-- A delivery passes through the phases of its invocation. -/
theorem ofDelivery_eq_ok {d : Delivery} {count : Nat}
    (progress : d.progress = (List.range count).map fun j => (j, count)) (hook : String) :
    ∃ i, ofDelivery hook d = .ok i := by
  rw [List.range_eq_range'] at progress
  have entered : (enter hook).phase.mayPrecede .payloadConstructed := rfl
  obtain ⟨i₁, constructed, phase₁⟩ := advance_eq_ok entered
  obtain ⟨i₂, delivered, ran⟩ := RanBefore.foldlM (i := i₁) (Or.inl ⟨rfl, phase₁⟩)
    (Nat.zero_add count)
  have permitted : i₂.phase.mayPrecede .dispatched := by
    rcases ran with ⟨-, phase⟩ | ⟨last, all, phase⟩ <;> rw [phase]
    · rfl
    · simp [Phase.mayPrecede, all]
  obtain ⟨i₃, dispatched, phase₃⟩ := advance_eq_ok permitted
  have settled : i₃.phase.mayPrecede (.decided d.report.verdict) := by
    rw [phase₃]
    rfl
  obtain ⟨i₄, decided, phase₄⟩ := advance_eq_ok settled
  obtain ⟨i₅, finished⟩ := finish_eq_ok phase₄
  refine ⟨i₅, ?_⟩
  rw [ofDelivery_eq, constructed, Except.ok_bind, progress, delivered, Except.ok_bind, dispatched,
    Except.ok_bind, decided]
  exact finished

/-- A dispatch that comes back passes through the phases of its invocation. -/
theorem run?_eq_some {ρ : Type} {depth : Nat} {s t : BusState ρ} {hook : String}
    {payload : Payload} {result : Except InvalidTransition Invocation} {d : Delivery} :
    run? depth s hook payload = some (result, d, t) ↔
      s.dispatch? depth hook payload = some (d, t) ∧ result = ofDelivery hook d := by
  unfold run?
  constructor
  · intro ran
    obtain ⟨⟨d', t'⟩, came, ran⟩ := Option.bind_eq_some_iff.mp ran
    cases ran
    exact ⟨came, rfl⟩
  · rintro ⟨came, rfl⟩
    exact Option.bind_eq_some_iff.mpr ⟨_, came, rfl⟩

theorem exists_ofDelivery {ρ : Type} {depth : Nat} {s t : BusState ρ} {hook : String}
    {payload : Payload} {d : Delivery} (came : s.dispatch? depth hook payload = some (d, t)) :
    ∃ i, ofDelivery hook d = .ok i := by
  obtain ⟨-, -, -, progress⟩ := deliver_eq_some.mp came
  exact ofDelivery_eq_ok progress hook

end Event.Invocation

/-! ### Payloads that agree -/

/-- Payloads of one kind whose values agree. -/
inductive Event.Payload.Renamed (ids : List ObjectId) : Payload → Payload → Prop
  | action {s s' : Value} (subject : s.Renamed ids s') (allowed : Bool) :
      Renamed ids (.action s allowed) (.action s' allowed)
  | targeted {s s' t t' : Value} (subject : s.Renamed ids s') (target : t.Renamed ids t')
      (allowed : Bool) : Renamed ids (.targeted s t allowed) (.targeted s' t' allowed)
  | amount {s s' : Value} (subject : s.Renamed ids s') (n : Int64) (allowed : Bool) :
      Renamed ids (.amount s n allowed) (.amount s' n allowed)
  | substitute {s s' v v' : Value} (subject : s.Renamed ids s') (value : v.Renamed ids v')
      (allowed : Bool) : Renamed ids (.substitute s v allowed) (.substitute s' v' allowed)

namespace Event.Payload

variable {ids : List ObjectId}

theorem numberFor_renamed (field : PayloadField) {v v' : Value} (values : v.Renamed ids v') :
    Follows Eq (numberFor field v) (numberFor field v') := by
  cases values with
  | int n => exact .ok rfl
  | null | text | object => exact .error

theorem ofValues_renamed (kind : PayloadKind) {values values' : List Value}
    (same : List.Forall₂ (Value.Renamed ids) values values') :
    Follows (Payload.Renamed ids) (ofValues kind values) (ofValues kind values') := by
  cases same with
  | nil => cases kind <;> exact .error
  | cons first others =>
      cases others with
      | nil =>
          cases kind with
          | action => exact .ok (.action first true)
          | targeted | amount | substitute => exact .error
      | cons second others =>
          cases others with
          | nil =>
              cases kind with
              | action => exact .error
              | targeted => exact .ok (.targeted first second true)
              | amount =>
                  refine (numberFor_renamed .amount second).map ?_
                  rintro n _ rfl
                  exact .amount first n true
              | substitute => exact .ok (.substitute first second true)
          | cons third others => cases kind <;> exact .error

theorem setField_allowed (p : Payload) (v : Value) :
    p.setField .allowed v = (numberFor .allowed v).map fun n => p.setAllowed (n != 0) := by
  cases p <;> rfl

theorem Renamed.setAllowed {p p' : Payload} (same : p.Renamed ids p') (allowed : Bool) :
    (p.setAllowed allowed).Renamed ids (p'.setAllowed allowed) := by
  cases same with
  | action subject => exact .action subject allowed
  | targeted subject target => exact .targeted subject target allowed
  | amount subject n => exact .amount subject n allowed
  | substitute subject value => exact .substitute subject value allowed

theorem Renamed.values {p p' : Payload} (same : p.Renamed ids p') :
    List.Forall₂ (Value.Renamed ids) p.values p'.values := by
  cases same with
  | action subject allowed => exact .cons subject (.cons (.ofBool allowed) .nil)
  | targeted subject target allowed =>
      exact .cons subject (.cons target (.cons (.ofBool allowed) .nil))
  | amount subject n allowed => exact .cons subject (.cons (.int n) (.cons (.ofBool allowed) .nil))
  | substitute subject value allowed =>
      exact .cons subject (.cons value (.cons (.ofBool allowed) .nil))

end Event.Payload

/-! ### The native code of a contract -/

/-- How the buses of two runs may be related when the subscribers treat handles as names and the
    events of one hook, which a gate raises in the second run only, make no difference to the events
    that both runs raise.  Dispatches are followed down to a depth.  One that comes back in the
    first run comes back in the second one and keeps the relation, and so does a dispatch of that
    hook in the second one.  The subscribers of the hook leave a payload of its kind, and
    allowed. -/
structure Event.Overlooks {ρ : Type} (depth : Nat) (hook : String) (raises : String → Prop)
    (related : List ObjectId → BusState ρ → BusState ρ → Prop) : Prop where
  grows : ∀ {ids : List ObjectId} {b b' : BusState ρ}, related ids b b' →
    ∀ more, related (ids ++ more) b b'
  alike : ∀ {ids : List ObjectId} {b b' : BusState ρ} {p p' : Payload}, related ids b b' →
    p.Renamed ids p' → ∀ raised, raises raised →
      ∀ d c, b.dispatch? depth raised p = some (d, c) →
        ∃ d' c', b'.dispatch? depth raised p' = some (d', c') ∧
          d.payload.Renamed ids d'.payload ∧ related ids c c'
  apart : ∀ {ids : List ObjectId} {b b' : BusState ρ} {p : Payload}, related ids b b' →
    p.isAllowed → ∀ d c, b'.dispatch? depth hook p = some (d, c) →
      d.payload.isAllowed ∧ d.payload.kind = p.kind ∧ related ids b c

section Natives

variable {ρ : Type} {depth : Nat} {related : List ObjectId → BusState ρ → BusState ρ → Prop}
  {ids : List ObjectId} {h h' : Heap} {w w' : EventWorld ρ}

/-- Fields with values that agree. -/
def SameEntries {κ : Type} (ids : List ObjectId) (e e' : κ × Value) : Prop :=
  e'.1 = e.1 ∧ e.2.Renamed ids e'.2

theorem zip_renamed {κ : Type} (fields : List κ) {values values' : List Value}
    (same : List.Forall₂ (Value.Renamed ids) values values') :
    List.Forall₂ (SameEntries ids) (fields.zip values) (fields.zip values') := by
  induction fields generalizing values values' with
  | nil => exact .nil
  | cons f rest ih =>
      cases same with
      | nil => exact .nil
      | cons first others => exact .cons ⟨rfl, first⟩ (ih others)

theorem EventClass.entries_cons (c : EventClass) (f : PayloadField) (v : Value)
    (rest : List (PayloadField × Value)) :
    c.entries ((f, v) :: rest) = (c.field? f).toList.map (fun id => (id, v)) ++ c.entries rest := by
  simp only [EventClass.entries, List.filterMap_cons]
  cases c.field? f <;> rfl

theorem entries_renamed (c : EventClass) {values values' : List (PayloadField × Value)}
    (same : List.Forall₂ (SameEntries ids) values values') :
    List.Forall₂ (SameEntries ids) (c.entries values) (c.entries values') := by
  induction same with
  | nil => exact .nil
  | @cons e e' rest rest' first others ih =>
      obtain ⟨f, v⟩ := e
      obtain ⟨f', v'⟩ := e'
      have field : f' = f := first.1
      have value : v.Renamed ids v' := first.2
      subst field
      rw [EventClass.entries_cons, EventClass.entries_cons]
      cases c.field? f' with
      | none => exact ih
      | some id => exact .cons ⟨rfl, value⟩ ih

theorem initialEntries_renamed (c : EventClass) {values values' : List Value}
    (same : List.Forall₂ (Value.Renamed ids) values values') :
    List.Forall₂ (SameEntries ids) (c.initialEntries values) (c.initialEntries values') := by
  have flag : SameEntries ids (PayloadField.allowed, .ofBool true) (.allowed, .ofBool true) :=
    ⟨rfl, .ofBool true⟩
  exact entries_renamed c
    (List.rel_append (zip_renamed c.kind.constructorFields same) (.cons flag .nil))

theorem constructorNative_abstract (c : EventClass) (args : List Value) :
    Native.AbstractOn (fun ids (w w' : EventWorld ρ) => related ids w.bus w'.bus)
      c.constructorNative args := by
  intro ids h h' w w' args' heaps worlds values v success
  cases values with
  | nil => cases success
  | @cons _ _ rest rest' first others =>
      cases first with
      | null | int | text => cases success
      | object known =>
          obtain ⟨k, k', stored, stored', heaps⟩ :=
            heaps.storeFields? known (initialEntries_renamed c others)
          simp only [EventClass.constructorNative, stored, stored'] at success ⊢
          cases success
          refine ⟨[], none, rfl, .none, ?_⟩
          rw [List.append_nil]
          exact ⟨heaps, worlds⟩

/-! ### Dispatching -/

open EventContract

theorem readField_renamed (c : EventClass) (heaps : h.Renamed ids h') {object object' : ObjectId}
    (known : ids[object.index]? = some object') (f : PayloadField) :
    Follows (Value.Renamed ids) (readField c h object f) (readField c h' object' f) := by
  unfold readField
  cases c.field? f with
  | none => exact .error
  | some id =>
      obtain ⟨v, v', loaded, loaded', values⟩ := heaps.loadField? known id
      simp only [loaded, loaded']
      exact .ok values

theorem readPayload_renamed (c : EventClass) (heaps : h.Renamed ids h')
    {object object' : ObjectId} (known : ids[object.index]? = some object') :
    Follows (Payload.Renamed ids) (readPayload c h object) (readPayload c h' object') := by
  refine (Follows.mapM fun f => readField_renamed c heaps known f).bind fun _ _ captured => ?_
  refine ((Payload.ofValues_renamed c.kind captured).mapError _).bind fun p p' payloads => ?_
  refine (readField_renamed c heaps known .allowed).bind fun v v' allowed => ?_
  rw [Payload.setField_allowed, Payload.setField_allowed]
  refine Follows.mapError ((Payload.numberFor_renamed .allowed allowed).map ?_) _
  rintro n _ rfl
  exact payloads.setAllowed _

/-- Requests to dispatch the same event. -/
structure EventContract.Request.Renamed (ids : List ObjectId) (r r' : Request) : Prop where
  hook : r'.hook = r.hook
  object : ids[r.object.index]? = some r'.object
  eventClass : r'.eventClass = r.eventClass
  payload : r.payload.Renamed ids r'.payload

/-- What a request is made of: a hook, an object of an event class, and the payload read from it. -/
theorem readRequest_eq_ok_iff {contract : EventContract} {args : List Value} {r : Request} :
    contract.readRequest h args = .ok r ↔
      args = [.text r.hook, .object r.object] ∧ (∃ o, h.object? r.object = some o ∧
        contract.classOfType? o.type = some r.eventClass) ∧
      readPayload r.eventClass h r.object = .ok r.payload := by
  constructor
  · intro success
    unfold readRequest at success
    split at success
    · next hook object =>
        split at success
        · cases success
        next o found =>
          split at success
          · cases success
          next c known =>
            cases read : readPayload c h object with
            | error e =>
                rw [read] at success
                cases success
            | ok p =>
                rw [read] at success
                cases success
                exact ⟨rfl, ⟨o, found, known⟩, read⟩
    · cases success
  · rintro ⟨rfl, ⟨o, found, known⟩, read⟩
    simp only [readRequest, found, known, read]
    rfl

theorem readRequest_eq_ok {contract : EventContract} {args : List Value} {r : Request}
    (success : contract.readRequest h args = .ok r) :
    args = [.text r.hook, .object r.object] ∧ (∃ k, r.eventClass = contract.eventClass k) ∧
      readPayload r.eventClass h r.object = .ok r.payload := by
  obtain ⟨shape, ⟨o, -, known⟩, read⟩ := readRequest_eq_ok_iff.mp success
  obtain ⟨k, -, same⟩ := List.mem_map.mp (List.mem_of_find?_eq_some known)
  exact ⟨shape, ⟨k, same.symm⟩, read⟩

theorem readRequest_renamed (contract : EventContract) (heaps : h.Renamed ids h')
    {args args' : List Value} (values : List.Forall₂ (Value.Renamed ids) args args') :
    Follows (Request.Renamed ids) (contract.readRequest h args)
      (contract.readRequest h' args') := by
  cases values with
  | nil => exact .error
  | cons first others =>
      cases first with
      | null | int | object => exact .error
      | text hook =>
          cases others with
          | nil => exact .error
          | cons second others =>
              cases second with
              | null | int | text => exact .error
              | object known =>
                  cases others with
                  | cons third others => exact .error
                  | nil =>
                      obtain ⟨o, o', found, found', type, -⟩ := heaps.object? known
                      simp only [readRequest, found, found', type]
                      cases contract.classOfType? o.type with
                      | none => exact .error
                      | some c =>
                          refine (readPayload_renamed c heaps known).map fun p p' payloads => ?_
                          exact ⟨rfl, known, rfl, payloads⟩

/-- The fields that are written back of a payload. -/
def EventContract.Request.entries (r : Request) (p : Payload) : List (FieldId × Value) :=
  r.eventClass.entries (r.eventClass.kind.fields.zip p.values)

/-- A dispatch that can be read, comes back and is written back succeeds. -/
theorem dispatchNative_eq (contract : EventContract) {args : List Value} {r : Request} {k : Heap}
    {d : Delivery} {b : BusState ρ} (asked : contract.readRequest h args = .ok r)
    (came : w.bus.dispatch? depth r.hook r.payload = some (d, b))
    (written : h.storeFields? r.object (r.entries d.payload) = some k) :
    ∃ i, Invocation.ofDelivery r.hook d = .ok i ∧ contract.dispatchNative depth h w args =
      ⟨.ok none, k, ⟨b, w.journal ++
        [⟨i.hook, i.history, i.exit?.getD .continuation, d.report⟩]⟩⟩ := by
  obtain ⟨i, followed⟩ := Invocation.exists_ofDelivery came
  have ran := Invocation.run?_eq_some.mpr ⟨came, rfl⟩
  refine ⟨i, followed, ?_⟩
  unfold Request.entries at written
  simp only [dispatchNative, dispatched?, asked, ran, followed, written, Option.bind_eq_bind,
    Option.bind_some, Option.pure_def, Option.getD_some]

theorem dispatchNative_eq_ok (contract : EventContract) {args : List Value} {v : Option Value}
    (success : (contract.dispatchNative depth h w args).result = .ok v) : ∃ r d b k i,
      contract.readRequest h args = .ok r ∧
      w.bus.dispatch? depth r.hook r.payload = some (d, b) ∧
      h.storeFields? r.object (r.entries d.payload) = some k ∧
      Invocation.ofDelivery r.hook d = .ok i ∧
      contract.dispatchNative depth h w args =
        ⟨.ok none, k, ⟨b, w.journal ++
          [⟨i.hook, i.history, i.exit?.getD .continuation, d.report⟩]⟩⟩ := by
  cases asked : contract.readRequest h args with
  | error trap =>
      simp only [dispatchNative, dispatched?, asked, Option.getD_some] at success
      cases success
  | ok r =>
      cases came : w.bus.dispatch? depth r.hook r.payload with
      | none =>
          simp only [dispatchNative, dispatched?, asked, Invocation.run?, came,
            Option.bind_eq_bind, Option.bind_none, Option.getD_none] at success
          cases success
      | some result =>
          obtain ⟨d, b⟩ := result
          obtain ⟨i, followed⟩ := Invocation.exists_ofDelivery came
          have ran := Invocation.run?_eq_some.mpr ⟨came, rfl⟩
          cases written : h.storeFields? r.object (r.entries d.payload) with
          | none =>
              unfold Request.entries at written
              simp only [dispatchNative, dispatched?, asked, ran, followed, written,
                Option.bind_eq_bind, Option.bind_some, Option.pure_def,
                Option.getD_some] at success
              cases success
          | some k =>
              obtain ⟨i, followed, whole⟩ := dispatchNative_eq contract asked came written
              exact ⟨r, d, b, k, i, rfl, came, written, followed, whole⟩

theorem dispatchNative_abstract (contract : EventContract) {hook : String}
    {raises : String → Prop} (overlooks : Event.Overlooks depth hook raises related)
    {args : List Value}
    (admitted : ∀ {raised : String} {object : ObjectId},
      args = [.text raised, .object object] → raises raised) :
    Native.AbstractOn (fun ids (w w' : EventWorld ρ) => related ids w.bus w'.bus)
      (contract.dispatchNative depth) args := by
  intro ids h h' w w' args' heaps worlds values v success
  obtain ⟨r, d, b, k, i, asked, came, written, -, whole⟩ := dispatchNative_eq_ok contract success
  have raised : raises r.hook := admitted (readRequest_eq_ok asked).1
  obtain ⟨r', asked', requests⟩ := readRequest_renamed contract heaps values r asked
  obtain ⟨d', b', came', payloads, buses⟩ :=
    overlooks.alike worlds requests.payload r.hook raised d b came
  have entries : List.Forall₂ (SameEntries ids) (r.entries d.payload) (r'.entries d'.payload) := by
    unfold Request.entries
    rw [requests.eventClass]
    exact entries_renamed _ (zip_renamed _ payloads.values)
  obtain ⟨l, l', written₁, written', heaps⟩ := heaps.storeFields? requests.object entries
  obtain rfl := Option.some.inj (written.symm.trans written₁)
  obtain ⟨i', -, whole'⟩ := dispatchNative_eq contract asked' (requests.hook.symm ▸ came') written'
  rw [whole] at success ⊢
  rw [whole']
  cases success
  refine ⟨[], none, rfl, .none, ?_⟩
  rw [List.append_nil]
  exact ⟨heaps, buses⟩

end Natives

end HookSplice
