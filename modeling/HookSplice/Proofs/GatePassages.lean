import HookSplice.Proofs.GateExecution

/-!
# Passages through a gate

What a gate does beyond making and dispatching its event.  It stores fields of the event away, which
leaves the event in its scratch local, and its last branch goes either way.  One passage is what a
run gets to while control stays within the code of the gate.
-/

namespace HookSplice

/-! ### Storing fields of the event -/

namespace Slot

/-- Whether a slot is the argument with an index. -/
def isArg (i : Nat) : Slot → Bool
  | arg j => j.toNat == i
  | slot _ => false

/-- Whether a slot is the local with an index. -/
def isLocal (i : Nat) : Slot → Bool
  | arg _ => false
  | slot j => j.toNat == i

theorem isLocal_of_ne {i : UInt16} (target : Slot) (other : target ≠ .slot i) :
    target.isLocal i.toNat = false := by
  cases target with
  | arg j => rfl
  | slot j =>
      refine beq_eq_false_iff_ne.mpr fun same => ?_
      exact other (congrArg slot (UInt16.toNat_inj.mp same))

end Slot

theorem getElem?_set_of_lt {i : UInt16} {values : List Value} (below : i.toNat < values.length)
    {v : Value} (j : Nat) :
    (values.set i.toNat v)[j]? = if i.toNat == j then some v else values[j]? := by
  by_cases same : i.toNat = j
  · rw [if_pos (beq_iff_eq.mpr same), ← same, List.getElem?_set_self below]
  · rw [if_neg (by simpa using same), List.getElem?_set_ne same]

namespace Object

/-- The value that is stored last into a slot with some property, when fields of the object are
    stored away one after the other. -/
def lastStored? (event : Object) (stores : List (FieldId × Slot)) (into : Slot → Bool) :
    Option Value :=
  (stores.reverse.find? fun e => into e.2).map fun e => event.fields.load e.1

theorem lastStored?_or_cons (event : Object) {id : FieldId} {target : Slot}
    {rest : List (FieldId × Slot)} {into : Slot → Bool} {old : Option Value} :
    (event.lastStored? ((id, target) :: rest) into).or old =
      (event.lastStored? rest into).or
        (if into target then some (event.fields.load id) else old) := by
  unfold lastStored?
  rw [List.reverse_cons, List.find?_append, Option.map_or, Option.or_assoc]
  cases inside : into target <;> simp [inside]

theorem lastStored?_of_apart (event : Object) {stores : List (FieldId × Slot)} {slot : UInt16}
    (apart : ∀ e ∈ stores, e.2 ≠ .slot slot) :
    event.lastStored? stores (Slot.isLocal slot.toNat) = none := by
  refine Option.map_eq_none_iff.mpr (List.find?_eq_none.mpr fun e member => ?_)
  rw [e.2.isLocal_of_ne (apart e (List.mem_reverse.mp member))]
  exact Bool.false_ne_true

end Object

theorem Frame.targetOf_eq {f : Frame} {opcode : Opcode} {l : Label} {target : Nat}
    (found : f.body.position? l = some target) :
    f.targetOf (.of opcode (.label l)) = .ok target := by
  have resolved : f.body.targetOf? (.of opcode (.label l)) = some target := found
  unfold targetOf
  rw [resolved]

/-- The configuration with other arguments of the running frame. -/
def Config.calledWith {σ : Type} (c : Config σ) (args : List Value) : Config σ :=
  { c with frame := { c.frame with args := args } }

/-- Control is at one of `count` instructions of a body, from a point on. -/
def Config.Within {σ : Type} (c : Config σ) (b : Body) (point count : Nat) : Prop :=
  c.frame.body = b ∧ point ≤ c.frame.pc ∧ c.frame.pc < point + count

/-- The body of an implementation that is one. -/
def Implementation.body? {σ : Type} : Implementation σ → Option Body
  | .body b => some b
  | .native _ => none

namespace Machine

section Code

variable {σ : Type} {m : Machine σ} {passes : Config σ → Prop} {b : Body} {point o : Nat}
  {code : List Instruction} {c : Config σ} {stack locals : List Value} {h : Heap} {w : σ}

namespace Inserted

variable (inserted : m.Inserted passes b point code) (body : c.frame.body = b)
include inserted body

theorem starg {i : UInt16} {v : Value} (here : code[o]? = some (.of .starg (.arg i)))
    (passed : passes (c.inside (point + o) (v :: stack) locals h w)) :
    i.toNat < c.frame.args.length ∧ m.step (c.inside (point + o) (v :: stack) locals h w) =
      .running ((c.calledWith (c.frame.args.set i.toNat v)).inside
        (point + o + 1) stack locals h w) := by
  obtain ⟨f, success, moved⟩ := inserted.step_going body passed here rfl
  have stored : Frame.storeArg (c.inside (point + o + 1) stack locals h w).frame i v =
    .ok f := success
  unfold Frame.storeArg at stored
  split at stored
  · next below =>
      cases stored
      exact ⟨below, moved⟩
  · cases stored

/-- Storing a value into a slot changes that slot only. -/
theorem store {target : Slot} {v : Value} (here : code[o]? = some target.store)
    (passed : passes (c.inside (point + o) (v :: stack) locals h w)) : ∃ args locals',
      m.step (c.inside (point + o) (v :: stack) locals h w) =
        .running ((c.calledWith args).inside (point + o + 1) stack locals' h w) ∧
      (∀ i, args[i]? = if target.isArg i then some v else c.frame.args[i]?) ∧
      ∀ i, locals'[i]? = if target.isLocal i then some v else locals[i]? := by
  cases target with
  | arg i =>
      obtain ⟨below, moved⟩ := inserted.starg body here passed
      exact ⟨_, locals, moved, getElem?_set_of_lt below, fun _ => rfl⟩
  | slot i =>
      obtain ⟨below, moved⟩ := inserted.stloc body here passed
      exact ⟨c.frame.args, _, moved, fun _ => rfl, getElem?_set_of_lt below⟩

/-- Storing fields of the event away leaves in each slot what was stored there last. -/
theorem stores {slot : UInt16} {object : ObjectId} {event : Object}
    (there : h.object? object = some event) (stores : List (FieldId × Slot))
    (located : ∀ {j : Nat} {ins : Instruction},
      (EventGate.storing stores slot)[j]? = some ins → code[o + j]? = some ins)
    (apart : ∀ e ∈ stores, e.2 ≠ .slot slot) (scratch : locals[slot.toNat]? = some (.object object))
    (passed : passes (c.inside (point + o) stack locals h w)) : ∃ args locals',
      passes ((c.calledWith args).inside
        (point + (o + (EventGate.storing stores slot).length)) stack locals' h w) ∧
      (∀ i, args[i]? = (event.lastStored? stores (Slot.isArg i)).or c.frame.args[i]?) ∧
      ∀ i, locals'[i]? = (event.lastStored? stores (Slot.isLocal i)).or locals[i]? := by
  induction stores generalizing c o locals with
  | nil => exact ⟨c.frame.args, locals, passed, fun _ => rfl, fun _ => rfl⟩
  | cons e rest ih =>
      obtain ⟨id, target⟩ := e
      obtain ⟨first, others⟩ := List.forall_mem_cons.mp apart
      obtain ⟨v₁, loaded, moved₁⟩ := inserted.ldloc body (located (j := 0) rfl) passed
      obtain rfl := Option.some.inj (loaded.symm.trans scratch)
      have passed₁ := inserted.next body passed (located (j := 0) rfl) moved₁
      obtain ⟨object', v₂, same, read, moved₂⟩ :=
        inserted.ldfld body (o := o + 1) (located (j := 1) rfl) passed₁
      cases same
      rw [Heap.loadField?, there] at read
      cases read
      have passed₂ := inserted.next body (o := o + 1) passed₁ (located (j := 1) rfl) moved₂
      obtain ⟨args, middle, moved₃, given, set⟩ :=
        inserted.store body (o := o + 2) (located (j := 2) rfl) passed₂
      have passed₃ := inserted.next body (o := o + 2) passed₂ (located (j := 2) rfl) moved₃
      have kept : middle[slot.toNat]? = some (.object object) := by
        rw [set, target.isLocal_of_ne first]
        exact scratch
      obtain ⟨args', last, passed', given', set'⟩ := ih (c := c.calledWith args) (o := o + 3)
        body (fun {j ins} here => by
          rw [Nat.add_assoc]
          apply located
          rw [Nat.add_comm 3 j]
          exact here) others kept passed₃
      have length : o + (EventGate.storing ((id, target) :: rest) slot).length =
          o + 3 + (EventGate.storing rest slot).length := by
        simp only [EventGate.storing, List.flatMap_cons, List.length_append, List.length_cons,
          List.length_nil]
        omega
      rw [length]
      refine ⟨args', last, passed', fun i => ?_, fun i => ?_⟩
      · rw [event.lastStored?_or_cons, given' i]
        exact congrArg _ (given i)
      · rw [event.lastStored?_or_cons, set' i, set i]

/-- A branch that is taken, or is not. -/
theorem brfalse_to {l : Label} {v : Value} {target : Nat}
    (here : code[o]? = some (.of .brfalse (.label l))) (found : b.position? l = some target)
    (passed : passes (c.inside (point + o) (v :: stack) locals h w)) :
    m.step (c.inside (point + o) (v :: stack) locals h w) =
      .running (c.inside (if v.isTruthy then point + o + 1 else target) stack locals h w) := by
  cases truthy : v.isTruthy with
  | true => exact inserted.brfalse body here truthy passed
  | false =>
      obtain ⟨f, success, moved⟩ := inserted.step_going body passed here rfl
      have branched : Frame.branchIf (c.inside (point + o + 1) stack locals h w).frame
        (v.isTruthy == false) (.of .brfalse (.label l)) = .ok f := success
      have there : Frame.targetOf (c.inside (point + o + 1) stack locals h w).frame
          (.of .brfalse (.label l)) = .ok target :=
        Frame.targetOf_eq (body.symm ▸ found)
      rw [truthy, Frame.branchIf, if_pos (beq_self_eq_true false), there] at branched
      cases branched
      exact moved

end Inserted

end Code

/-- What a gate does once the event has been dispatched: it stores fields of the event away, looks
    at the mark, and goes on behind its code or at the deny label. -/
theorem Inserted.leaves {ρ : Type} {m : Machine (EventWorld ρ)}
    {passes : Config (EventWorld ρ) → Prop} {b : Body} {point target : Nat} {g : EventGate}
    {contract : EventContract} {allowed : FieldId} {stores : List (FieldId × Slot)} {slot : UInt16}
    {deny : Label} {c : Config (EventWorld ρ)} {stack locals : List Value} {h : Heap}
    {w : EventWorld ρ} {object : ObjectId} {event : Object}
    (inserted : m.Inserted passes b point (g.code contract allowed stores slot deny))
    (apart : ∀ e ∈ stores, e.2 ≠ .slot slot) (found : b.position? deny = some target)
    (body : c.frame.body = b) (there : h.object? object = some event)
    (scratch : locals[slot.toNat]? = some (.object object))
    (passed : passes (c.inside
      (point + (g.captures.flatMap Capture.load ++ g.dispatching contract slot).length)
      stack locals h w)) : ∃ args locals',
      passes ((c.calledWith args).inside
        (if (event.fields.load allowed).isTruthy then
          point + (g.code contract allowed stores slot deny).length else target)
        stack locals' h w) ∧
      (∀ i, args[i]? = (event.lastStored? stores (Slot.isArg i)).or c.frame.args[i]?) ∧
      ∀ i, locals'[i]? = (event.lastStored? stores (Slot.isLocal i)).or locals[i]? := by
  generalize front : (g.captures.flatMap Capture.load ++ g.dispatching contract slot).length = o
    at passed
  obtain ⟨args, locals', passed₁, given, set⟩ := inserted.stores body there stores
    (fun here => front ▸ EventGate.code_storing here) apart scratch passed
  have kept : locals'[slot.toNat]? = some (.object object) := by
    rw [set, event.lastStored?_of_apart apart, Option.none_or, scratch]
  have asking {j : Nat} {ins : Instruction}
      (here : (EventGate.asking allowed slot deny)[j]? = some ins) :
      (g.code contract allowed stores slot deny)[
        o + (EventGate.storing stores slot).length + j]? = some ins :=
    front ▸ EventGate.code_asking here
  have mark : h.loadField? object allowed = some (event.fields.load allowed) :=
    congrArg (Option.map _) there
  obtain ⟨-, passed₂⟩ :=
    inserted.asks (c := c.calledWith args) asking body kept mark passed₁
  have moved := inserted.brfalse_to (c := c.calledWith args) body (asking (j := 2) rfl) found
    passed₂
  have passed₃ := inserted.next (c := c.calledWith args) body passed₂ (asking (j := 2) rfl) moved
  refine ⟨args, locals', ?_, given, set⟩
  rw [EventGate.length_code, front]
  exact passed₃

/-! ### Passages -/

section Passages

variable {σ : Type}

/-- What a run gets to while control stays within some instructions of a body, and where it comes
    out first. -/
inductive Crosses (m : Machine σ) (b : Body) (point count : Nat) (c : Config σ) : Config σ → Prop
  | here : Crosses m b point count c c
  | onward {d e : Config σ} (crossed : Crosses m b point count c d)
      (within : d.Within b point count) (moved : m.step d = .running e) :
      Crosses m b point count c e

theorem Crosses.visits {m : Machine σ} {b : Body} {point count : Nat} {c d : Config σ}
    (crossed : m.Crosses b point count c d) {method : MethodId} {args : List Value} {h : Heap}
    {w : σ}
    (visited : m.Visits method args h w c) : m.Visits method args h w d := by
  induction crossed with
  | here => exact visited
  | onward _ _ moved ih => exact ih.stepped moved

theorem implementation_of_body? {m : Machine σ} {method : MethodId} {n depth : Nat} {b : Body}
    (found : (m.implementation method n depth).toOption.bind Implementation.body? = some b) :
    m.implementation method n depth = .ok (.body b) := by
  cases known : m.implementation method n depth with
  | error trap =>
      rw [known] at found
      cases found
  | ok implementation =>
      rw [known] at found
      cases implementation with
      | native code => cases found
      | body b' =>
          cases found
          rfl

theorem enter_of_body {m : Machine σ} {method : MethodId} {args : List Value}
    {callers : List Caller} {h : Heap} {w : σ} {b : Body}
    (found : (m.implementation method args.length callers.length).toOption.bind
      Implementation.body? = some b) :
    m.enter method args callers h w = .running ⟨.enter m.host.symbols b args, callers, h, w⟩ := by
  unfold enter
  rw [implementation_of_body? found]

end Passages

end Machine

end HookSplice
