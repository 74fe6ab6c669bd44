import HookSplice.Proofs.FrameTurns
import HookSplice.Proofs.Renaming

/-!
# The types of objects

No instruction changes the type of an object, so as long as native code does not do it either, a
value that refers to no missing object is an instance of the same types for the rest of a run.
-/

namespace HookSplice

namespace Heap

variable {h k l : Heap}

/-- The objects of the first heap are in the second one, with their types. -/
def KeepsTypes (h k : Heap) : Prop :=
  ∀ id o, h.object? id = some o → ∃ o', k.object? id = some o' ∧ o'.type = o.type

theorem KeepsTypes.refl (h : Heap) : h.KeepsTypes h :=
  fun _ o found => ⟨o, found, rfl⟩

theorem KeepsTypes.trans (first : h.KeepsTypes k) (second : k.KeepsTypes l) : h.KeepsTypes l := by
  intro id o found
  obtain ⟨o', found', type⟩ := first id o found
  obtain ⟨o'', found'', type'⟩ := second id o' found'
  exact ⟨o'', found'', type'.trans type⟩

theorem alloc_keepsTypes (h : Heap) (type : TypeId) : h.KeepsTypes (h.alloc type).2 := by
  intro id o found
  have below : id.index < h.objects.size := (Array.getElem?_eq_some_iff.mp found).1
  have differs : id ≠ (h.alloc type).1 := by
    rintro rfl
    exact Nat.lt_irrefl _ below
  refine ⟨o, ?_, rfl⟩
  rw [object?_alloc, if_neg differs, found]

theorem storeField?_keepsTypes {object : ObjectId} {field : FieldId} {v : Value}
    (stored : h.storeField? object field v = some k) : h.KeepsTypes k := by
  intro id o found
  by_cases same : id = object
  · subst same
    refine ⟨{ o with fields := o.fields.store field v }, ?_, rfl⟩
    rw [object?_store stored, if_pos rfl, found]
    rfl
  · refine ⟨o, ?_, rfl⟩
    rw [object?_store stored, if_neg same, found]

theorem Written.keepsTypes (written : h.Written k) : h.KeepsTypes k := by
  cases written with
  | nothing => exact .refl h
  | field stored => exact storeField?_keepsTypes stored
  | static => exact .refl h
  | object type => exact h.alloc_keepsTypes type

end Heap

/-- The value does not refer to an object that is missing. -/
def Value.Present (h : Heap) (v : Value) : Prop :=
  ∀ id, v = .object id → (h.object? id).isSome

/-- What a value is an instance of stays the same. -/
theorem Frame.isInstance_of_keepsTypes {h k : Heap} {v : Value} (keeps : h.KeepsTypes k)
    (present : v.Present h) (symbols : SymbolTable) (type : TypeId) :
    isInstance symbols k type v = isInstance symbols h type v := by
  cases v with
  | null | int | text => rfl
  | object id =>
      obtain ⟨o, found⟩ := Option.isSome_iff_exists.mp (present id rfl)
      obtain ⟨o', found', same⟩ := keeps id o found
      simp only [isInstance, found, found', Option.any_some, same]

/-! ### One instruction -/

namespace Action

/-- What follows goes on with a heap that has the objects of the heap before. -/
def KeepsTypes (h : Heap) : Action → Prop
  | next _ k => h.KeepsTypes k
  | call _ _ _ _ k => h.KeepsTypes k
  | exit _ | raised _ _ | escaped _ => True

variable {symbols : SymbolTable} {heap : Heap} {position : Nat} {ins : Instruction} {f : Frame}

theorem ofInstruction_keepsTypes :
    Yields (KeepsTypes heap) (ofInstruction symbols heap position f ins) := by
  refine ofInstruction_outcome.imp fun action outcome => ?_
  cases action with
  | next g k => exact Heap.Written.keepsTypes outcome
  | call g callee args created k => exact Heap.Written.keepsTypes outcome
  | exit | raised | escaped => trivial

end Action

/-! ### Runs -/

variable {σ : Type}

/-- The heap of a run, or the one behind it. -/
def Progress.heap : Progress σ → Heap
  | running c => c.heap
  | ended _ heap _ => heap

namespace Machine

variable {m : Machine σ} {c c' e : Config σ}

/-- Native code neither removes objects nor changes their types. -/
def NativesKeepTypes (m : Machine σ) : Prop :=
  ∀ entry ∈ m.natives, ∀ (heap : Heap) (world : σ) (args : List Value),
    heap.KeepsTypes (entry.2 heap world args).heap

theorem heap_giveBack (result : Option Value) (callers : List Caller) (heap : Heap) (world : σ) :
    (giveBack result callers heap world).heap = heap := by
  cases callers <;> rfl

theorem heap_throwTo (v : Value) (callers : List Caller) (heap : Heap) (world : σ) :
    (m.throwTo v callers heap world).heap = heap := by
  unfold throwTo
  split <;> rfl

theorem enter_keepsTypes (natives : m.NativesKeepTypes) (method : MethodId) (args : List Value)
    (callers : List Caller) (heap : Heap) (world : σ) :
    heap.KeepsTypes (m.enter method args callers heap world).heap := by
  generalize entered : m.enter method args callers heap world = p
  cases enter_starts entered with
  | refused | body => exact .refl heap
  | trapped found =>
      obtain ⟨-, -, -, listed⟩ := implementation_eq_ok found
      exact natives _ (mem_of_lookup listed) heap world args
  | returned found _ back =>
      obtain ⟨-, -, -, listed⟩ := implementation_eq_ok found
      rw [← back, heap_giveBack]
      exact natives _ (mem_of_lookup listed) heap world args

theorem follow_keepsTypes (natives : m.NativesKeepTypes) {action : Action} {heap : Heap}
    (keeps : action.KeepsTypes heap) (callers : List Caller) (world : σ) :
    heap.KeepsTypes (m.follow action callers heap world).heap := by
  cases action with
  | next f k => exact keeps
  | exit result =>
      rw [follow, heap_giveBack]
      exact .refl heap
  | raised f v =>
      rw [follow, heap_throwTo]
      exact .refl heap
  | escaped v =>
      rw [follow, heap_throwTo]
      exact .refl heap
  | call f callee args created k => exact keeps.trans (enter_keepsTypes natives _ _ _ k world)

theorem step_keepsTypes (natives : m.NativesKeepTypes) (c : Config σ) :
    c.heap.KeepsTypes (m.step c).heap := by
  generalize moved : m.step c = p
  cases step_performs moved with
  | beyond | stopped => exact .refl c.heap
  | @executed ins _ _ _ ran followed =>
      have keeps : Yields (Action.KeepsTypes c.heap) (Action.ofInstruction m.host.symbols
          c.heap c.frame.pc { c.frame with pc := c.frame.pc + 1 } ins) :=
        Action.ofInstruction_keepsTypes
      rw [ran] at keeps
      subst followed
      exact follow_keepsTypes natives keeps c.callers c.world

theorem During.keepsTypes (natives : m.NativesKeepTypes) (during : m.During c e) :
    c.heap.KeepsTypes e.heap := by
  induction during with
  | here => exact .refl c.heap
  | @deeper e e' _ moved _ ih =>
      have keeps := step_keepsTypes natives e
      rw [moved] at keeps
      exact ih.trans keeps

theorem NextTurn.keepsTypes (natives : m.NativesKeepTypes) (next : m.NextTurn c c') :
    c.heap.KeepsTypes c'.heap := by
  obtain ⟨e, during, moved, -⟩ := next
  have keeps := step_keepsTypes natives e
  rw [moved] at keeps
  exact (during.keepsTypes natives).trans keeps

end Machine

end HookSplice
