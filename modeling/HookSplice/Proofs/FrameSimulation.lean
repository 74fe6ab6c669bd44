import HookSplice.Machine.Action
import HookSplice.Proofs.BodyMoves
import HookSplice.Proofs.Renaming

/-!
# One instruction in two bodies

Two frames that agree up to the handles of objects, of which the second one runs in a body that
holds the code of the first.  When an instruction succeeds in the first frame, it does so at its
place in the second frame, and leaves frames, heaps and values behind that agree again.
-/

namespace HookSplice

/-! ### Steps that may fail -/

/-- The second step succeeds when the first one does, and their results are related. -/
def Follows {ε α β : Type} (related : α → β → Prop) (x : Except ε α) (y : Except ε β) : Prop :=
  ∀ a, x = .ok a → ∃ b, y = .ok b ∧ related a b

namespace Follows

variable {ε α β γ δ : Type} {P : α → β → Prop} {Q : γ → δ → Prop}

theorem ok {a : α} {b : β} (related : P a b) : Follows P (.ok a : Except ε α) (.ok b) := by
  intro a' success
  cases success
  exact ⟨b, rfl, related⟩

theorem error {e : ε} {y : Except ε β} : Follows P (.error e) y :=
  fun _ success => by cases success

theorem bind {x : Except ε α} {y : Except ε β} {f : α → Except ε γ} {g : β → Except ε δ}
    (first : Follows P x y) (second : ∀ a b, P a b → Follows Q (f a) (g b)) :
    Follows Q (x >>= f) (y >>= g) := by
  intro c success
  obtain ⟨a, ran, success⟩ := Except.bind_eq_ok success
  obtain ⟨b, ran', related⟩ := first a ran
  obtain ⟨d, success', related'⟩ := second a b related c success
  refine ⟨d, ?_, related'⟩
  rw [ran']
  exact success'

theorem map {x : Except ε α} {y : Except ε β} {f : α → γ} {g : β → δ} (first : Follows P x y)
    (second : ∀ a b, P a b → Q (f a) (g b)) : Follows Q (x.map f) (y.map g) := by
  intro c success
  cases x with
  | error e => cases success
  | ok a =>
      cases success
      obtain ⟨b, rfl, related⟩ := first a rfl
      exact ⟨g b, rfl, second a b related⟩

theorem mapError {x : Except ε α} {y : Except ε β} (first : Follows P x y) (f : ε → γ) :
    Follows P (x.mapError f) (y.mapError f) := by
  intro a success
  obtain ⟨b, success', related⟩ := first a (Except.mapError_eq_ok.mp success)
  exact ⟨b, Except.mapError_eq_ok.mpr success', related⟩

theorem mapM {xs : List γ} {f : γ → Except ε α} {g : γ → Except ε β}
    (each : ∀ x, Follows P (f x) (g x)) : Follows (List.Forall₂ P) (xs.mapM f) (xs.mapM g) := by
  induction xs with
  | nil => exact .ok .nil
  | cons x rest ih =>
      rw [List.mapM_cons, List.mapM_cons]
      refine (each x).bind fun a b first => ?_
      refine ih.bind fun as bs others => ?_
      exact .ok (.cons first others)

/-- A step that is the same in both. -/
theorem same (x : Except ε α) : Follows Eq x x :=
  fun a success => ⟨a, success, rfl⟩

end Follows

/-! ### Frames that agree -/

/-- What was put off agrees; control will arrive where the positions to leave for have moved. -/
inductive Pending.Renamed (m : BodyMove) (ids : List ObjectId) : Pending → Pending → Prop
  | leave (target : Nat) (rest : List Nat) :
      Renamed m ids (.leave target rest) (.leave (m.arrive target) rest)
  | throw {v v' : Value} (rest : List Nat) (values : v.Renamed ids v') :
      Renamed m ids (.throw v rest) (.throw v' rest)

/-- The frames agree wherever control is in them.  The second one may have locals of its own behind
    those of the first. -/
structure Frame.Renamed (m : BodyMove) (ids : List ObjectId) (f f' : Frame) : Prop where
  source : f.body = m.source
  target : f'.body = m.target
  args : List.Forall₂ (Value.Renamed ids) f.args f'.args
  slots : f.locals.length = m.source.locals.length
  locals : ∀ {i : Nat} {v : Value}, f.locals[i]? = some v →
    ∃ v', f'.locals[i]? = some v' ∧ v.Renamed ids v'
  stack : List.Forall₂ (Value.Renamed ids) f.stack f'.stack
  pending : List.Forall₂ (Pending.Renamed m ids) f.pending f'.pending

/-- The frames agree and stand behind the instruction at a position. -/
structure Frame.Behind (m : BodyMove) (ids : List ObjectId) (i : Nat) (f f' : Frame) : Prop extends
    Frame.Renamed m ids f f' where
  pc : f.pc = i + 1
  pc' : f'.pc = m.place i + 1

/-- The frames agree and control has arrived at the same position. -/
structure Frame.Arrived (m : BodyMove) (ids : List ObjectId) (f f' : Frame) : Prop extends
    Frame.Renamed m ids f f' where
  pc : f'.pc = m.arrive f.pc

theorem Pending.Renamed.grow {m : BodyMove} {ids : List ObjectId} {p p' : Pending}
    (same : p.Renamed m ids p') (more : List ObjectId) : p.Renamed m (ids ++ more) p' := by
  cases same with
  | leave target rest => exact .leave target rest
  | throw rest values => exact .throw rest (values.grow more)

namespace Frame

variable {m : BodyMove} {ids : List ObjectId} {i : Nat} {f f' : Frame}

theorem Renamed.grow (same : f.Renamed m ids f') (more : List ObjectId) :
    f.Renamed m (ids ++ more) f' where
  source := same.source
  target := same.target
  args := same.args.imp fun _ _ values => values.grow more
  slots := same.slots
  locals := fun here => by
    obtain ⟨v', here', values⟩ := same.locals here
    exact ⟨v', here', values.grow more⟩
  stack := same.stack.imp fun _ _ values => values.grow more
  pending := same.pending.imp fun _ _ put => put.grow more

theorem Behind.grow (same : f.Behind m ids i f') (more : List ObjectId) :
    f.Behind m (ids ++ more) i f' :=
  ⟨same.toRenamed.grow more, same.pc, same.pc'⟩

theorem Behind.arrived (same : f.Behind m ids i f') : f.Arrived m ids f' where
  toRenamed := same.toRenamed
  pc := by rw [same.pc, same.pc', m.onward]

theorem Renamed.fetched (same : f.Renamed m ids f') (i : Nat) :
    Behind m ids i { f with pc := i + 1 } { f' with pc := m.place i + 1 } :=
  { same with pc := rfl, pc' := rfl }

theorem Behind.withStack (same : f.Behind m ids i f') {stack stack' : List Value}
    (values : List.Forall₂ (Value.Renamed ids) stack stack') :
    Behind m ids i { f with stack := stack } { f' with stack := stack' } :=
  { same with stack := values }

theorem Behind.push (same : f.Behind m ids i f') {v v' : Value} (values : v.Renamed ids v') :
    (f.push v).Behind m ids i (f'.push v') :=
  same.withStack (.cons values same.stack)

theorem Renamed.goTo (same : f.Renamed m ids f') {stack stack' : List Value} {p p' : Nat}
    (values : List.Forall₂ (Value.Renamed ids) stack stack') (arrives : p' = m.arrive p) :
    Arrived m ids { f with stack := stack, pc := p } { f' with stack := stack', pc := p' } :=
  { same with stack := values, pc := arrives }

theorem Renamed.withPending (same : f.Renamed m ids f') {pending pending' : List Pending}
    (put : List.Forall₂ (Pending.Renamed m ids) pending pending') :
    Renamed m ids { f with pending := pending } { f' with pending := pending' } :=
  { same with pending := put }

/-! ### What an instruction takes and gives -/

theorem forall₂_set {α β : Type} {R : α → β → Prop} {xs : List α} {ys : List β}
    (same : List.Forall₂ R xs ys) {x : α} {y : β} (new : R x y) (k : Nat) :
    List.Forall₂ R (xs.set k x) (ys.set k y) := by
  induction same generalizing k with
  | nil => exact .nil
  | cons first others ih =>
      cases k with
      | zero => exact .cons new others
      | succ k => exact .cons first (ih k)

/-- Something and the frame it was taken from, in agreement. -/
def Taken {α β : Type} (related : α → β → Prop) (m : BodyMove) (ids : List ObjectId) (i : Nat)
    (r : α × Frame) (r' : β × Frame) : Prop :=
  related r.1 r'.1 ∧ r.2.Behind m ids i r'.2

theorem Behind.pop (same : f.Behind m ids i f') :
    Follows (Taken (Value.Renamed ids) m ids i) f.pop f'.pop := by
  have stack := same.stack
  unfold Frame.pop
  cases here : f.stack with
  | nil => exact .error
  | cons v rest =>
      rw [here] at stack
      cases here' : f'.stack with
      | nil =>
          rw [here'] at stack
          cases stack
      | cons v' rest' =>
          rw [here'] at stack
          cases stack with
          | cons first others => exact .ok ⟨first, same.withStack others⟩

theorem intOf_renamed {v v' : Value} (values : v.Renamed ids v') :
    Follows Eq (intOf v) (intOf v') := by
  cases values with
  | int n => exact .ok rfl
  | null | text | object => exact .error

theorem objectOf_renamed {v v' : Value} (values : v.Renamed ids v') :
    Follows (fun id id' => ids[id.index]? = some id') (objectOf v) (objectOf v') := by
  cases values with
  | object known => exact .ok known
  | null | text | int => exact .error

theorem Behind.popInt (same : f.Behind m ids i f') :
    Follows (Taken Eq m ids i) f.popInt f'.popInt := by
  refine same.pop.bind ?_
  rintro ⟨v, g⟩ ⟨v', g'⟩ ⟨values, frames⟩
  refine (intOf_renamed values).bind ?_
  rintro n _ rfl
  exact .ok ⟨rfl, frames⟩

theorem Behind.popObject (same : f.Behind m ids i f') :
    Follows (Taken (fun id id' => ids[id.index]? = some id') m ids i) f.popObject f'.popObject := by
  refine same.pop.bind ?_
  rintro ⟨v, g⟩ ⟨v', g'⟩ ⟨values, frames⟩
  refine (objectOf_renamed values).bind ?_
  intro id id' known
  exact .ok ⟨known, frames⟩

theorem Behind.popMany (same : f.Behind m ids i f') (n : Nat) :
    Follows (Taken (List.Forall₂ (Value.Renamed ids)) m ids i) (f.popMany n) (f'.popMany n) := by
  unfold Frame.popMany
  rw [← same.stack.length_eq]
  split
  · exact .error
  · refine .ok ⟨?_, same.withStack (List.forall₂_drop n same.stack)⟩
    exact List.forall₂_reverse_iff.mpr (List.forall₂_take n same.stack)

theorem Behind.popEqual (same : f.Behind m ids i f') (distinct : ids.Nodup) :
    Follows (Taken Eq m ids i) (Action.popEqual f) (Action.popEqual f') := by
  refine same.pop.bind ?_
  rintro ⟨b, g⟩ ⟨b', g'⟩ ⟨second, frames⟩
  refine frames.pop.bind ?_
  rintro ⟨a, k⟩ ⟨a', k'⟩ ⟨first, frames⟩
  exact .ok ⟨(first.beq_eq distinct second).symm, frames⟩

theorem Renamed.loadArg (same : f.Renamed m ids f') (index : UInt16) :
    Follows (Value.Renamed ids) (f.loadArg index) (f'.loadArg index) := by
  unfold Frame.loadArg
  split
  · next v here =>
      obtain ⟨below, rfl⟩ := List.getElem?_eq_some_iff.mp here
      have below' := same.args.length_eq ▸ below
      rw [List.getElem?_eq_getElem below']
      exact .ok (same.args.get below below')
  · exact .error

theorem Behind.storeArg (same : f.Behind m ids i f') (index : UInt16) {v v' : Value}
    (values : v.Renamed ids v') :
    Follows (Behind m ids i) (f.storeArg index v) (f'.storeArg index v') := by
  unfold Frame.storeArg
  rw [← same.args.length_eq]
  split
  · refine .ok ⟨⟨same.source, same.target, ?_, same.slots, same.locals, same.stack, same.pending⟩,
      same.pc, same.pc'⟩
    exact forall₂_set same.args values index.toNat
  · exact .error

theorem Renamed.loadLocal (same : f.Renamed m ids f') (index : UInt16) :
    Follows (Value.Renamed ids) (f.loadLocal index) (f'.loadLocal index) := by
  unfold Frame.loadLocal
  split
  · next v here =>
      obtain ⟨v', here', values⟩ := same.locals here
      rw [here']
      exact .ok values
  · exact .error

theorem Behind.storeLocal (same : f.Behind m ids i f') (index : UInt16) {v v' : Value}
    (values : v.Renamed ids v') :
    Follows (Behind m ids i) (f.storeLocal index v) (f'.storeLocal index v') := by
  unfold Frame.storeLocal
  by_cases below : index.toNat < f.locals.length
  · obtain ⟨_, here', -⟩ := same.locals (List.getElem?_eq_getElem below)
    have below' := (List.getElem?_eq_some_iff.mp here').1
    rw [if_pos below, if_pos below']
    refine .ok ⟨⟨same.source, same.target, same.args, ?_, fun {k w} here => ?_, same.stack,
      same.pending⟩, same.pc, same.pc'⟩
    · simp only [List.length_set]
      exact same.slots
    · rw [List.getElem?_set, if_pos below] at here
      rw [List.getElem?_set]
      split at here
      · next equal =>
          cases here
          rw [if_pos equal, if_pos below']
          exact ⟨v', rfl, values⟩
      · next differs =>
          rw [if_neg differs]
          exact same.locals here
  · rw [if_neg below]
    exact .error

end Frame

end HookSplice
