import Mathlib.Data.List.Nodup
import HookSplice.Image.Reader
import HookSplice.Proofs.Common

/-!
# Bodies and hosts

What a method finds among bodies into which others were put, and what the reader does, which puts
in the bodies of an image one by one: for a body, and for all of them.
-/

namespace HookSplice

/-! ### Bodies by method -/

theorem find?_insertBody (body : Body) (bodies : List Body) (method : MethodId) :
    (insertBody body bodies).find? (fun b => b.method == method) =
      if body.method = method then some body else bodies.find? fun b => b.method == method := by
  fun_induction insertBody body bodies with
  | case1 => grind
  | case2 => grind
  | case3 => grind
  | case4 => grind

/-- A body with a larger method than all others comes last. -/
theorem insertBody_last {body : Body} {bodies : List Body}
    (largest : ∀ other ∈ bodies, other.method.index < body.method.index) :
    insertBody body bodies = bodies ++ [body] := by
  induction bodies with
  | nil => rfl
  | cons other rest ih =>
      obtain ⟨before, others⟩ := List.forall_mem_cons.mp largest
      have differs : body.method ≠ other.method := fun same => by
        rw [same] at before
        exact Nat.lt_irrefl _ before
      rw [insertBody, if_neg (Nat.not_lt_of_gt before), if_neg differs, ih others,
        List.cons_append]

namespace Bodies

variable {bodies : Bodies} {body b : Body} {method : MethodId}

theorem nodup_methods (bodies : Bodies) : (bodies.toList.map Body.method).Nodup := by
  refine List.pairwise_map.mpr (bodies.ordered.imp fun {a b} before equal => ?_)
  rw [equal] at before
  exact Nat.lt_irrefl _ before

/-- A method finds the body that belongs to it. -/
theorem find?_eq_some_iff : bodies.find? method = some b ↔ b ∈ bodies ∧ b.method = method := by
  constructor
  · intro found
    exact ⟨List.mem_of_find?_eq_some found, by simpa using List.find?_some found⟩
  · rintro ⟨member, rfl⟩
    obtain ⟨other, found⟩ : ∃ other, bodies.find? b.method = some other :=
      Option.isSome_iff_exists.mp (List.find?_isSome.mpr ⟨b, member, by simp⟩)
    have same : other.method = b.method := by simpa using List.find?_some found
    rw [found, List.inj_on_of_nodup_map bodies.nodup_methods (List.mem_of_find?_eq_some found)
      member same]

theorem find?_eq_none_iff :
    bodies.find? method = none ↔ method ∉ bodies.toList.map Body.method := by
  simp [find?]

theorem find?_cons {rest : List Body}
    (ordered : (b :: rest).Pairwise fun a b => a.method.index < b.method.index) :
    find? ⟨b :: rest, ordered⟩ method =
      if b.method = method then some b else find? ⟨rest, ordered.of_cons⟩ method := by
  unfold find?
  rw [List.find?_cons]
  by_cases equal : b.method = method
  · simp [equal]
  · rw [if_neg equal, beq_false_of_ne equal]

/-- Bodies are determined by what each method finds. -/
theorem ext_find? {xs ys : Bodies} (same : ∀ method, xs.find? method = ys.find? method) :
    xs = ys := by
  have member (b : Body) : b ∈ xs ↔ b ∈ ys := by
    have here : xs.find? b.method = some b ↔ b ∈ xs ∧ b.method = b.method := find?_eq_some_iff
    have there : ys.find? b.method = some b ↔ b ∈ ys ∧ b.method = b.method := find?_eq_some_iff
    rw [same] at here
    simpa using here.symm.trans there
  have perm : xs.toList.Perm ys.toList :=
    (List.perm_ext_iff_of_nodup xs.nodup_methods.of_map ys.nodup_methods.of_map).mpr member
  exact Bodies.ext (perm.eq_of_pairwise
    (fun a b _ _ before after => absurd after (Nat.lt_asymm before)) xs.ordered ys.ordered)

theorem mem_insert (member : b ∈ bodies.insert body) : b = body ∨ b ∈ bodies :=
  mem_insertBody member

/-- The body that was put in is the one of its method; the other methods keep theirs. -/
theorem find?_insert (bodies : Bodies) (body : Body) (method : MethodId) :
    (bodies.insert body).find? method =
      if body.method = method then some body else bodies.find? method :=
  find?_insertBody body bodies.toList method

/-- Bodies of different methods may be put in in any order. -/
theorem insert_comm {x y : Body} (bodies : Bodies) (differ : x.method ≠ y.method) :
    (bodies.insert y).insert x = (bodies.insert x).insert y := by
  refine ext_find? fun method => ?_
  simp only [find?_insert]
  split
  · next equal => rw [if_neg (fun same => differ (equal.trans same.symm))]
  · rfl

theorem mem_insertAll {others : List Body} (member : b ∈ bodies.insertAll others) :
    b ∈ others ∨ b ∈ bodies := by
  induction others generalizing bodies with
  | nil => exact Or.inr member
  | cons first rest ih =>
      rcases ih member with later | old
      · exact Or.inl (.tail _ later)
      · rcases mem_insert old with rfl | inside
        · exact Or.inl (List.mem_cons_self ..)
        · exact Or.inr inside

/-- The bodies that are put in take the place of those of their methods. -/
theorem find?_insertAll (bodies others : Bodies) (method : MethodId) :
    (bodies.insertAll others.toList).find? method =
      (others.find? method).or (bodies.find? method) := by
  obtain ⟨others, ordered⟩ := others
  induction others generalizing bodies with
  | nil => rfl
  | cons b rest ih =>
      refine (ih (bodies.insert b) ordered.of_cons).trans ?_
      rw [find?_insert, find?_cons]
      by_cases equal : b.method = method
      · have absent : find? ⟨rest, ordered.of_cons⟩ method = none := by
          refine find?_eq_none_iff.mpr fun member => ?_
          obtain ⟨other, inside, same⟩ := List.mem_map.mp member
          have := (List.pairwise_cons.mp ordered).1 other inside
          rw [equal, same] at this
          exact Nat.lt_irrefl _ this
        simp [absent, equal]
      · simp [equal]

/-- Bodies that follow in order are put in behind the others. -/
theorem toList_insertAll {others : List Body}
    (ordered : (bodies.toList ++ others).Pairwise fun a b => a.method.index < b.method.index) :
    (bodies.insertAll others).toList = bodies.toList ++ others := by
  induction others generalizing bodies with
  | nil => exact (List.append_nil _).symm
  | cons b rest ih =>
      have last : (bodies.insert b).toList = bodies.toList ++ [b] :=
        insertBody_last fun other inside =>
          (List.pairwise_append.mp ordered).2.2 other inside b (List.mem_cons_self ..)
      rw [List.append_cons, ← last] at ordered ⊢
      exact ih ordered

end Bodies

namespace Host

theorem body?_eq_some_iff {h : Host} {method : MethodId} {b : Body} :
    h.body? method = some b ↔ b ∈ h.bodies ∧ b.method = method :=
  Bodies.find?_eq_some_iff

theorem body?_eq_none_iff {h : Host} {method : MethodId} :
    h.body? method = none ↔ method ∉ h.bodies.toList.map Body.method :=
  Bodies.find?_eq_none_iff

theorem replaceBody_eq_ok {h h' : Host} {body : Body} {old : Option Body} :
    h.replaceBody body = .ok (old, h') ↔ (h.symbols.method? body.method).isSome ∧
      old = h.body? body.method ∧ h' = { h with bodies := h.bodies.insert body } := by
  unfold replaceBody
  cases h.symbols.method? body.method <;> simp [eq_comm]

end Host

/-! ### Reading an image -/

namespace Image

/-- The names of references with the labels that they stand for. -/
def numbered (refs : List (Nat × List Char)) : List (List Char × Label) :=
  refs.zipIdx.map fun ((_, name), number) => (name, Label.ofNat number)

theorem map_zipIdx_eq_numbered (refs : List (Nat × List Char)) :
    refs.zipIdx.map (fun ((_, name), number) => (name, Label.ofNat number)) = numbered refs := rfl

/-- The code of raw instructions with their operands. -/
def assembleAll (refs : List (Nat × List Char)) (raws : List RawInstruction)
    (operands : List Operand) : List Instruction :=
  (raws.zip operands).zipIdx.map fun ((raw, operand), i) => assemble refs raw operand i

/-- The lines of a body make up a draft.  No label of the draft stands behind its code, and its
    references, its operands and its regions are read one after the other; the references can be
    counted. -/
theorem readBody_eq_ok {symbols symbols' : SymbolTable} {p : PendingBody} {b : Body}
    (success : readBody symbols p = .ok (b, symbols')) :
    ∃ symbols₁ symbols₂ d refs operands regions,
      p.lines.foldlM readBodyLine (symbols, ⟨[], [], [], []⟩) = .ok (symbols₁, d) ∧
      (∀ entry ∈ d.labels, entry.2 < d.instructions.length) ∧
      references d.labels d.instructions [] = .ok refs ∧ refs.length < UInt32.size ∧
      readOperands (numbered refs) symbols₁ d.instructions = .ok (operands, symbols₂) ∧
      resolveRegions d.labels d.instructions.length symbols₂ d.regions = .ok (regions, symbols') ∧
      b = ⟨p.method, assembleAll refs d.instructions operands, d.locals, regions,
        UInt32.ofNat refs.length⟩ := by
  obtain ⟨⟨symbols₁, d⟩, lines, success⟩ := Except.bind_eq_ok success
  simp only at success
  split at success
  · cases success
  next dangling =>
  obtain ⟨refs, refsRead, success⟩ := Except.bind_eq_ok success
  split at success
  · cases success
  next few =>
  obtain ⟨⟨operands, symbols₂⟩, operandsRead, success⟩ := Except.bind_eq_ok success
  obtain ⟨⟨regions, symbols₃⟩, regionsRead, success⟩ := Except.bind_eq_ok success
  cases success
  refine ⟨symbols₁, symbols₂, d, refs, operands, regions, lines, fun entry member => ?_, refsRead,
    Nat.lt_of_not_le few, operandsRead, regionsRead, rfl⟩
  have := List.find?_eq_none.mp dangling entry member
  simpa using this

/-- What reading one body into a host keeps, reading all of them keeps. -/
theorem readBodies_induction {P : Host → Prop} {pending : List PendingBody} {h h' : Host}
    (keeps : ∀ {p g b symbols}, p ∈ pending → P g → readBody g.symbols p = .ok (b, symbols) →
      (symbols.method? b.method).isSome →
      P { g with symbols := symbols, bodies := g.bodies.insert b })
    (start : P h) (success : readBodies h pending = .ok h') : P h' := by
  induction pending generalizing h with
  | nil =>
      cases success
      exact start
  | cons p rest ih =>
      obtain ⟨⟨b, symbols⟩, bodyRead, success⟩ := Except.bind_eq_ok success
      simp only at success
      split at success
      · next old next replaced =>
          obtain ⟨declared, -, rfl⟩ := Host.replaceBody_eq_ok.mp replaced
          exact ih (fun member => keeps (.tail _ member))
            (keeps (List.mem_cons_self ..) start bodyRead declared) success
      · cases success

/-- An image is read by its outline first and the bodies after that. -/
theorem read_eq_ok {image : String} {h : Host} (success : read image = .ok h) :
    ∃ symbols pending, readOutline (linesOf image) = .ok (symbols, pending) ∧
      readBodies (.ofSymbols symbols) pending = .ok h := by
  unfold read at success
  simp only at success
  split at success
  · cases success
  · obtain ⟨⟨symbols, pending⟩, outline, success⟩ := Except.bind_eq_ok success
    exact ⟨symbols, pending, outline, success⟩

end Image

end HookSplice
