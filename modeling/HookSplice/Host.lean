import HookSplice.Body

/-!
# Hosts

A host is a symbol table with the current body of every method that has one, in the order of the
methods, and the names of the hooks that have been installed into it.
-/

namespace HookSplice

/-- Puts a body into a list that is ordered by method, in the place of the one it replaces. -/
def insertBody (body : Body) : List Body → List Body
  | [] => [body]
  | other :: rest =>
      if body.method.index < other.method.index then body :: other :: rest
      else if body.method = other.method then body :: rest
      else other :: insertBody body rest

theorem mem_insertBody {body b : Body} {bodies : List Body} (member : b ∈ insertBody body bodies) :
    b = body ∨ b ∈ bodies := by
  fun_induction insertBody body bodies with
  | case1 => exact Or.inl (List.mem_singleton.mp member)
  | case2 => exact List.mem_cons.mp member
  | case3 other rest _ equal =>
      exact (List.mem_cons.mp member).imp_right (List.mem_cons_of_mem _)
  | case4 other rest _ _ ih =>
      rcases List.mem_cons.mp member with rfl | member
      · exact Or.inr (List.mem_cons_self ..)
      · exact (ih member).imp_right (List.mem_cons_of_mem _)

theorem pairwise_insertBody {bodies : List Body}
    (ordered : bodies.Pairwise fun a b => a.method.index < b.method.index) (body : Body) :
    (insertBody body bodies).Pairwise fun a b => a.method.index < b.method.index := by
  fun_induction insertBody body bodies with
  | case1 => simp
  | case2 other rest before =>
      refine List.pairwise_cons.mpr ⟨fun b member => ?_, ordered⟩
      rcases List.mem_cons.mp member with rfl | member
      · exact before
      · exact Nat.lt_trans before ((List.pairwise_cons.mp ordered).1 b member)
  | case3 other rest _ equal =>
      rw [List.pairwise_cons, equal]
      exact List.pairwise_cons.mp ordered
  | case4 other rest notBefore differs ih =>
      obtain ⟨first, others⟩ := List.pairwise_cons.mp ordered
      refine List.pairwise_cons.mpr ⟨fun b member => ?_, ih others⟩
      rcases mem_insertBody member with rfl | member
      · have : b.method.index ≠ other.method.index := fun equal => differs (by
          cases method : b.method
          cases method' : other.method
          simp_all)
        omega
      · exact first b member

/-- Bodies by ascending method, at most one for each method. -/
@[ext]
structure Bodies where
  toList : List Body
  ordered : toList.Pairwise fun a b => a.method.index < b.method.index
  deriving DecidableEq

namespace Bodies

instance : EmptyCollection Bodies :=
  ⟨⟨[], .nil⟩⟩

/-- One body. -/
def single (body : Body) : Bodies :=
  ⟨[body], List.pairwise_singleton _ body⟩

instance : Membership Body Bodies :=
  ⟨fun bodies body => body ∈ bodies.toList⟩

instance {bodies : Bodies} {P : Body → Prop} [DecidablePred P] :
    Decidable (∀ b ∈ bodies, P b) :=
  inferInstanceAs (Decidable (∀ b ∈ bodies.toList, P b))

/-- Makes a body that of its method. -/
def insert (bodies : Bodies) (body : Body) : Bodies :=
  ⟨insertBody body bodies.toList, pairwise_insertBody bodies.ordered body⟩

/-- Makes each body of a list that of its method, the last one where methods repeat. -/
def insertAll (bodies : Bodies) (others : List Body) : Bodies :=
  others.foldl insert bodies

/-- The body of a method. -/
def find? (bodies : Bodies) (method : MethodId) : Option Body :=
  bodies.toList.find? fun b => b.method == method

end Bodies

/-- The symbols, the bodies, and the hooks installed so far. -/
structure Host where
  symbols : SymbolTable
  bodies : Bodies
  applied : List String
  deriving DecidableEq

namespace Host

/-- The host without bodies over a symbol table. -/
def ofSymbols (symbols : SymbolTable) : Host :=
  ⟨symbols, ∅, []⟩

/-- The current body of a method. -/
def body? (h : Host) (method : MethodId) : Option Body :=
  h.bodies.find? method

/-- The body of the method with an identity. -/
def bodyNamed? (h : Host) (identity : String) : Option Body :=
  (h.symbols.methodId? identity).bind h.body?

/-- Makes a body the implementation of its method, which has to be declared.  Gives the body that
    it replaces. -/
def replaceBody (h : Host) (body : Body) : Except SymbolError (Option Body × Host) :=
  match h.symbols.method? body.method with
  | none => .error (.unknownMethod body.method)
  | some _ => .ok (h.body? body.method, { h with bodies := h.bodies.insert body })

/-- Notes that a hook is part of this host. -/
def recordApplied (h : Host) (hook : String) : Host :=
  { h with applied := h.applied ++ [hook] }

/-- Whether a hook is part of this host. -/
def isApplied (h : Host) (hook : String) : Bool :=
  h.applied.contains hook

/-- The identity of a method. -/
def methodName (h : Host) (method : MethodId) : String :=
  h.symbols.methodName method

end Host

end HookSplice
