import HookSplice.Manifest.Basic
import HookSplice.Proofs.GateCode
import HookSplice.Proofs.ProperDeclarations
import HookSplice.Proofs.ReadBodies

/-!
# Templates over a table

The templates of event gates name only symbols of the table they were built over, and place no
markers.  So the templates that a manifest resolves to can be spliced into sound bodies of the host.
-/

namespace HookSplice

open Event (PayloadField PayloadKind)

/-- The instructions and scratch locals of a template are those of a table, and its branches all
    lead to the deny target. -/
structure Template.KnownIn (t : Template) (s : SymbolTable) : Prop where
  emitted : ∀ ins, .emit ins ∈ t.steps → ins.operand.Known s
  scratch : ∀ type ∈ t.scratch, s.hasType type
  unmarked : t.marks = []

theorem Template.KnownIn.grow {t : Template} {s s' : SymbolTable} (known : t.KnownIn s)
    (grown : s.Extends s') : t.KnownIn s' where
  emitted := fun ins member => (known.emitted ins member).grow grown
  scratch := fun type member => grown.hasType (known.scratch type member)
  unmarked := known.unmarked

/-- The field that a capture loads is one of a table. -/
def Capture.KnownIn (s : SymbolTable) (c : Capture) : Prop :=
  ∀ ins ∈ c.load, ins.operand.Known s

theorem CaptureSpec.resolve_known {s : SymbolTable} {spec : CaptureSpec} {c : Capture}
    (success : spec.resolve s = .ok c) : c.KnownIn s := by
  have field {path : String} {make : FieldId → Capture}
      (success : (fieldIn s path).map make = .ok c) : ∃ f, s.hasField f ∧ c = make f := by
    unfold fieldIn at success
    split at success
    · next f found =>
        cases success
        exact ⟨f, SymbolTable.fieldId?_known found, rfl⟩
    · cases success
  have loads {ins : Instruction} {c : Capture} (only : c.load = [ins])
      (known : ins.operand.Known s) :
      c.KnownIn s := by
    intro other member
    rw [only, List.mem_singleton] at member
    exact member ▸ known
  cases spec with
  | arg | slot | int | text | null =>
      cases success
      exact loads rfl trivial
  | argField i path | slotField i path =>
      obtain ⟨f, known, rfl⟩ := field success
      intro ins member
      rcases List.mem_pair.mp member with rfl | rfl
      · trivial
      · exact known
  | staticField path =>
      obtain ⟨f, known, rfl⟩ := field success
      exact loads rfl known

namespace EventGate

variable {s s' : SymbolTable}

theorem mem_emitAll {ins : Instruction} {code : List Instruction} :
    .emit ins ∈ emitAll code ↔ ins ∈ code := by
  simp [emitAll]

/-- The steps that read a field back know the field. -/
theorem readBackSteps_known {kind : PayloadKind} {c : EventClass} (declared : c.DeclaredIn s)
    {field : PayloadField} {slot : Slot} {steps : List Step}
    (success : readBackSteps kind c field slot = .ok steps) :
    ∀ ins, .emit ins ∈ steps → ins.operand.Known s := by
  unfold readBackSteps at success
  split at success
  · cases success
  · next f found =>
      cases success
      intro ins member
      have parts : ins = .of .ldfld (.field f) ∨ ins = slot.store := by simpa using member
      rcases parts with rfl | rfl
      · obtain ⟨d, here, -⟩ := declared.fields _ (mem_of_lookup found)
        exact decide_eq_true (List.getElem?_eq_some_iff.mp here).1
      · cases slot <;> trivial

/-- The template of a gate over a contract that is declared in a table. -/
theorem templateOver_known {g : EventGate} {contract : EventContract} {t : Template}
    (declared : contract.DeclaredIn s) (types : ∀ k, s.hasType (contract.eventClass k).type)
    (captures : ∀ c ∈ g.captures, c.KnownIn s) (success : g.templateOver contract = .ok t) :
    t.KnownIn s := by
  have class_ := declared.classes g.kind
  have unmarked : t.marks = [] := by
    obtain ⟨allowed, stores, -, -, rfl⟩ := templateOver_steps success
    exact marks_steps
  unfold templateOver at success
  simp only at success
  split at success
  · cases success
  next allowed found =>
  obtain ⟨readBack, read, success⟩ := Except.bind_eq_ok success
  cases success
  have steps := fun step member => Except.mapM_eq_ok read step member
  have fieldKnown : s.hasField allowed := by
    obtain ⟨d, here, -⟩ := class_.fields _ (mem_of_lookup found)
    exact decide_eq_true (List.getElem?_eq_some_iff.mp here).1
  have constructorKnown : s.hasMethod (contract.eventClass g.kind).constructor := by
    obtain ⟨e, here, -⟩ := class_.constructor
    exact decide_eq_true (List.getElem?_eq_some_iff.mp here).1
  have dispatchKnown : s.hasMethod contract.dispatch := by
    obtain ⟨e, here, -⟩ := declared.dispatch
    exact decide_eq_true (List.getElem?_eq_some_iff.mp here).1
  refine ⟨fun ins member => ?_, fun type member => ?_, unmarked⟩
  · simp only [List.mem_append, mem_emitAll, List.mem_cons, List.mem_flatten, List.not_mem_nil,
      or_false, reduceCtorEq, false_or, Step.emit.injEq] at member
    rcases member with ((loaded | made | named | dispatched) | ⟨steps', inside, member⟩) | tested
    · obtain ⟨c, inCaptures, here⟩ := List.mem_flatMap.mp loaded
      exact captures c inCaptures ins here
    · exact made ▸ constructorKnown
    · exact named ▸ trivial
    · exact dispatched ▸ dispatchKnown
    · obtain ⟨row, -, gives⟩ := steps steps' inside
      exact readBackSteps_known class_ gives ins member
    · exact tested ▸ fieldKnown
  · rw [List.mem_singleton.mp member]
    exact types g.kind

theorem build_known {g : EventGate} {t : Template} (captures : ∀ c ∈ g.captures, c.KnownIn s)
    (built : g.build.runOn s = (.ok t, s')) : s.Develops s' ∧ t.KnownIn s' := by
  obtain ⟨contract, declared, templated⟩ := build_templateOver built
  obtain ⟨developed, types⟩ := EventContract.declare_develops declared
  obtain ⟨grown, here⟩ := EventContract.declare_runOn declared
  exact ⟨developed, templateOver_known here types
    (fun c member ins loaded => (captures c member ins loaded).grow grown) templated⟩

end EventGate

/-! ### Manifests -/

/-- A hook resolves to a template over the table. -/
theorem HookSpec.resolve_known {h : HookSpec} {d : Descriptor} {s s' : SymbolTable}
    (success : h.resolve.runOn s = (.ok d, s')) : s.Develops s' ∧ d.template.KnownIn s' := by
  obtain ⟨table, middle, here, success⟩ := Declaring.runOn_bind_eq_ok success
  cases here
  split at success
  · cases success
  next target anchor gate found =>
  obtain ⟨template, last, built, success⟩ := Declaring.runOn_bind_eq_ok success
  cases success
  refine EventGate.build_known (fun c member => ?_) built
  unfold parts at found
  split at found
  · cases found
  · obtain ⟨anchor', -, found⟩ := Except.bind_eq_ok found
    obtain ⟨captures, resolved, found⟩ := Except.bind_eq_ok found
    obtain ⟨deny, -, found⟩ := Except.bind_eq_ok found
    cases found
    obtain ⟨spec, -, gives⟩ := Except.mapM_eq_ok resolved c member
    exact CaptureSpec.resolve_known gives

/-- A manifest resolves to templates over the table that it leaves behind. -/
theorem Manifest.resolve_known {m : Manifest} {ds : List Descriptor} {s s' : SymbolTable}
    (success : m.resolve.runOn s = (.ok ds, s')) :
    s.Develops s' ∧ ∀ d ∈ ds, d.template.KnownIn s' := by
  have developed : s.Develops s' := Declaring.runOn_mapM_develops (fun _ => True)
    (fun _ _ => trivial) (fun _ gives => (HookSpec.resolve_known gives).1) trivial success
  exact ⟨developed, (Declaring.runOn_mapM_eq_ok (fun s d => d.template.KnownIn s)
    (fun grown known => known.grow grown)
    (fun gives => ⟨(HookSpec.resolve_known gives).1.grown, (HookSpec.resolve_known gives).2⟩)
    success).2⟩

end HookSplice
