import HookSplice.EventGate

/-!
# The registry of hooks

Descriptors by the name of their hook, in the order of their registration.  Every hook is registered
once, and none after the registry has been frozen.
-/

namespace HookSplice

/-- The registered descriptors, and whether the registry is closed. -/
structure Registry where
  descriptors : List Descriptor
  frozen : Bool

namespace Registry

/-- The registry without descriptors. -/
def empty : Registry := ⟨[], false⟩

/-- The descriptor of a hook. -/
def get? (r : Registry) (hook : String) : Option Descriptor :=
  r.descriptors.find? fun d => d.hook == hook

/-- Registers a descriptor. -/
def register (r : Registry) (d : Descriptor) : Except PatchError Registry :=
  if r.frozen then .error (.registryFrozen d.hook)
  else if (r.get? d.hook).isSome then .error (.duplicateHook d.hook)
  else .ok { r with descriptors := r.descriptors ++ [d] }

/-- Closes the registry. -/
def freeze (r : Registry) : Registry :=
  { r with frozen := true }

/-- The names of the registered hooks. -/
def hooks (r : Registry) : List String :=
  r.descriptors.map Descriptor.hook

/-- The number of registered hooks. -/
def size (r : Registry) : Nat :=
  r.descriptors.length

end Registry

end HookSplice
