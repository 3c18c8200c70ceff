import LaunchGraph.Device

/-!
# Device arrays

An array is a typed allocation of fixed length.  The memory belongs to the device; the scheduler
keeps the identity and the shape.  A view of a part of an array refers to the whole allocation,
so views of disjoint parts alias.
-/

namespace LaunchGraph

/-- A typed allocation. -/
structure DeviceArray where
  buffer : BufferId
  type : ElementType
  length : Nat
deriving DecidableEq, Repr

/-- A part of an array. -/
structure ArrayView where
  buffer : BufferId
  type : ElementType
  offset : Nat
  length : Nat
deriving DecidableEq, Repr

/-- Sizes and positions are below this bound. -/
def addressSpace : Nat := 0x10000000000000000

namespace DeviceArray

def sizeBytes (a : DeviceArray) : Nat := a.type.size * a.length

/-- Allocates an array on a device. -/
def allocate (type : ElementType) (length : Nat) : Action Device DeviceArray := do
  if type = .void then Action.fail (.config .arrayOfVoid)
  if addressSpace ≤ type.size * length then Action.fail (.config (.arrayTooLarge length type))
  let buffer ← Device.allocate (type.size * length)
  pure ⟨buffer, type, length⟩

/-- The part of `length` elements from `offset` on. -/
def view (a : DeviceArray) (offset length : Nat) : Except Error ArrayView :=
  if offset + length ≤ a.length then .ok ⟨a.buffer, a.type, offset, length⟩
  else .error (.invalidView offset length a.length)

end DeviceArray

end LaunchGraph
