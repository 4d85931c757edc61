import Lokinet.Lib.Word32

/-!
The bounded lock-free queue (llarp/util/thread/queue_manager.cpp, queue.hpp), run by one thread.
A `QueueManager` of capacity `c` keeps a push index and a pop index, each a combined index
`generation * c + slot` that wraps at `numGenerations(c) * c`, the push index with the disabled
flag in its top bit, and a state word per slot: the slot's generation over its `ElementState`.
A `Queue` adds the storage of the elements.

With one thread every atomic load reads the last value stored and every compare-and-swap on an
index succeeds exactly when the index still holds the value loaded; `yield` does nothing. The
retry loops run on `fuel`; the model follows a build with `NDEBUG`, where the `assert`s are gone.
-/

namespace Lokinet.Thread

open Word32

inductive ElementState where
  | empty
  | writing
  | full
  | reading
  deriving DecidableEq

def ElementState.toUInt32 : ElementState → UInt32
  | empty => 0
  | writing => 1
  | full => 2
  | reading => 3

/-- `ElementState(x)` for a value below `4`. -/
def ElementState.ofUInt32 (x : UInt32) : ElementState :=
  if x = 0 then empty else if x = 1 then writing else if x = 2 then full else reading

inductive QueueReturn where
  | success
  | queueDisabled
  | queueEmpty
  | queueFull
  deriving DecidableEq

def generationCountShift : UInt32 := 2

/-- `NUM_ELEMENT_GENERATIONS`: the generations a state word can hold. -/
def numElementGenerations : Nat := 1 <<< 30

def elementStateMask : UInt32 := 3

def disabledStateMask : UInt32 := (1 : UInt32) <<< 31

/-- `NUM_COMBINED_INDEXES`. -/
def numCombinedIndexes : UInt32 := disabledStateMask

/-- `QueueManager::MAX_CAPACITY`. -/
def maxCapacity : Nat := 1 <<< 30

def isDisabledFlagSet (encodedIndex : UInt32) : Bool := encodedIndex &&& disabledStateMask != 0

def discardDisabledFlag (encodedIndex : UInt32) : UInt32 := encodedIndex &&& ~~~disabledStateMask

def encodeElement (generation : UInt32) (state : ElementState) : UInt32 :=
  (generation <<< generationCountShift) ||| state.toUInt32

def decodeGenerationFromElementState (state : UInt32) : UInt32 := state >>> generationCountShift

def decodeStateFromElementState (state : UInt32) : ElementState :=
  ElementState.ofUInt32 (state &&& elementStateMask)

/-- `numGenerations(capacity)`. -/
def numGenerations (capacity : Nat) : UInt32 :=
  UInt32.ofNat (min (numCombinedIndexes.toNat / capacity) numElementGenerations)

/-- `static_cast<size_t>` of an `int32_t`. -/
def sizeTOfInt32 (d : Int) : Nat := if 0 ≤ d then d.toNat else (d + 2 ^ 64).toNat

structure QueueManager where
  pushIndex : UInt32
  popIndex : UInt32
  capacity : Nat
  maxGeneration : UInt32
  maxCombinedIndex : UInt32
  states : List UInt32

namespace QueueManager

/-- The constructor: both indexes at `0` and every slot empty in generation `0`. -/
def create (capacity : Nat) : QueueManager :=
  ⟨0, 0, capacity, numGenerations capacity - 1, numGenerations capacity * UInt32.ofNat capacity - 1,
    List.replicate capacity 0⟩

variable (m : QueueManager)

def nextCombinedIndex (index : UInt32) : UInt32 := if m.maxCombinedIndex = index then 0 else index + 1

def nextGeneration (generation : UInt32) : UInt32 := if m.maxGeneration = generation then 0 else generation + 1

/-- The generation and the slot of a combined index. -/
def generationOf (combinedIndex : UInt32) : UInt32 := UInt32.ofNat (combinedIndex.toNat / m.capacity)

def slotOf (combinedIndex : UInt32) : UInt32 := UInt32.ofNat (combinedIndex.toNat % m.capacity)

def stateAt (index : UInt32) : UInt32 := m.states.getD index.toNat 0

def setState (index value : UInt32) : QueueManager := { m with states := m.states.set index.toNat value }

/-- The loop of `reservePushIndex`, from the values of `loadedPushIndex` and `savedPushIndex`:
the result, the generation and slot reserved, and the manager. -/
def reservePushLoop : Nat → QueueManager → UInt32 → UInt32 → Option (QueueReturn × UInt32 × UInt32 × QueueManager)
  | 0, _, _, _ => none
  | fuel + 1, m, loadedPushIndex, savedPushIndex =>
    if isDisabledFlagSet loadedPushIndex then some (.queueDisabled, 0, 0, m)
    else
      let combinedIndex := discardDisabledFlag loadedPushIndex
      let currGen := m.generationOf combinedIndex
      let currIdx := m.slotOf combinedIndex
      let compare := m.stateAt currIdx
      if compare = encodeElement currGen .empty then
        let m := m.setState currIdx (encodeElement currGen .writing)
        -- the push index moves on, unless it changed since it was loaded
        let m := if m.pushIndex = combinedIndex then { m with pushIndex := m.nextCombinedIndex combinedIndex } else m
        some (.success, currGen, currIdx, m)
      else
        let elemGen := decodeGenerationFromElementState compare
        let difference := signed (currGen - elemGen)
        if difference = 1 ∨ difference = -signed m.maxGeneration then
          if decodeStateFromElementState compare = .reading then
            reservePushLoop fuel m m.pushIndex savedPushIndex
          else if savedPushIndex ≠ loadedPushIndex then
            reservePushLoop fuel m m.pushIndex loadedPushIndex
          else some (.queueFull, 0, 0, m)
        else
          let next := m.nextCombinedIndex combinedIndex
          if m.pushIndex = combinedIndex then reservePushLoop fuel { m with pushIndex := next } combinedIndex savedPushIndex
          else reservePushLoop fuel m m.pushIndex savedPushIndex

def reservePushIndex (fuel : Nat) : Option (QueueReturn × UInt32 × UInt32 × QueueManager) :=
  reservePushLoop fuel m m.pushIndex 0xFFFFFFFF

def commitPushIndex (generation index : UInt32) : QueueManager :=
  m.setState index (encodeElement generation .full)

/-- The loop of `reservePopIndex`, from the values of `loadedPopIndex` and `savedPopIndex`. -/
def reservePopLoop : Nat → QueueManager → UInt32 → UInt32 → Option (QueueReturn × UInt32 × UInt32 × QueueManager)
  | 0, _, _, _ => none
  | fuel + 1, m, loadedPopIndex, savedPopIndex =>
    let currGen := m.generationOf loadedPopIndex
    let currIdx := m.slotOf loadedPopIndex
    let compare := m.stateAt currIdx
    if compare = encodeElement currGen .full then
      let m := m.setState currIdx (encodeElement currGen .reading)
      let m := if m.popIndex = loadedPopIndex then { m with popIndex := m.nextCombinedIndex loadedPopIndex } else m
      some (.success, currGen, currIdx, m)
    else
      let elemGen := decodeGenerationFromElementState compare
      let state := decodeStateFromElementState compare
      let difference := signed (currGen - elemGen)
      if difference = 1 ∨ difference = -signed m.maxGeneration then some (.queueEmpty, 0, 0, m)
      else if difference = 0 ∧ state = .empty then
        if savedPopIndex ≠ loadedPopIndex then reservePopLoop fuel m m.popIndex loadedPopIndex
        else some (.queueEmpty, 0, 0, m)
      else if difference ≠ 0 ∨ state = .writing then reservePopLoop fuel m m.popIndex savedPopIndex
      else if m.popIndex = loadedPopIndex then
        reservePopLoop fuel { m with popIndex := m.nextCombinedIndex loadedPopIndex } loadedPopIndex savedPopIndex
      else reservePopLoop fuel m m.popIndex savedPopIndex

def reservePopIndex (fuel : Nat) : Option (QueueReturn × UInt32 × UInt32 × QueueManager) :=
  reservePopLoop fuel m m.popIndex 0xFFFFFFFF

def commitPopIndex (generation index : UInt32) : QueueManager :=
  m.setState index (encodeElement (m.nextGeneration generation) .empty)

/-- `disable`: the flag is set, unless it is set already. -/
def disable : QueueManager :=
  if isDisabledFlagSet m.pushIndex then m else { m with pushIndex := m.pushIndex ||| disabledStateMask }

def enable : QueueManager :=
  if !isDisabledFlagSet m.pushIndex then m else { m with pushIndex := m.pushIndex &&& ~~~disabledStateMask }

def enabled : Bool := !isDisabledFlagSet m.pushIndex

/-- `size()`: the distance from the pop index to the push index, read through a signed 32-bit
difference; a push index that looks more than a capacity ahead counts as an empty queue. -/
def size : Nat :=
  let combinedPushIndex := discardDisabledFlag m.pushIndex
  let combinedPopIndex := m.popIndex
  let difference := signed (combinedPushIndex - combinedPopIndex)
  if 0 ≤ difference then
    if difference > m.capacity then 0 else difference.toNat
  else if difference < -signed (m.maxCombinedIndex / 2) then
    min (sizeTOfInt32 (signed (combinedPushIndex - combinedPopIndex + (m.maxCombinedIndex + 1)))) m.capacity
  else 0

end QueueManager

/-- A `thread::Queue`: the manager and the slots' storage, `none` where no element lives. -/
structure Queue (α : Type) where
  data : List (Option α)
  manager : QueueManager

namespace Queue

variable {α : Type}

def create (capacity : Nat) : Queue α := ⟨List.replicate capacity none, QueueManager.create capacity⟩

variable (fuel : Nat) (q : Queue α)

/-- `tryPushBack`: the value is constructed in the slot reserved, and the slot committed. -/
def tryPushBack (value : α) : Option (QueueReturn × Queue α) :=
  match q.manager.reservePushIndex fuel with
  | none => none
  | some (retVal, generation, index, m) =>
    if retVal ≠ .success then some (retVal, { q with manager := m })
    else some (.success, ⟨q.data.set index.toNat (some value), m.commitPushIndex generation index⟩)

/-- `tryPopFront`: the element of the slot reserved, which the pop guard then destroys. -/
def tryPopFront : Option (Option α × Queue α) :=
  match q.manager.reservePopIndex fuel with
  | none => none
  | some (retVal, generation, index, m) =>
    if retVal ≠ .success then some (none, { q with manager := m })
    else some (q.data.getD index.toNat none, ⟨q.data.set index.toNat none, m.commitPopIndex generation index⟩)

/-- The loop of `removeAll`: at most `elemCount` elements popped and destroyed. -/
def removeAllLoop : Nat → Queue α → Option (Queue α)
  | 0, q => some q
  | elemCount + 1, q =>
    match q.manager.reservePopIndex fuel with
    | none => none
    | some (retVal, generation, index, m) =>
      if retVal ≠ .success then some { q with manager := m }
      else removeAllLoop elemCount ⟨q.data.set index.toNat none, m.commitPopIndex generation index⟩

def removeAll : Option (Queue α) := removeAllLoop fuel q.manager.size q

def disable : Queue α := { q with manager := q.manager.disable }

def enable : Queue α := { q with manager := q.manager.enable }

def size : Nat := q.manager.size

end Queue

/-- The calls one thread makes on a queue. -/
inductive Op (α : Type) where
  | tryPushBack (value : α)
  | tryPopFront
  | removeAll
  | disable
  | enable

/-- What a call returns. -/
inductive Reply (α : Type) where
  | pushed (retVal : QueueReturn)
  | popped (value : Option α)
  | done
  deriving DecidableEq

namespace Queue

variable {α : Type} (fuel : Nat)

def step (q : Queue α) : Op α → Option (Reply α × Queue α)
  | .tryPushBack value => (q.tryPushBack fuel value).map fun r => (.pushed r.1, r.2)
  | .tryPopFront => (q.tryPopFront fuel).map fun r => (.popped r.1, r.2)
  | .removeAll => (q.removeAll fuel).map fun q => (.done, q)
  | .disable => some (.done, q.disable)
  | .enable => some (.done, q.enable)

def run (q : Queue α) : List (Op α) → Option (List (Reply α) × Queue α)
  | [] => some ([], q)
  | op :: ops =>
    match q.step fuel op with
    | none => none
    | some (reply, q') => (run q' ops).map fun r => (reply :: r.1, r.2)

end Queue

end Lokinet.Thread
