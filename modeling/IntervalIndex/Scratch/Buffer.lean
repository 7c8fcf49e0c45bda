namespace IntervalIndex.Scratch

/-- A stack whose storage grows by doubling, from four places on, and never shrinks. The top is the
last element. -/
structure Buffer (ν : Type) where
  contents : Array ν
  capacity : Nat
  fits : contents.size ≤ capacity

namespace Buffer

variable {ν : Type}

def fresh : Buffer ν := ⟨#[], 0, by simp⟩

def size (b : Buffer ν) : Nat := b.contents.size

def push (b : Buffer ν) (x : ν) : Buffer ν :=
  let capacity := if b.contents.size < b.capacity then b.capacity else max (2 * b.capacity) 4
  ⟨b.contents.push x, capacity, by
    have := b.fits
    simp only [Array.size_push, capacity]
    split <;> omega⟩

def pushAll (b : Buffer ν) (xs : List ν) : Buffer ν := xs.foldl push b

def top? (b : Buffer ν) : Option ν := b.contents.back?

def pop (b : Buffer ν) : Buffer ν :=
  ⟨b.contents.pop, b.capacity, by have := b.fits; simp only [Array.size_pop]; omega⟩

def clear (b : Buffer ν) : Buffer ν := ⟨#[], b.capacity, by simp⟩

def reserveExact (b : Buffer ν) (more : Nat) : Buffer ν :=
  ⟨b.contents, max b.capacity (b.contents.size + more), by have := b.fits; omega⟩

def toStack (b : Buffer ν) : List ν := b.contents.toList.reverse

@[simp] theorem toStack_fresh : (fresh : Buffer ν).toStack = [] := rfl

@[simp] theorem toStack_clear (b : Buffer ν) : b.clear.toStack = [] := rfl

@[simp] theorem toStack_push (b : Buffer ν) (x : ν) : (b.push x).toStack = x :: b.toStack := by
  simp [toStack, push]

@[simp] theorem toStack_pop (b : Buffer ν) : b.pop.toStack = b.toStack.tail := by
  simp [toStack, pop, List.tail_reverse]

theorem top?_eq_head? (b : Buffer ν) : b.top? = b.toStack.head? := by
  simp [toStack, top?, Array.back?_eq_getElem?, List.head?_reverse, List.getLast?_eq_getElem?]

theorem size_eq_length (b : Buffer ν) : b.size = b.toStack.length := by
  simp [toStack, size]

end Buffer

end IntervalIndex.Scratch
