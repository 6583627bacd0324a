/-
Bounded rings: a fixed buffer with the index of the oldest entry and the number of entries.

`contents` reads a ring as a queue, oldest first. On a valid ring `putBack` appends, `dropFront` removes the oldest
entry, and `push` is the drop-oldest append: on a full ring the oldest entry makes room.

Results:
- `contents_dropFront`, `contents_putBack`: the two moves of the indices, wrap-around included, are the two ends of the
  queue;
- `contents_push`: `push` refines `dropOldest`.
-/
import Mathlib.Data.Nat.Notation
import Mathlib.Data.List.Range
import Mathlib.Data.Int.ModEq

structure RingBuffer (α : Type*) where
  buf : List α
  head : ℕ
  count : ℕ
deriving DecidableEq, Repr

namespace RingBuffer

variable {α : Type*} [Inhabited α]

/-- an empty ring of n slots -/
def new (n : ℕ) : RingBuffer α := ⟨List.replicate n default, 0, 0⟩

def size (s : RingBuffer α) : ℕ := s.buf.length

/-- the slot of the i-th entry -/
def slot (s : RingBuffer α) (i : ℕ) : ℕ := (s.head + i) % s.size

def get (s : RingBuffer α) (i : ℕ) : α := s.buf.getD (s.slot i) default

/-- the entries, oldest first -/
def contents (s : RingBuffer α) : List α := (List.range s.count).map s.get

def front (s : RingBuffer α) : α := s.buf.getD s.head default

/-- clears the oldest slot and moves past it -/
def dropFront (s : RingBuffer α) : RingBuffer α :=
  { buf := s.buf.set s.head default, head := (s.head + 1) % s.size, count := s.count - 1 }

def putBack (s : RingBuffer α) (r : α) : RingBuffer α := { s with buf := s.buf.set (s.slot s.count) r, count := s.count + 1 }

/-- on a full ring the oldest entry makes room -/
def push (s : RingBuffer α) (r : α) : RingBuffer α := if s.count = s.size then s.dropFront.putBack r else s.putBack r

/-- both indices are in range, and there is a slot -/
structure Valid (s : RingBuffer α) : Prop where
  head : s.head < s.size
  count : s.count ≤ s.size

/-- what `push` is on queues of at most n entries -/
def dropOldest (n : ℕ) (q : List α) (r : α) : List α := if q.length = n then q.tail ++ [r] else q ++ [r]

@[simp] theorem size_new (n : ℕ) : (new n : RingBuffer α).size = n := List.length_replicate

@[simp] theorem size_dropFront (s : RingBuffer α) : s.dropFront.size = s.size := List.length_set

omit [Inhabited α] in
@[simp] theorem size_putBack (s : RingBuffer α) (r : α) : (s.putBack r).size = s.size := List.length_set

@[simp] theorem size_push (s : RingBuffer α) (r : α) : (s.push r).size = s.size := by
  unfold push
  split_ifs
  · rw [size_putBack, size_dropFront]
  · rw [size_putBack]

@[simp] theorem length_contents (s : RingBuffer α) : s.contents.length = s.count := by
  rw [contents, List.length_map, List.length_range]

/-! ## Validity -/

theorem valid_new {n : ℕ} (h : 1 ≤ n) : (new n : RingBuffer α).Valid :=
  ⟨by rw [size_new]; exact h, Nat.zero_le _⟩

variable {s : RingBuffer α}

theorem Valid.dropFront (h : s.Valid) : s.dropFront.Valid := by
  have hpos : 0 < s.size := Nat.zero_lt_of_lt h.head
  refine ⟨?_, ?_⟩
  · rw [size_dropFront]
    exact Nat.mod_lt _ hpos
  · rw [size_dropFront]
    exact (Nat.sub_le _ _).trans h.count

omit [Inhabited α] in
theorem Valid.putBack (h : s.Valid) (hroom : s.count < s.size) (r : α) : (s.putBack r).Valid := by
  refine ⟨?_, ?_⟩
  · rw [size_putBack]
    exact h.head
  · rw [size_putBack]
    exact hroom

/-- a full ring has room once its oldest entry is gone -/
theorem Valid.room (h : s.Valid) (hfull : s.count = s.size) : s.dropFront.count < s.dropFront.size := by
  have hpos : 0 < s.size := Nat.zero_lt_of_lt h.head
  rw [size_dropFront]
  show s.count - 1 < s.size
  omega

theorem Valid.push (h : s.Valid) (r : α) : (s.push r).Valid := by
  unfold RingBuffer.push
  split_ifs with hfull
  · exact h.dropFront.putBack (h.room hfull) r
  · exact h.putBack (lt_of_le_of_ne h.count hfull) r

/-! ## The two ends -/

omit [Inhabited α] in
/-- entries of one turn are in different slots -/
theorem slot_ne {i j : ℕ} (hij : i < j) (hj : j < s.size) : s.slot i ≠ s.slot j := by
  intro e
  have hdvd : s.size ∣ (s.head + j) - (s.head + i) := (Nat.modEq_iff_dvd' (by omega)).1 e
  have hle := Nat.le_of_dvd (by omega) hdvd
  omega

omit [Inhabited α] in
theorem slot_lt (h : s.Valid) (i : ℕ) : s.slot i < s.buf.length := Nat.mod_lt _ (Nat.zero_lt_of_lt h.head)

omit [Inhabited α] in
theorem slot_zero (h : s.Valid) : s.slot 0 = s.head := Nat.mod_eq_of_lt h.head

/-- moving the head on shifts the entries by one -/
theorem slot_dropFront (s : RingBuffer α) (i : ℕ) : s.dropFront.slot i = s.slot (i + 1) := by
  calc s.dropFront.slot i = ((s.head + 1) % s.size + i) % s.size := by rw [slot, size_dropFront]; rfl
    _ = (s.head + 1 + i) % s.size := Nat.mod_add_mod _ _ _
    _ = s.slot (i + 1) := by rw [slot, Nat.add_assoc, Nat.add_comm 1 i]

theorem get_dropFront (h : s.Valid) {i : ℕ} (hi : i + 1 < s.size) : s.dropFront.get i = s.get (i + 1) := by
  have hne : s.head ≠ s.slot (i + 1) := by
    rw [← slot_zero h]
    exact slot_ne (Nat.succ_pos i) hi
  rw [get, slot_dropFront, get]
  show (s.buf.set s.head default).getD (s.slot (i + 1)) default = _
  rw [List.getD_eq_getElem?_getD, List.getD_eq_getElem?_getD, List.getElem?_set_ne hne]

/-- **The oldest entry leaves at the front.** -/
theorem contents_dropFront (h : s.Valid) (hpos : 0 < s.count) : s.contents = s.front :: s.dropFront.contents := by
  obtain ⟨k, hk⟩ : ∃ k, s.count = k + 1 := ⟨s.count - 1, by omega⟩
  have hcount : s.dropFront.count = k := by
    show s.count - 1 = k
    omega
  have hfront : s.get 0 = s.front := by rw [get, slot_zero h, front]
  rw [contents, hk, List.range_succ_eq_map, List.map_cons, List.map_map, hfront, contents, hcount]
  refine congrArg (s.front :: ·) (List.map_congr_left fun i hi => ?_)
  have hlt := List.mem_range.1 hi
  have hle := h.count
  exact (get_dropFront h (by omega)).symm

theorem get_putBack (hroom : s.count < s.size) (r : α) {i : ℕ} (hi : i < s.count) :
    (s.putBack r).get i = s.get i := by
  have hslot : (s.putBack r).slot i = s.slot i := by rw [slot, size_putBack]; rfl
  rw [get, hslot, get]
  show (s.buf.set (s.slot s.count) r).getD (s.slot i) default = _
  rw [List.getD_eq_getElem?_getD, List.getD_eq_getElem?_getD, List.getElem?_set_ne (slot_ne hi hroom).symm]

/-- **A new entry is appended at the back.** -/
theorem contents_putBack (h : s.Valid) (hroom : s.count < s.size) (r : α) :
    (s.putBack r).contents = s.contents ++ [r] := by
  have hslot : (s.putBack r).slot s.count = s.slot s.count := by rw [slot, size_putBack]; rfl
  have hlast : (s.putBack r).get s.count = r := by
    rw [get, hslot]
    show (s.buf.set (s.slot s.count) r).getD (s.slot s.count) default = r
    rw [List.getD_eq_getElem?_getD, List.getElem?_set_self (slot_lt h _)]
    rfl
  calc (s.putBack r).contents = (List.range s.count).map (s.putBack r).get ++ [(s.putBack r).get s.count] := by
        rw [contents, ← List.map_singleton, ← List.map_append, ← List.range_succ]
        rfl
    _ = s.contents ++ [r] := by
        rw [hlast, contents]
        congr 1
        exact List.map_congr_left fun i hi => get_putBack hroom r (List.mem_range.1 hi)

/-- **`push` is the drop-oldest append.** -/
theorem contents_push (h : s.Valid) (r : α) : (s.push r).contents = dropOldest s.size s.contents r := by
  unfold push dropOldest
  rw [length_contents]
  split_ifs with hfull
  · have hpos : 0 < s.count := by
      rw [hfull]
      exact Nat.zero_lt_of_lt h.head
    rw [contents_putBack h.dropFront (h.room hfull), contents_dropFront h hpos, List.tail_cons]
  · exact contents_putBack h (lt_of_le_of_ne h.count hfull) r

end RingBuffer
