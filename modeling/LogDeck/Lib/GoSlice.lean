/-
Go slices over a heap of backing arrays.

A slice is a window of an array that other slices may share; `append` writes into the array while it has room and moves
to a new array when it has none. Whether a change made through one slice shows in another depends on the arrays alone,
so the frame of a sequence of changes is stated on arrays:
- `Heap.Frame n h h'`: the arrays below n are the same in both heaps;
- `Slice.Fresh n h s`: s is a window of an array of h that is not below n.

Results:
- `steps_frame`: changes made through a fresh slice leave every array below n as it is, and the slice fresh;
- `read_clone`, `clone_frame`: a copy has the elements of the original and is fresh for everything allocated before it;
- `read_steps`: through a slice that is in bounds the changes are the list operations they are named after;
- `step_written`: what a change writes in place, cell by cell;
- `read_eq_iff`: another slice shows what it showed exactly when its cells were last written with what they held.
-/
import Mathlib.Data.List.Basic
import Mathlib.Data.List.Induction
import Mathlib.Data.List.InsertIdx
import Mathlib.Logic.Function.Basic
import Mathlib.Order.Lattice
import Mathlib.Order.Nat

namespace GoSlice

variable {α : Type}

/-- backing arrays by their address; the length of an array is its capacity -/
structure Heap (α : Type) where
  arrays : ℕ → List α
  next : ℕ

structure Slice where
  array : ℕ
  off : ℕ
  len : ℕ
deriving DecidableEq, Repr, Inhabited

/-- the elements from i on move one place to the left, the last one staying where it was -/
def shiftLeft (xs : List α) (i count : ℕ) : List α :=
  xs.take i ++ (xs.drop (i + 1)).take count ++ xs.drop (i + count)

namespace Heap

def empty : Heap α := { arrays := fun _ => [], next := 0 }

def alloc (h : Heap α) (contents : List α) : Heap α :=
  { arrays := Function.update h.arrays h.next contents, next := h.next + 1 }

def write (h : Heap α) (a i : ℕ) (v : α) : Heap α :=
  { h with arrays := Function.update h.arrays a ((h.arrays a).set i v) }

/-- the copying of `append(s[:i], s[i+1:]...)` -/
def shift (h : Heap α) (a i count : ℕ) : Heap α :=
  { h with arrays := Function.update h.arrays a (shiftLeft (h.arrays a) i count) }

/-- the elements a slice shows -/
def read (h : Heap α) (s : Slice) : List α := ((h.arrays s.array).drop s.off).take s.len

/-- every element as f shows it -/
def map {β : Type} (f : α → β) (h : Heap α) : Heap β := { arrays := fun a => (h.arrays a).map f, next := h.next }

theorem read_map {β : Type} (f : α → β) (h : Heap α) (s : Slice) : (h.map f).read s = (h.read s).map f := by
  simp [map, read, List.map_take, List.map_drop]

/-- the arrays below n are the same, and nothing that was allocated is gone -/
structure Frame (n : ℕ) (h h' : Heap α) : Prop where
  next_le : h.next ≤ h'.next
  same : ∀ a < n, h'.arrays a = h.arrays a

theorem Frame.rfl {n : ℕ} {h : Heap α} : Frame n h h := ⟨le_rfl, fun _ _ => Eq.refl _⟩

theorem Frame.trans {n : ℕ} {h h' h'' : Heap α} (h1 : Frame n h h') (h2 : Frame n h' h'') : Frame n h h'' :=
  ⟨h1.next_le.trans h2.next_le, fun a ha => (h2.same a ha).trans (h1.same a ha)⟩

theorem Frame.mono {m n : ℕ} {h h' : Heap α} (hf : Frame n h h') (hle : m ≤ n) : Frame m h h' :=
  ⟨hf.next_le, fun a ha => hf.same a (ha.trans_le hle)⟩

theorem Frame.read {n : ℕ} {h h' : Heap α} (hf : Frame n h h') {s : Slice} (hs : s.array < n) :
    h'.read s = h.read s := by
  unfold Heap.read
  rw [hf.same s.array hs]

theorem alloc_frame {n : ℕ} {h : Heap α} (hn : n ≤ h.next) (contents : List α) : Frame n h (h.alloc contents) := by
  refine ⟨Nat.le_succ _, fun a ha => ?_⟩
  exact Function.update_of_ne (by omega) _ _

theorem write_frame {n a : ℕ} (h : Heap α) (ha : n ≤ a) (i : ℕ) (v : α) : Frame n h (h.write a i v) := by
  refine ⟨le_rfl, fun b hb => ?_⟩
  exact Function.update_of_ne (by omega) _ _

theorem shift_frame {n a : ℕ} (h : Heap α) (ha : n ≤ a) (i count : ℕ) : Frame n h (h.shift a i count) := by
  refine ⟨le_rfl, fun b hb => ?_⟩
  exact Function.update_of_ne (by omega) _ _

@[simp] theorem alloc_next (h : Heap α) (contents : List α) : (h.alloc contents).next = h.next + 1 := rfl

@[simp] theorem alloc_self (h : Heap α) (contents : List α) : (h.alloc contents).arrays h.next = contents :=
  Function.update_self ..

@[simp] theorem write_self (h : Heap α) (a i : ℕ) (v : α) :
    (h.write a i v).arrays a = (h.arrays a).set i v := Function.update_self ..

@[simp] theorem shift_self (h : Heap α) (a i count : ℕ) :
    (h.shift a i count).arrays a = shiftLeft (h.arrays a) i count := Function.update_self ..

end Heap

namespace Slice

/-- the window lies inside an array that has been allocated -/
structure InBounds (h : Heap α) (s : Slice) : Prop where
  allocated : s.array < h.next
  fits : s.off + s.len ≤ (h.arrays s.array).length

/-- s shares no array with what was allocated below n -/
def Fresh (n : ℕ) (h : Heap α) (s : Slice) : Prop := n ≤ s.array ∧ s.array < h.next ∧ n ≤ h.next

theorem InBounds.length_read {h : Heap α} {s : Slice} (hs : s.InBounds h) : (h.read s).length = s.len := by
  have hfits := hs.fits
  simp only [Heap.read, List.length_take, List.length_drop]
  omega

theorem InBounds.map {β : Type} {h : Heap α} {s : Slice} (hs : s.InBounds h) (f : α → β) : s.InBounds (h.map f) :=
  ⟨hs.allocated, by simpa [Heap.map] using hs.fits⟩

theorem InBounds.frame {h h' : Heap α} {s : Slice} (hs : s.InBounds h) (hf : Heap.Frame h.next h h') :
    s.InBounds h' := by
  refine ⟨lt_of_lt_of_le hs.allocated hf.next_le, ?_⟩
  rw [hf.same s.array hs.allocated]
  exact hs.fits

end Slice

/-- `make` and `copy`: a new array with the elements of s -/
def clone (h : Heap α) (s : Slice) : Heap α × Slice :=
  (h.alloc (h.read s), { array := h.next, off := 0, len := (h.read s).length })

/-- a slice literal -/
def literal (h : Heap α) (contents : List α) : Heap α × Slice :=
  (h.alloc contents, { array := h.next, off := 0, len := contents.length })

/-- what a function does to a slice it was handed -/
inductive SliceStep (α : Type) where
  /-- `s[i] = v` -/
  | overwrite (i : ℕ) (v : α)
  /-- `s = append(s, v)`; a new array gets `spare` elements more than it needs -/
  | append (v : α) (spare : ℕ)
  /-- `s = append(s[:i], s[i+1:]...)` -/
  | remove (i : ℕ)
  /-- `s = s[i:j]` -/
  | reslice (i j : ℕ)
  /-- `s` is set to a new slice -/
  | replace (contents : List α)

section
variable [Inhabited α]

/-- one change; an index out of range changes nothing -/
def stepSlice : Heap α × Slice → SliceStep α → Heap α × Slice
  | (h, s), .overwrite i v => if i < s.len then (h.write s.array (s.off + i) v, s) else (h, s)
  | (h, s), .append v spare =>
    if s.off + s.len < (h.arrays s.array).length then
      (h.write s.array (s.off + s.len) v, { s with len := s.len + 1 })
    else
      (h.alloc (h.read s ++ v :: List.replicate spare default),
        { array := h.next, off := 0, len := (h.read s).length + 1 })
  | (h, s), .remove i =>
    if i < s.len then
      (h.shift s.array (s.off + i) (s.len - (i + 1)), { s with len := s.len - 1 })
    else (h, s)
  | (h, s), .reslice i j =>
    if i ≤ j ∧ j ≤ s.len then (h, { s with off := s.off + i, len := j - i }) else (h, s)
  | (h, _), .replace contents => literal h contents

def stepsSlice (hs : Heap α × Slice) (steps : List (SliceStep α)) : Heap α × Slice := steps.foldl stepSlice hs

theorem step_frame {n : ℕ} (hs : Heap α × Slice) (hfresh : hs.2.Fresh n hs.1) (o : SliceStep α) :
    Heap.Frame n hs.1 (stepSlice hs o).1 ∧ (stepSlice hs o).2.Fresh n (stepSlice hs o).1 := by
  obtain ⟨h, s⟩ := hs
  obtain ⟨hn, ha, hle⟩ := hfresh
  dsimp only at hn ha hle
  cases o with
  | overwrite i v =>
    by_cases hi : i < s.len
    · simp only [stepSlice, if_pos hi]
      exact ⟨Heap.write_frame h hn _ v, hn, ha, hle⟩
    · simp only [stepSlice, if_neg hi]
      exact ⟨Heap.Frame.rfl, hn, ha, hle⟩
  | append v spare =>
    by_cases hroom : s.off + s.len < (h.arrays s.array).length
    · simp only [stepSlice, if_pos hroom]
      exact ⟨Heap.write_frame h hn _ v, hn, ha, hle⟩
    · simp only [stepSlice, if_neg hroom]
      refine ⟨Heap.alloc_frame hle _, hle, ?_, ?_⟩ <;> simp only [Heap.alloc_next] <;> omega
  | remove i =>
    by_cases hi : i < s.len
    · simp only [stepSlice, if_pos hi]
      exact ⟨Heap.shift_frame h hn _ _, hn, ha, hle⟩
    · simp only [stepSlice, if_neg hi]
      exact ⟨Heap.Frame.rfl, hn, ha, hle⟩
  | reslice i j =>
    by_cases hij : i ≤ j ∧ j ≤ s.len
    · simp only [stepSlice, if_pos hij]
      exact ⟨Heap.Frame.rfl, hn, ha, hle⟩
    · simp only [stepSlice, if_neg hij]
      exact ⟨Heap.Frame.rfl, hn, ha, hle⟩
  | replace contents =>
    refine ⟨Heap.alloc_frame hle _, hle, ?_, ?_⟩ <;> simp only [stepSlice, literal, Heap.alloc_next] <;> omega

/-- **Frame.** Whatever is done through a slice that shares no array below n, those arrays stay as they are. -/
theorem steps_frame {n : ℕ} (hs : Heap α × Slice) (hfresh : hs.2.Fresh n hs.1) (steps : List (SliceStep α)) :
    Heap.Frame n hs.1 (stepsSlice hs steps).1 ∧ (stepsSlice hs steps).2.Fresh n (stepsSlice hs steps).1 := by
  induction steps generalizing hs with
  | nil => exact ⟨Heap.Frame.rfl, hfresh⟩
  | cons o steps ih =>
    obtain ⟨hf, hfresh'⟩ := step_frame hs hfresh o
    obtain ⟨hf', hfresh''⟩ := ih _ hfresh'
    exact ⟨hf.trans hf', hfresh''⟩

end

theorem literal_frame (h : Heap α) (contents : List α) :
    Heap.Frame h.next h (literal h contents).1 ∧ (literal h contents).2.Fresh h.next (literal h contents).1 := by
  refine ⟨Heap.alloc_frame le_rfl _, le_rfl, ?_, ?_⟩ <;> simp only [literal, Heap.alloc_next] <;> omega

theorem clone_frame (h : Heap α) (s : Slice) :
    Heap.Frame h.next h (clone h s).1 ∧ (clone h s).2.Fresh h.next (clone h s).1 := literal_frame h (h.read s)

@[simp] theorem read_literal (h : Heap α) (contents : List α) :
    (literal h contents).1.read (literal h contents).2 = contents := by
  simp [literal, Heap.read]

/-- a copy shows the elements of the original -/
@[simp] theorem read_clone (h : Heap α) (s : Slice) : (clone h s).1.read (clone h s).2 = h.read s :=
  read_literal h (h.read s)

theorem literal_inBounds (h : Heap α) (contents : List α) : (literal h contents).2.InBounds (literal h contents).1 := by
  refine ⟨Nat.lt_succ_self _, ?_⟩
  simp [literal]

theorem clone_inBounds (h : Heap α) (s : Slice) : (clone h s).2.InBounds (clone h s).1 := literal_inBounds h _

/-- the elements that a change brings -/
def SliceStep.values : SliceStep α → List α
  | .overwrite _ v => [v]
  | .append v _ => [v]
  | .remove _ => []
  | .reslice _ _ => []
  | .replace contents => contents

def SliceStep.map {β : Type} (f : α → β) : SliceStep α → SliceStep β
  | .overwrite i v => .overwrite i (f v)
  | .append v spare => .append (f v) spare
  | .remove i => .remove i
  | .reslice i j => .reslice i j
  | .replace contents => .replace (contents.map f)

/-- the list operation a change is named after -/
def stepList (xs : List α) : SliceStep α → List α
  | .overwrite i v => xs.set i v
  | .append v _ => xs ++ [v]
  | .remove i => xs.eraseIdx i
  | .reslice i j => if i ≤ j ∧ j ≤ xs.length then (xs.take j).drop i else xs
  | .replace contents => contents

theorem map_stepList {β : Type} (f : α → β) (xs : List α) (o : SliceStep α) :
    (stepList xs o).map f = stepList (xs.map f) (o.map f) := by
  cases o with
  | overwrite i v => exact List.map_set
  | append v spare => exact List.map_append
  | remove i => exact (List.eraseIdx_map f xs i).symm
  | reslice i j =>
    simp only [stepList, SliceStep.map, List.length_map]
    split_ifs
    · rw [List.map_drop, List.map_take]
    · rfl
  | replace contents => rfl

theorem mem_stepList {x : α} {xs : List α} {o : SliceStep α} (h : x ∈ stepList xs o) : x ∈ xs ∨ x ∈ o.values := by
  cases o with
  | overwrite i v => exact (List.mem_or_eq_of_mem_set h).imp_right List.mem_singleton.2
  | append v spare => exact List.mem_append.1 h
  | remove i => exact .inl (List.mem_of_mem_eraseIdx h)
  | reslice i j =>
    simp only [stepList] at h
    split_ifs at h
    · exact .inl (List.mem_of_mem_take (List.mem_of_mem_drop h))
    · exact .inl h
  | replace contents => exact .inr h

/-- `next := xs[:0]` and an append for every element that stays -/
def keepInPlace (keep : α → Bool) (xs : List α) : List (SliceStep α) :=
  .reslice 0 0 :: (xs.filter keep).map fun x => .append x 0

theorem foldl_append_steps {xs ys : List α} : (xs.map fun x => SliceStep.append x 0).foldl stepList ys = ys ++ xs := by
  induction xs generalizing ys with
  | nil => simp
  | cons x xs ih => simp [stepList, ih]

/-- the filter in place keeps what is kept -/
theorem foldl_keepInPlace (keep : α → Bool) (xs : List α) : (keepInPlace keep xs).foldl stepList xs = xs.filter keep := by
  simp only [keepInPlace, List.foldl_cons]
  rw [foldl_append_steps]
  simp [stepList]

theorem getElem?_shiftLeft (xs : List α) (i count k : ℕ) (hfits : i + count < xs.length) :
    (shiftLeft xs i count)[k]? = if i ≤ k ∧ k < i + count then xs[k + 1]? else xs[k]? := by
  unfold shiftLeft
  grind

theorem getElem?_read (h : Heap α) (s : Slice) (k : ℕ) :
    (h.read s)[k]? = if k < s.len then (h.arrays s.array)[s.off + k]? else none := by
  unfold Heap.read
  grind

section
variable [Inhabited α]

theorem step_read (hs : Heap α × Slice) (hb : hs.2.InBounds hs.1) (o : SliceStep α) :
    (stepSlice hs o).2.InBounds (stepSlice hs o).1 ∧
      (stepSlice hs o).1.read (stepSlice hs o).2 = stepList (hs.1.read hs.2) o := by
  obtain ⟨h, s⟩ := hs
  have hlen := hb.length_read
  obtain ⟨halloc, hfits⟩ := hb
  dsimp only at halloc hfits hlen
  cases o with
  | overwrite i v =>
    by_cases hi : i < s.len
    · simp only [stepSlice, if_pos hi, stepList]
      refine ⟨⟨halloc, by simpa using hfits⟩, List.ext_getElem? fun k => ?_⟩
      rw [getElem?_read, Heap.write_self, List.getElem?_set, List.getElem?_set, getElem?_read]
      grind
    · simp only [stepSlice, if_neg hi, stepList]
      exact ⟨⟨halloc, hfits⟩, (List.set_eq_of_length_le (by omega)).symm⟩
  | append v spare =>
    by_cases hroom : s.off + s.len < (h.arrays s.array).length
    · simp only [stepSlice, if_pos hroom, stepList]
      refine ⟨⟨halloc, by simp; omega⟩, List.ext_getElem? fun k => ?_⟩
      rw [getElem?_read, Heap.write_self, List.getElem?_set, List.getElem?_append, getElem?_read]
      grind
    · simp only [stepSlice, if_neg hroom, stepList]
      refine ⟨⟨Nat.lt_succ_self _, by simp⟩, List.ext_getElem? fun k => ?_⟩
      rw [getElem?_read, Heap.alloc_self, Nat.zero_add, List.getElem?_append, List.getElem?_append]
      grind
  | remove i =>
    by_cases hi : i < s.len
    · simp only [stepSlice, if_pos hi, stepList]
      refine ⟨⟨halloc, ?_⟩, List.ext_getElem? fun k => ?_⟩
      · simp [shiftLeft]; omega
      · rw [getElem?_read, Heap.shift_self, getElem?_shiftLeft _ _ _ _ (by omega), List.getElem?_eraseIdx,
          getElem?_read, getElem?_read]
        grind
    · simp only [stepSlice, if_neg hi, stepList]
      exact ⟨⟨halloc, hfits⟩, (List.eraseIdx_of_length_le (by omega)).symm⟩
  | reslice i j =>
    by_cases hij : i ≤ j ∧ j ≤ s.len
    · simp only [stepSlice, if_pos hij, stepList, hlen]
      refine ⟨⟨halloc, by dsimp only; omega⟩, List.ext_getElem? fun k => ?_⟩
      rw [getElem?_read, List.getElem?_drop, List.getElem?_take, getElem?_read]
      grind
    · simp only [stepSlice, if_neg hij, stepList, hlen]
      exact ⟨⟨halloc, hfits⟩, trivial⟩
  | replace contents => exact ⟨literal_inBounds h contents, read_literal h contents⟩

/-- **Lists.** Through a slice in bounds every sequence of changes does what the list operations do. -/
theorem read_steps (hs : Heap α × Slice) (hb : hs.2.InBounds hs.1) (steps : List (SliceStep α)) :
    (stepsSlice hs steps).2.InBounds (stepsSlice hs steps).1 ∧
      (stepsSlice hs steps).1.read (stepsSlice hs steps).2 = steps.foldl stepList (hs.1.read hs.2) := by
  induction steps generalizing hs with
  | nil => exact ⟨hb, rfl⟩
  | cons o steps ih =>
    obtain ⟨hb', hread⟩ := step_read hs hb o
    obtain ⟨hb'', hread'⟩ := ih _ hb'
    refine ⟨hb'', ?_⟩
    calc (stepsSlice (stepSlice hs o) steps).1.read (stepsSlice (stepSlice hs o) steps).2
        = steps.foldl stepList ((stepSlice hs o).1.read (stepSlice hs o).2) := hread'
      _ = steps.foldl stepList (stepList (hs.1.read hs.2) o) := by rw [hread]

end

/-! ## What a change writes -/

/-- a place in an array -/
abbrev Cell := ℕ × ℕ

/-- what is written in place, in order -/
def writes : Heap α × Slice → SliceStep α → List (Cell × α)
  | (_, s), .overwrite i v => if i < s.len then [((s.array, s.off + i), v)] else []
  | (h, s), .append v _ => if s.off + s.len < (h.arrays s.array).length then [((s.array, s.off + s.len), v)] else []
  | (h, s), .remove i =>
    if i < s.len then ((h.read s).drop (i + 1)).mapIdx fun k v => ((s.array, s.off + i + k), v) else []
  | _, .reslice _ _ => []
  | _, .replace _ => []

/-- what a cell was last written with -/
def lastWritten (ws : List (Cell × α)) (c : Cell) : Option α := (ws.reverse.find? fun w => w.1 = c).map Prod.snd

/-- from h to h' nothing but ws was written into the arrays of h -/
structure Written (h h' : Heap α) (ws : List (Cell × α)) : Prop where
  next_le : h.next ≤ h'.next
  length : ∀ a < h.next, (h'.arrays a).length = (h.arrays a).length
  cell : ∀ a < h.next, ∀ i, (h'.arrays a)[i]? = (lastWritten ws (a, i)).or (h.arrays a)[i]?

theorem lastWritten_append (ws ws' : List (Cell × α)) (c : Cell) :
    lastWritten (ws ++ ws') c = (lastWritten ws' c).or (lastWritten ws c) := by
  unfold lastWritten
  rw [List.reverse_append, List.find?_append]
  cases ws'.reverse.find? fun w => w.1 = c <;> rfl

theorem Written.rfl {h : Heap α} : Written h h [] := ⟨le_rfl, fun _ _ => Eq.refl _, fun _ _ _ => Eq.refl _⟩

theorem Written.trans {h h' h'' : Heap α} {ws ws' : List (Cell × α)} (h1 : Written h h' ws) (h2 : Written h' h'' ws') :
    Written h h'' (ws ++ ws') := by
  refine ⟨h1.next_le.trans h2.next_le, fun a ha => ?_, fun a ha i => ?_⟩
  · rw [h2.length a (ha.trans_le h1.next_le), h1.length a ha]
  · rw [h2.cell a (ha.trans_le h1.next_le) i, h1.cell a ha i, lastWritten_append, Option.or_assoc]

/-- an allocation writes nothing -/
theorem Heap.Frame.written {h h' : Heap α} (hf : Frame h.next h h') : Written h h' [] := by
  refine ⟨hf.next_le, fun a ha => ?_, fun a ha i => ?_⟩
  · rw [hf.same a ha]
  · rw [hf.same a ha]
    rfl

theorem write_written (h : Heap α) {a i : ℕ} (hi : i < (h.arrays a).length) (v : α) :
    Written h (h.write a i v) [((a, i), v)] := by
  refine ⟨le_rfl, fun b _ => ?_, fun b _ k => ?_⟩
  · by_cases hb : b = a
    · subst hb
      rw [Heap.write_self, List.length_set]
    · exact congrArg List.length (Function.update_of_ne hb _ _)
  · by_cases hb : b = a
    · subst hb
      rw [Heap.write_self, List.getElem?_set]
      by_cases hk : i = k
      · subst hk
        simp [lastWritten, hi]
      · simp [lastWritten, hk]
    · have hother : (h.write a i v).arrays b = h.arrays b := Function.update_of_ne hb _ _
      rw [hother]
      have hnone : lastWritten [((a, i), v)] (b, k) = none := by simp [lastWritten, Ne.symm hb]
      rw [hnone]
      rfl

/-- of writes to the places after one another each is found -/
theorem lastWritten_mapIdx (xs : List α) (a off k : ℕ) :
    lastWritten (xs.mapIdx fun j v => ((a, off + j), v)) (a, k) = if off ≤ k then xs[k - off]? else none := by
  induction xs using List.reverseRecOn with
  | nil => simp [lastWritten]
  | append_singleton xs x ih =>
    rw [List.mapIdx_append, lastWritten_append, ih]
    by_cases hk : k = off + xs.length
    · subst hk
      simp [lastWritten]
    · have hnone : lastWritten (([x]).mapIdx fun j v => ((a, off + (j + xs.length)), v)) (a, k) = none := by
        simp [lastWritten]
        omega
      rw [hnone, Option.none_or]
      split_ifs with hle
      · rw [List.getElem?_append]
        split_ifs with hlt
        · rfl
        · rw [List.getElem?_eq_none (by omega), List.getElem?_eq_none (by simp; omega)]
      · rfl

theorem lastWritten_mapIdx_other (xs : List α) {a b : ℕ} (hb : b ≠ a) (off k : ℕ) :
    lastWritten (xs.mapIdx fun j v => ((a, off + j), v)) (b, k) = none := by
  have hnone : (xs.mapIdx fun j v => (((a, off + j), v) : Cell × α)).reverse.find? (fun w => w.1 = (b, k)) = none := by
    rw [List.find?_eq_none]
    intro w hw
    obtain ⟨j, _, rfl⟩ := List.mem_mapIdx.1 (List.mem_reverse.1 hw)
    simp [Ne.symm hb]
  unfold lastWritten
  rw [hnone]
  rfl

theorem shift_written (h : Heap α) {s : Slice} (hb : s.InBounds h) {i : ℕ} (hi : i < s.len) :
    Written h (h.shift s.array (s.off + i) (s.len - (i + 1)))
      (((h.read s).drop (i + 1)).mapIdx fun k v => ((s.array, s.off + i + k), v)) := by
  have hfits := hb.fits
  refine ⟨le_rfl, fun b _ => ?_, fun b _ k => ?_⟩
  · by_cases hb : b = s.array
    · subst hb
      rw [Heap.shift_self]
      simp [shiftLeft]
      omega
    · exact congrArg List.length (Function.update_of_ne hb _ _)
  · by_cases hb : b = s.array
    · subst hb
      rw [Heap.shift_self, getElem?_shiftLeft _ _ _ _ (by omega), lastWritten_mapIdx]
      simp only [List.getElem?_drop, getElem?_read]
      grind
    · have hother : (h.shift s.array (s.off + i) (s.len - (i + 1))).arrays b = h.arrays b :=
        Function.update_of_ne hb _ _
      rw [hother, lastWritten_mapIdx_other _ hb]
      rfl

section
variable [Inhabited α]

/-- **Writes.** A change writes into the arrays there are what `writes` lists, and nothing else. -/
theorem step_written (hs : Heap α × Slice) (hb : hs.2.InBounds hs.1) (o : SliceStep α) :
    Written hs.1 (stepSlice hs o).1 (writes hs o) := by
  obtain ⟨h, s⟩ := hs
  have hfits := hb.fits
  dsimp only at hfits
  cases o with
  | overwrite i v =>
    by_cases hi : i < s.len
    · simp only [stepSlice, writes, if_pos hi]
      exact write_written h (by omega) v
    · simp only [stepSlice, writes, if_neg hi]
      exact .rfl
  | append v spare =>
    by_cases hroom : s.off + s.len < (h.arrays s.array).length
    · simp only [stepSlice, writes, if_pos hroom]
      exact write_written h hroom v
    · simp only [stepSlice, writes, if_neg hroom]
      exact (Heap.alloc_frame le_rfl _).written
  | remove i =>
    by_cases hi : i < s.len
    · simp only [stepSlice, writes, if_pos hi]
      exact shift_written h hb hi
    · simp only [stepSlice, writes, if_neg hi]
      exact .rfl
  | reslice i j =>
    by_cases hij : i ≤ j ∧ j ≤ s.len
    · simp only [stepSlice, if_pos hij]
      exact .rfl
    · simp only [stepSlice, if_neg hij]
      exact .rfl
  | replace contents => exact (literal_frame h contents).1.written

end

theorem Slice.InBounds.written {h h' : Heap α} {ws : List (Cell × α)} {s : Slice} (hs : s.InBounds h)
    (hw : Written h h' ws) : s.InBounds h' := by
  refine ⟨hs.allocated.trans_le hw.next_le, ?_⟩
  rw [hw.length _ hs.allocated]
  exact hs.fits

/-- the writes leave nothing else in the cells that the slice shows -/
def Spared (h : Heap α) (s : Slice) (ws : List (Cell × α)) : Prop :=
  ∀ k < s.len, lastWritten ws (s.array, s.off + k) = none ∨ lastWritten ws (s.array, s.off + k) = (h.read s)[k]?

instance [DecidableEq α] (h : Heap α) (s : Slice) (ws : List (Cell × α)) : Decidable (Spared h s ws) :=
  inferInstanceAs (Decidable (∀ _, _ → _))

theorem Spared.nil (h : Heap α) (s : Slice) : Spared h s [] := fun _ _ => .inl rfl

/-- **Sharing.** A slice shows what it showed exactly when its cells were last written with what they held. -/
theorem read_eq_iff {h h' : Heap α} {ws : List (Cell × α)} {s : Slice} (hs : s.InBounds h) (hw : Written h h' ws) :
    h'.read s = h.read s ↔ Spared h s ws := by
  have hcells : ∀ k < s.len, (h'.read s)[k]? = (lastWritten ws (s.array, s.off + k)).or (h.read s)[k]? := by
    intro k hk
    rw [getElem?_read, getElem?_read, if_pos hk, if_pos hk, hw.cell _ hs.allocated]
  constructor
  · intro heq k hk
    have hcell := hcells k hk
    rw [heq] at hcell
    cases hv : lastWritten ws (s.array, s.off + k) with
    | none => exact .inl rfl
    | some v =>
      rw [hv, Option.some_or] at hcell
      exact .inr hcell.symm
  · intro hspared
    apply List.ext_getElem?
    intro k
    by_cases hk : k < s.len
    · rw [hcells k hk]
      rcases hspared k hk with hnone | hsame
      · rw [hnone, Option.none_or]
      · rw [hsame, Option.or_self]
    · rw [getElem?_read, getElem?_read, if_neg hk, if_neg hk]

end GoSlice
