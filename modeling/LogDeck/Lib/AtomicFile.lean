/-
Files that are replaced as a whole.

A writer puts the new content into a temporary file beside its target and renames that onto the target. It can fail at
every system call, and its process can die at every one. A write that fails or is cut short leaves anything in the
temporary file; the rename is atomic. The file system itself survives: this is about a process that dies, not about a
machine that loses power.

Results:
- `replace_failed`, `replace_acknowledged`: a writer that gets an answer has replaced the target exactly if the answer
  is yes;
- `load_replace`: what is read afterwards is the old content or the new one, whatever happened to the writer.
-/
import Mathlib.Data.Option.Basic

namespace AtomicFile

variable {B V : Type*}

/-- the contents of a target and of the temporary file beside it; none for a file that does not exist -/
structure Files (B : Type*) where
  target : Option B
  temp : Option B
deriving DecidableEq, Repr

/-- how a replacement goes; `left` is what is found in the temporary file afterwards -/
inductive Fate (B : Type*) where
  | done
  /-- the directory cannot be made: the temporary file is not touched -/
  | noDirectory
  /-- the write fails, and the removal of the temporary file fails or not -/
  | writeFails (left : Option B)
  | renameFails (left : Option B)
  /-- the process dies before the rename -/
  | diesBefore (left : Option B)
  /-- the process dies after the rename, before anybody learns of it -/
  | diesAfter
deriving DecidableEq, Repr

inductive Answer where
  | acknowledged
  | failed
  /-- nobody is left to hear an answer -/
  | died
deriving DecidableEq, Repr

/-- the rename took place -/
def Fate.renames : Fate B → Bool
  | .done | .diesAfter => true
  | .noDirectory | .writeFails _ | .renameFails _ | .diesBefore _ => false

def replace (files : Files B) (data : B) : Fate B → Files B × Answer
  | .done => ({ target := some data, temp := none }, .acknowledged)
  | .noDirectory => (files, .failed)
  | .writeFails left => ({ files with temp := left }, .failed)
  | .renameFails left => ({ files with temp := left }, .failed)
  | .diesBefore left => ({ files with temp := left }, .died)
  | .diesAfter => ({ target := some data, temp := none }, .died)

variable {files : Files B} {data : B} {fate : Fate B}

theorem replace_target : (replace files data fate).1.target = if fate.renames then some data else files.target := by
  cases fate <;> rfl

theorem replace_acknowledged (h : (replace files data fate).2 = .acknowledged) : fate.renames = true := by
  cases fate <;> first | rfl | cases h

theorem replace_failed (h : (replace files data fate).2 = .failed) : fate.renames = false := by
  cases fate <;> first | rfl | cases h

/-- what is written can be read -/
structure Format (B V : Type*) where
  encode : V → B
  /-- none for what is no encoding -/
  decode : B → Option V
  decode_encode : ∀ v, decode (encode v) = some v

/-- a missing file reads as the given value; none for a file that does not parse -/
def Format.load (format : Format B V) (missing : V) (files : Files B) : Option V :=
  match files.target with
  | none => some missing
  | some data => format.decode data

/-- contents that are a whole value, or what is left of a write that was cut short -/
def wholeOrTorn : Format (Option V) V where
  encode := some
  decode := id
  decode_encode := fun _ => rfl

variable {format : Format B V} {missing v : V}

/-- **Atomicity.** After a replacement, whatever became of it, the file reads as the new value if the rename took place,
and as it read before if not. -/
theorem load_replace :
    format.load missing (replace files (format.encode v) fate).1 =
      if fate.renames then some v else format.load missing files := by
  unfold Format.load
  rw [replace_target]
  cases fate.renames with
  | true => simp only [if_true, format.decode_encode]
  | false => simp only [Bool.false_eq_true, if_false]

end AtomicFile
