/-
One command in a container (`docker/exec.go`: `RunExec`; `api/handlers.go`: `RunCommand`).

Without a TTY the engine serves the output as frames. `StdCopy` takes them apart, but it only gets the first 256 KiB of the
stream, and it ends without an error where the stream ends within a frame. What the engine answers, how its errors read and
what the context does are parameters.

Results:
- `take_framed`: the first bytes of a framed stream are the frames that end within them, and at most a part of another;
- `runExec_framed`: what `RunExec` returns;
- `command_output`: what the answer has of the output, and when there is one.
-/
import LogDeck.Docker.Decode
import LogDeck.Models.Logs

namespace LogDeck.Docker

open LogDeck.LogStore (Stream)
open LogDeck.Models (trimSpace)

/-! ## Model -/

/-- 256 KiB -/
def maxExecOutput : ℕ := 256 * 1024

/-- the engine of a host, for one call of `RunExec` -/
structure ExecEngine where
  containerExecCreate : String → List String → Except String String
  /-- all that the stream will bring -/
  containerExecAttach : String → Except String Bytes
  containerExecInspect : String → Except String ℤ
  /-- the context is done before the copy is -/
  cancelled : Option String
  /-- the text of the error of the copy -/
  copyErr : String

structure ExecResult where
  stdout : Bytes
  stderr : Bytes
  exitCode : ℤ
deriving DecidableEq, Repr

section
variable (stdCopy : Copy) (clients : String → Option ExecEngine)

def getClient (host : String) : Except String ExecEngine :=
  match clients host with
  | none => .error ("host " ++ host ++ " not found")
  | some cli => .ok cli

def runExec (host containerID : String) (cmd : List String) : Except String ExecResult := do
  let cli ← getClient clients host
  let created ← (cli.containerExecCreate containerID cmd).mapError ("failed to create exec: " ++ ·)
  let reader ← (cli.containerExecAttach created).mapError ("failed to attach to exec: " ++ ·)
  match cli.cancelled with
  | some err => .error err
  | none =>
    let copied := stdCopy (reader.take maxExecOutput)
    if copied.2 then .error ("failed to read exec output: " ++ cli.copyErr)
    else do
      let exitCode ← (cli.containerExecInspect created).mapError ("failed to inspect exec: " ++ ·)
      .ok ⟨LineWriter.written .stdout copied.1, LineWriter.written .stderr copied.1, exitCode⟩

inductive CommandResponse where
  | error (status : ℕ) (text : String)
  | json (result : ExecResult)
deriving DecidableEq, Repr

/-- `body` is the command of the request, if it can be decoded -/
def runCommand (host id : String) (body : Option String) : CommandResponse :=
  if host = "" then .error 400 "host parameter is required"
  else
    match body with
    | none => .error 400 "invalid request body"
    | some command =>
      if trimSpace command = "" then .error 400 "command is required"
      else
        match runExec stdCopy clients host id ["/bin/sh", "-c", command] with
        | .error err => .error 500 err
        | .ok result => .json result

end

/-! ## The first bytes of a framed stream -/

/-- how long frames are on the wire -/
def encodedLength (frames : List Frame) : ℕ := (frames.map fun f => f.encode.length).sum

/-- the frames that end within the first `cap` bytes -/
def within : ℕ → List Frame → List Frame
  | _, [] => []
  | cap, f :: frames => if f.encode.length ≤ cap then f :: within (cap - f.encode.length) frames else []

@[simp] theorem encodedLength_cons (f : Frame) (frames : List Frame) :
    encodedLength (f :: frames) = f.encode.length + encodedLength frames := by simp [encodedLength]

theorem encodedLength_append (frames frames' : List Frame) :
    encodedLength (frames ++ frames') = encodedLength frames + encodedLength frames' := by simp [encodedLength]

theorem within_isPrefix (cap : ℕ) (frames : List Frame) : within cap frames <+: frames := by
  induction frames generalizing cap with
  | nil => exact List.prefix_rfl
  | cons f frames ih =>
    simp only [within]
    split
    · exact (List.prefix_cons_inj f).2 (ih (cap - f.encode.length))
    · exact List.nil_prefix

theorem within_fits (cap : ℕ) (frames : List Frame) : encodedLength (within cap frames) ≤ cap := by
  induction frames generalizing cap with
  | nil => exact Nat.zero_le _
  | cons f frames ih =>
    simp only [within]
    split
    · have hrest := ih (cap - f.encode.length)
      rw [encodedLength_cons]
      omega
    · exact Nat.zero_le _

/-- only a frame that does not fit is left out, with what follows it -/
theorem within_longest (cap : ℕ) (frames : List Frame) :
    within cap frames = frames ∨
      ∃ f rest, frames = within cap frames ++ f :: rest ∧ cap < encodedLength (within cap frames) + f.encode.length := by
  induction frames generalizing cap with
  | nil => exact .inl rfl
  | cons f frames ih =>
    simp only [within]
    split
    · rename_i hfits
      rcases ih (cap - f.encode.length) with hall | ⟨g, rest, hframes, hlong⟩
      · exact .inl (by rw [hall])
      · refine .inr ⟨g, rest, ?_, ?_⟩
        · rw [List.cons_append, ← hframes]
        · rw [encodedLength_cons]
          omega
    · rename_i hlong
      exact .inr ⟨f, frames, rfl, by simp [encodedLength]; omega⟩

/-- **Truncation.** The first `cap` bytes of a framed stream are a framed stream again. -/
theorem take_framed (cap : ℕ) (frames : List Frame) (cut : Option CutFrame) :
    ∃ cut', (Served.framed frames cut).chunks.flatten.take cap =
      (Served.framed (within cap frames) cut').chunks.flatten := by
  induction frames generalizing cap with
  | nil =>
    cases cut with
    | none => exact ⟨none, by simp [Served.chunks, within]⟩
    | some c =>
      have hkept : min cap c.kept < c.frame.encode.length := (Nat.min_le_right _ _).trans_lt c.lacks
      refine ⟨some ⟨c.frame, min cap c.kept, hkept⟩, ?_⟩
      simp [Served.chunks, within, CutFrame.encode, List.take_take]
  | cons f frames ih =>
    have hcons : ∀ (frames : List Frame) (cut : Option CutFrame),
        (Served.framed (f :: frames) cut).chunks.flatten = f.encode ++ (Served.framed frames cut).chunks.flatten :=
      fun _ _ => rfl
    simp only [within]
    split
    · rename_i hfits
      obtain ⟨cut', hrest⟩ := ih (cap - f.encode.length)
      exact ⟨cut', by rw [hcons, List.take_append, List.take_of_length_le hfits, hrest, hcons]⟩
    · rename_i hlong
      have hcap : cap < f.encode.length := by omega
      refine ⟨some ⟨f, cap, hcap⟩, ?_⟩
      rw [hcons, List.take_append_of_le_length hcap.le]
      simp [Served.chunks, CutFrame.encode]

/-! ## The output of a command -/

section
variable {stdCopy : Copy} {clients : String → Option ExecEngine} {cli : ExecEngine} {host id execID command : String}
  {cmd : List String} {frames : List Frame} {cut : Option CutFrame} {code : ℤ}

/-- the copy succeeds when no error of the engine is among the frames that it gets -/
theorem copy_within (h : IsStdCopy stdCopy) (cap : ℕ) (frames : List Frame) (cut : Option CutFrame) :
    ((stdCopy ((Served.framed frames cut).chunks.flatten.take cap)).2 = true ↔
        ∃ f ∈ within cap frames, f.kind = .systemerr) ∧
      ((∀ f ∈ within cap frames, f.kind ≠ .systemerr) → ∀ stream,
        LineWriter.written stream (stdCopy ((Served.framed frames cut).chunks.flatten.take cap)).1 =
          payloads stream (within cap frames)) := by
  obtain ⟨cut', htake⟩ := take_framed cap frames cut
  rw [htake, h.copy_frames]
  constructor
  · simp
  · intro hall stream
    have hwhole : (within cap frames).takeWhile (fun f => f.kind ≠ .systemerr) = within cap frames :=
      List.takeWhile_eq_self_iff.2 fun f hf => by simpa using hall f hf
    rw [hwhole, payloads_eq]

theorem runExec_framed (h : IsStdCopy stdCopy) (hclient : clients host = some cli)
    (hcreate : cli.containerExecCreate id cmd = .ok execID)
    (hattach : cli.containerExecAttach execID = .ok (Served.framed frames cut).chunks.flatten)
    (hinspect : cli.containerExecInspect execID = .ok code) (result : ExecResult) :
    runExec stdCopy clients host id cmd = .ok result ↔
      cli.cancelled = none ∧ (∀ f ∈ within maxExecOutput frames, f.kind ≠ .systemerr) ∧
        result = ⟨payloads .stdout (within maxExecOutput frames), payloads .stderr (within maxExecOutput frames), code⟩ := by
  obtain ⟨hfails, hwritten⟩ := copy_within h maxExecOutput frames cut
  have hrun : runExec stdCopy clients host id cmd =
      match cli.cancelled with
      | some err => .error err
      | none =>
        if (stdCopy ((Served.framed frames cut).chunks.flatten.take maxExecOutput)).2 then
          .error ("failed to read exec output: " ++ cli.copyErr)
        else
          .ok ⟨LineWriter.written .stdout (stdCopy ((Served.framed frames cut).chunks.flatten.take maxExecOutput)).1,
            LineWriter.written .stderr (stdCopy ((Served.framed frames cut).chunks.flatten.take maxExecOutput)).1, code⟩ := by
    simp only [runExec, getClient, hclient, hcreate, hattach, hinspect, Except.mapError, bind, Except.bind]
  rw [hrun]
  cases cli.cancelled with
  | some err => simp
  | none =>
    dsimp only
    split
    · rename_i hcopy
      obtain ⟨f, hf, hkind⟩ := hfails.1 hcopy
      simp only [reduceCtorEq, true_and, false_iff]
      exact fun hall => hall.1 f hf hkind
    · rename_i hcopy
      have hnone : ∀ f ∈ within maxExecOutput frames, f.kind ≠ .systemerr := by
        intro f hf hkind
        exact hcopy (hfails.2 ⟨f, hf, hkind⟩)
      rw [hwritten hnone, hwritten hnone, Except.ok.injEq]
      exact ⟨fun heq => ⟨rfl, hnone, heq.symm⟩, fun heq => heq.2.2.symm⟩

/-- **The output of a command.** When the engine answers, a command is answered with an output exactly when it is not blank,
ends in time and no error of the engine is among the frames that end within the first 256 KiB. The output is the payload of
these frames, taken apart into the two streams: all of it when the frames fit, and else up to the same frame on both, the
first that did not fit. -/
theorem command_output (h : IsStdCopy stdCopy) (hhost : host ≠ "") (hclient : clients host = some cli)
    (hcreate : cli.containerExecCreate id ["/bin/sh", "-c", command] = .ok execID)
    (hattach : cli.containerExecAttach execID = .ok (Served.framed frames cut).chunks.flatten)
    (hinspect : cli.containerExecInspect execID = .ok code) :
    ∃ whole, whole <+: frames ∧ encodedLength whole ≤ maxExecOutput ∧
      (whole = frames ∨
        ∃ f rest, frames = whole ++ f :: rest ∧ maxExecOutput < encodedLength whole + f.encode.length) ∧
      ∀ result, runCommand stdCopy clients host id (some command) = .json result ↔
        trimSpace command ≠ "" ∧ cli.cancelled = none ∧ (∀ f ∈ whole, f.kind ≠ .systemerr) ∧
          result = ⟨payloads .stdout whole, payloads .stderr whole, code⟩ := by
  refine ⟨within maxExecOutput frames, within_isPrefix _ _, within_fits _ _, within_longest _ _, fun result => ?_⟩
  have hrun := runExec_framed h hclient hcreate hattach hinspect result
  simp only [runCommand, if_neg hhost]
  by_cases hblank : trimSpace command = ""
  · simp [hblank]
  · rw [if_neg hblank, ← hrun]
    cases runExec stdCopy clients host id ["/bin/sh", "-c", command] with
    | error err => simp
    | ok out => simp [hblank]

end

/-- a line on each stream -/
def lsFrames : List Frame := [⟨.stdout, [97, 10], by decide⟩, ⟨.stderr, [98, 10], by decide⟩]

def lsEngine : ExecEngine where
  containerExecCreate _ _ := .ok "e1"
  containerExecAttach _ := .ok (Served.framed lsFrames none).chunks.flatten
  containerExecInspect _ := .ok 2
  cancelled := none
  copyErr := "EOF"

theorem command_output_ls :
    runCommand (fun logs => demultiplex logs.length logs) (fun _ => some lsEngine) "local" "web" (some "ls") =
      .json ⟨[97, 10], [98, 10], 2⟩ := by
  obtain ⟨whole, -, -, hwhole, hresult⟩ := @command_output _ (fun _ => some lsEngine) lsEngine "local" "web" "e1" "ls"
    lsFrames none 2 isStdCopy_demultiplex (by decide) rfl rfl rfl rfl
  rcases hwhole with rfl | ⟨f, rest, hframes, hlong⟩
  · exact (hresult _).2 ⟨by decide, rfl, by decide, rfl⟩
  · have hlength : encodedLength lsFrames = 20 := rfl
    have hcap : maxExecOutput = 262144 := rfl
    rw [hframes, encodedLength_append, encodedLength_cons] at hlength
    omega

end LogDeck.Docker
