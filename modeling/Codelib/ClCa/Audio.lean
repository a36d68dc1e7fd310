import Mathlib.Algebra.Group.Nat.Defs
import Mathlib.Data.List.TakeDrop
import Codelib.Core.Run

/-!
# Codelib.ClCa.Audio

The player of `c/cl_ca/audio.c` on its audio queue, and **what is heard of a file** (`playback`).

When the queue starts, the listener fills three buffers and counts packets in `mCurrentPacket`. The
callback that fills a buffer again counts them in `currentPacket`, which is still zero then. So the
beginning of the file is heard twice.

The queue plays its buffers in the order in which they were enqueued, hands each to the callback when
it has been played, and tells the listener when it begins and ceases to run. It does not take an empty
buffer. `mDone` is never set.
-/

namespace Codelib.ClCa

/-- An audio file all of whose packets have the same size. -/
structure AudioFile (P : Type) where
  packets : List P
  mBytesPerPacket : Nat
  pos : 0 < mBytesPerPacket

variable {P : Type}

def bufferSizeInSamples : Nat := 441

/-- `AudioFileReadPacketData`: the bytes and the packets that were read. -/
def AudioFile.readPacketData (file : AudioFile P) (ioNumBytes inStartingPacket ioNumPackets : Nat) :
    Nat × List P :=
  let packets := (file.packets.drop inStartingPacket).take
    (min ioNumPackets (ioNumBytes / file.mBytesPerPacket))
  (packets.length * file.mBytesPerPacket, packets)

inductive QueueState
  | starting
  | running
  | stopped
  deriving Repr, DecidableEq

/-- The program and the queue. -/
structure Player (P : Type) where
  mCurrentPacket : Nat
  currentPacket : Nat
  /-- `mAudioFile` is not `NULL`. -/
  mAudioFile : Bool
  state : QueueState
  /-- What is in the buffers that are enqueued. -/
  queue : List (List P)
  /-- `AudioQueueStop` has been called. -/
  stopping : Bool
  /-- `CFRunLoopRun` has not returned. -/
  runLoop : Bool
  heard : List P

/-- The file is open and `AudioQueueStart` has been called. -/
def Player.start : Player P where
  mCurrentPacket := 0
  currentPacket := 0
  mAudioFile := true
  state := .starting
  queue := []
  stopping := false
  runLoop := true
  heard := []

namespace Player

/-- `AudioQueueEnqueueBuffer` -/
def enqueueBuffer (s : Player P) (mAudioDataByteSize : Nat) (packets : List P) : Player P :=
  if mAudioDataByteSize = 0 then s else { s with queue := s.queue ++ [packets] }

/-- The body of the loop of the listener. -/
def fill (file : AudioFile P) (s : Player P) : Player P :=
  let r := file.readPacketData (bufferSizeInSamples * 4) s.mCurrentPacket bufferSizeInSamples
  { s with mCurrentPacket := s.mCurrentPacket + r.2.length }.enqueueBuffer r.1 r.2

/-- `AudioEnginePropertyListenerProc` -/
def listener (file : AudioFile P) (isQueueRunning : Bool) (s : Player P) : Player P :=
  if isQueueRunning then
    -- reset current packet counter
    ({ s with mCurrentPacket := 0 }.fill file).fill file |>.fill file
  else if s.mAudioFile then
    { s with stopping := true, mAudioFile := false, queue := [], runLoop := false }
  else s

/-- `AQTestBufferCallback` -/
def callback (file : AudioFile P) (s : Player P) : Player P :=
  let r := file.readPacketData (bufferSizeInSamples * 4) s.currentPacket bufferSizeInSamples
  let s := { s with currentPacket := (s.currentPacket + r.2.length) % 2 ^ 32 }
  if r.1 = 0 then { s with stopping := true } else s.enqueueBuffer r.1 r.2

/-- What the queue does. -/
inductive Ev
  | begins
  /-- The oldest buffer has been played. -/
  | played
  /-- It has been stopped, and there is nothing left to play. -/
  | ceases
  deriving Repr, DecidableEq

def exec (file : AudioFile P) (s : Player P) : Ev → Option (Player P)
  | .begins =>
    if s.state = .starting then some ({ s with state := .running }.listener file true) else none
  | .played =>
    match s.state, s.queue with
    | .running, packets :: queue =>
      some ({ s with queue := queue, heard := s.heard ++ packets }.callback file)
    | _, _ => none
  | .ceases =>
    if s.state = .running ∧ s.stopping ∧ s.queue = [] then
      some ({ s with state := .stopped }.listener file false)
    else none

def Step (file : AudioFile P) (s : Player P) (e : Ev) (s' : Player P) : Prop :=
  s.exec file e = some s'

end Player

/-! ### What a read returns -/

variable {file : AudioFile P} {s s' : Player P} {c : Nat}

/-- How many packets fit into a buffer. -/
def AudioFile.room (file : AudioFile P) : Nat :=
  min bufferSizeInSamples (bufferSizeInSamples * 4 / file.mBytesPerPacket)

/-- The packets that are read from `c` on. -/
def AudioFile.chunk (file : AudioFile P) (c : Nat) : List P := (file.packets.drop c).take file.room

theorem readPacketData_eq (c : Nat) :
    file.readPacketData (bufferSizeInSamples * 4) c bufferSizeInSamples =
      ((file.chunk c).length * file.mBytesPerPacket, file.chunk c) := rfl

theorem bytes_eq_zero {packets : List P} :
    packets.length * file.mBytesPerPacket = 0 ↔ packets = [] := by
  rw [Nat.mul_eq_zero, List.length_eq_zero_iff, or_iff_left (Nat.ne_of_gt file.pos)]

/-- Reading on. -/
theorem take_append_chunk (file : AudioFile P) (n : Nat) :
    file.packets.take n ++ file.chunk (file.packets.take n).length =
      file.packets.take (n + file.room) := by
  rw [List.take_add, AudioFile.chunk]
  congr 2
  rw [List.length_take]
  rcases Nat.le_total n file.packets.length with h | h
  · rw [Nat.min_eq_left h]
  · rw [Nat.min_eq_right h, List.drop_of_length_le h, List.drop_of_length_le (Nat.le_refl _)]

theorem take_add_chunk (c : Nat) : file.packets.take (c + (file.chunk c).length) =
    file.packets.take c ++ file.chunk c := by
  have hchunk : (file.packets.drop c).take (file.chunk c).length = file.chunk c :=
    (List.prefix_iff_eq_take.mp (List.take_prefix file.room _)).symm
  rw [List.take_add, hchunk]

theorem length_chunk_le (file : AudioFile P) (c : Nat) : c + (file.chunk c).length ≤ max c file.packets.length := by
  rw [AudioFile.chunk, List.length_take, List.length_drop]
  omega

/-- Where nothing is read, there is nothing left or no packet fits into a buffer. -/
theorem chunk_eq_nil : file.chunk c = [] ↔ file.room = 0 ∨ file.packets.length ≤ c := by
  rw [AudioFile.chunk, List.take_eq_nil_iff, List.drop_eq_nil_iff]

/-! ### The listener -/

namespace Player

/-- What is heard and what is enqueued. -/
def stream (s : Player P) : List P := s.heard ++ s.queue.flatten

theorem fill_eq (s : Player P) : s.fill file = { s with
    mCurrentPacket := s.mCurrentPacket + (file.chunk s.mCurrentPacket).length
    queue := s.queue ++ (if file.chunk s.mCurrentPacket = [] then [] else
      [file.chunk s.mCurrentPacket]) } := by
  rw [fill, readPacketData_eq, enqueueBuffer]
  by_cases h : file.chunk s.mCurrentPacket = []
  · rw [if_pos (bytes_eq_zero.mpr h), if_pos h, List.append_nil]
  · rw [if_neg (mt bytes_eq_zero.mp h), if_neg h]

/-- The listener has filled `i` buffers, and has done nothing else. -/
structure Filled (file : AudioFile P) (i : Nat) (s : Player P) : Prop where
  mCurrentPacket : s.mCurrentPacket = (file.packets.take (i * file.room)).length
  stream : s.queue.flatten = file.packets.take (i * file.room)
  nonempty : [] ∉ s.queue
  length : s.queue.length ≤ i
  currentPacket : s.currentPacket = 0
  heard : s.heard = []
  stopping : s.stopping = false
  mAudioFile : s.mAudioFile = true
  runLoop : s.runLoop = true
  state : s.state = .running

theorem Filled.fill {i : Nat} (h : Filled file i s) : Filled file (i + 1) (s.fill file) := by
  have htake := take_append_chunk file (i * file.room)
  rw [← Nat.succ_mul] at htake
  rw [fill_eq, h.mCurrentPacket]
  refine ⟨?_, ?_, ?_, ?_, h.currentPacket, h.heard, h.stopping, h.mAudioFile, h.runLoop,
    h.state⟩
  · rw [← htake, List.length_append]
  · rw [← htake, List.flatten_append, h.stream]
    split
    · case isTrue hnil => rw [hnil]; rfl
    · rw [List.flatten_singleton]
  · rw [List.mem_append, not_or]
    refine ⟨h.nonempty, ?_⟩
    split
    · exact List.not_mem_nil
    · case isFalse hne => simpa using Ne.symm hne
  · rw [List.length_append]
    refine Nat.add_le_add h.length ?_
    split <;> simp

/-! ### The queue -/

/-- The whole file, behind its first packets. -/
def whole (file : AudioFile P) : List P := file.packets.take (3 * file.room) ++ file.packets

/-- There is something to play. -/
def Playable (file : AudioFile P) : Prop := 0 < file.room ∧ file.packets ≠ []

instance [DecidableEq P] (file : AudioFile P) : Decidable (Playable file) :=
  inferInstanceAs (Decidable (_ ∧ _))

/-- The queue runs. -/
structure Playing (file : AudioFile P) (s : Player P) : Prop where
  stream : s.stream = file.packets.take (3 * file.room) ++ file.packets.take s.currentPacket
  le : s.currentPacket ≤ file.packets.length
  nonempty : [] ∉ s.queue
  /-- Nothing comes of a file with nothing to play. -/
  silent : ¬ Playable file → s.queue = [] ∧ s.heard = [] ∧ s.stopping = false
  stopping : s.stopping → s.currentPacket = file.packets.length
  empty : s.queue = [] → s.stopping ∨ ¬ Playable file
  mAudioFile : s.mAudioFile = true
  runLoop : s.runLoop = true

/-- The program is at its end. -/
structure Over (file : AudioFile P) (s : Player P) : Prop where
  playable : Playable file
  heard : s.heard = whole file
  queue : s.queue = []
  mAudioFile : s.mAudioFile = false
  runLoop : s.runLoop = false

def Inv (file : AudioFile P) (s : Player P) : Prop :=
  match s.state with
  | .starting => s = .start
  | .running => Playing file s
  | .stopped => Over file s

theorem not_playable : ¬ Playable file ↔ file.room = 0 ∨ file.packets = [] := by
  rw [Playable, not_and_or, Nat.pos_iff_ne_zero, not_not, not_not]

theorem queue_eq_nil (hne : [] ∉ s.queue) (h : s.queue.flatten = []) : s.queue = [] := by
  refine List.eq_nil_iff_forall_not_mem.mpr fun p hp => ?_
  rw [List.flatten_eq_nil_iff.mp h p hp] at hp
  exact hne hp

theorem filled_begins (file : AudioFile P) :
    Filled file 3 ({ start with state := .running }.listener file true) := by
  have h₀ : Filled file 0 ({ start with state := .running } : Player P) := by
    refine ⟨?_, ?_, List.not_mem_nil, Nat.le_refl _, rfl, rfl, rfl, rfl, rfl, rfl⟩ <;>
    · rw [Nat.zero_mul]
      rfl
  exact h₀.fill.fill.fill

theorem Filled.playing (h : Filled file 3 s) : Playing file s where
  stream := by
    rw [Player.stream, h.heard, h.stream, h.currentPacket, List.nil_append, List.take_zero,
      List.append_nil]
  le := by
    rw [h.currentPacket]
    exact Nat.zero_le _
  nonempty := h.nonempty
  silent hno := by
    refine ⟨queue_eq_nil h.nonempty ?_, h.heard, h.stopping⟩
    rw [h.stream, List.take_eq_nil_iff]
    exact (not_playable.mp hno).imp_left fun hzero => by rw [hzero, Nat.mul_zero]
  stopping hstop := by
    rw [h.stopping] at hstop
    exact absurd hstop Bool.false_ne_true
  empty hnil := by
    have hflat := h.stream
    rw [hnil, List.flatten_nil, eq_comm, List.take_eq_nil_iff] at hflat
    exact .inr (not_playable.mpr (hflat.imp_left fun hzero => by omega))
  mAudioFile := h.mAudioFile
  runLoop := h.runLoop

theorem callback_eq (s : Player P) : s.callback file =
    if file.chunk s.currentPacket = [] then
      { s with currentPacket := s.currentPacket % 2 ^ 32, stopping := true }
    else
      { s with
        currentPacket := (s.currentPacket + (file.chunk s.currentPacket).length) % 2 ^ 32
        queue := s.queue ++ [file.chunk s.currentPacket] } := by
  rw [callback, readPacketData_eq]
  by_cases h : file.chunk s.currentPacket = []
  · rw [if_pos h, if_pos (bytes_eq_zero.mpr h), h]
    rfl
  · rw [if_neg h, if_neg (mt bytes_eq_zero.mp h), enqueueBuffer, if_neg (mt bytes_eq_zero.mp h)]

theorem callback_state (s : Player P) : (s.callback file).state = s.state := by
  rw [callback_eq]
  split <;> rfl

theorem Playing.played (h : Playing file s) (hlen : file.packets.length < 2 ^ 32) {packets : List P}
    {queue : List (List P)} (hq : s.queue = packets :: queue) :
    Playing file ({ s with queue := queue, heard := s.heard ++ packets }.callback file) := by
  have hplay : Playable file := by
    by_contra hno
    rw [(h.silent hno).1] at hq
    exact List.cons_ne_nil packets queue hq.symm
  have hroom : file.room ≠ 0 := Nat.ne_of_gt hplay.1
  have hnonempty : [] ∉ queue := fun hmem => h.nonempty (by rw [hq]; exact List.mem_cons_of_mem _ hmem)
  have hstream : s.heard ++ packets ++ queue.flatten =
      file.packets.take (3 * file.room) ++ file.packets.take s.currentPacket := by
    rw [← h.stream, Player.stream, hq, List.flatten_cons, List.append_assoc]
  rw [callback_eq]
  by_cases hnil : file.chunk s.currentPacket = []
  · have hend : s.currentPacket = file.packets.length :=
      Nat.le_antisymm h.le ((chunk_eq_nil.mp hnil).resolve_left hroom)
    have hmod : s.currentPacket % 2 ^ 32 = s.currentPacket := Nat.mod_eq_of_lt (by omega)
    rw [if_pos hnil]
    simp only [hmod]
    exact ⟨hstream, h.le, hnonempty, fun hno => absurd hplay hno, fun _ => hend, fun _ => .inl rfl,
      h.mAudioFile, h.runLoop⟩
  · have hle := length_chunk_le file s.currentPacket
    rw [Nat.max_eq_right h.le] at hle
    have hmod : (s.currentPacket + (file.chunk s.currentPacket).length) % 2 ^ 32 =
        s.currentPacket + (file.chunk s.currentPacket).length := Nat.mod_eq_of_lt (by omega)
    have hpos := List.length_pos_iff.mpr hnil
    rw [if_neg hnil]
    simp only [hmod]
    refine ⟨?_, hle, ?_, fun hno => absurd hplay hno, fun hstop => ?_, fun hq => ?_, h.mAudioFile,
      h.runLoop⟩
    · -- the chunk stands behind what is enqueued
      rw [Player.stream, List.flatten_append, List.flatten_singleton, ← List.append_assoc, hstream,
        take_add_chunk, List.append_assoc]
    · simpa [hnonempty] using Ne.symm hnil
    · have hend := h.stopping hstop
      omega
    · simp at hq

/-! ### Every run -/

/-- What is left to do. -/
def remaining (file : AudioFile P) (s : Player P) : Nat :=
  match s.state with
  | .starting => file.packets.length + 5
  | .running => file.packets.length - s.currentPacket + s.queue.length + 1
  | .stopped => 0

theorem remaining_running (h : s.state = .running) : remaining file s =
    file.packets.length - s.currentPacket + s.queue.length + 1 := by
  rw [remaining, h]

theorem Playing.remaining (h : Playing file s) (hlen : file.packets.length < 2 ^ 32)
    {packets : List P} {queue : List (List P)} (hstate : s.state = .running)
    (hq : s.queue = packets :: queue) :
    remaining file ({ s with queue := queue, heard := s.heard ++ packets }.callback file) + 1 ≤
      remaining file s := by
  have hle := length_chunk_le file s.currentPacket
  rw [Nat.max_eq_right h.le] at hle
  have hstate' : ({ s with queue := queue, heard := s.heard ++ packets }.callback file).state =
      .running := (callback_state _).trans hstate
  rw [remaining_running hstate, remaining_running hstate', hq, List.length_cons, callback_eq]
  by_cases hnil : file.chunk s.currentPacket = []
  · have hmod : s.currentPacket % 2 ^ 32 = s.currentPacket := Nat.mod_eq_of_lt (by omega)
    rw [if_pos hnil]
    simp only [hmod]
    omega
  · have hmod : (s.currentPacket + (file.chunk s.currentPacket).length) % 2 ^ 32 =
        s.currentPacket + (file.chunk s.currentPacket).length := Nat.mod_eq_of_lt (by omega)
    have hpos := List.length_pos_iff.mpr hnil
    rw [if_neg hnil]
    simp only [hmod, List.length_append, List.length_singleton]
    omega

theorem Playing.over (h : Playing file s) (hstop : s.stopping) (hq : s.queue = []) :
    Over file ({ s with state := .stopped }.listener file false) := by
  have hplay : Playable file := by
    by_contra hno
    rw [(h.silent hno).2.2] at hstop
    exact Bool.false_ne_true hstop
  have hheard : s.heard = whole file := by
    have hstream := h.stream
    rw [Player.stream, hq, List.flatten_nil, List.append_nil, h.stopping hstop,
      List.take_length] at hstream
    exact hstream
  rw [listener, if_neg Bool.false_ne_true, if_pos h.mAudioFile]
  exact ⟨hplay, hheard, rfl, rfl, rfl⟩

theorem listener_state (s : Player P) (b : Bool) : (s.listener file b).state = s.state := by
  rw [listener]
  split
  · simp only [fill_eq]
  · split <;> rfl

theorem Inv.step (h : Inv file s) (hlen : file.packets.length < 2 ^ 32) {e : Ev}
    (hs : Step file s e s') : Inv file s' ∧ remaining file s' + 1 ≤ remaining file s := by
  cases e with
  | begins =>
      obtain ⟨hstate, hs⟩ := Option.ite_none_right_eq_some.mp hs
      obtain rfl := Option.some.inj hs
      rw [Inv, hstate] at h
      have hfilled : Filled file 3 ({ s with state := .running }.listener file true) := by
        rw [h]
        exact filled_begins file
      refine ⟨?_, ?_⟩
      · rw [Inv, hfilled.state]
        exact hfilled.playing
      · have hlength := hfilled.length
        rw [remaining_running hfilled.state, hfilled.currentPacket, Player.remaining, hstate,
          Nat.sub_zero]
        simp only
        omega
  | played =>
      rw [Step, exec] at hs
      split at hs
      · case h_1 packets queue hstate hq =>
          obtain rfl := Option.some.inj hs
          rw [Inv, hstate] at h
          have hplayed := h.played hlen hq
          refine ⟨?_, h.remaining hlen hstate hq⟩
          rw [Inv, callback_state]
          simp only [hstate]
          simpa only [hstate] using hplayed
      · exact absurd hs.symm (Option.some_ne_none _)
  | ceases =>
      obtain ⟨⟨hstate, hstop, hq⟩, hs⟩ := Option.ite_none_right_eq_some.mp hs
      obtain rfl := Option.some.inj hs
      rw [Inv, hstate] at h
      refine ⟨?_, ?_⟩
      · rw [Inv, listener_state]
        exact h.over hstop hq
      · simp only [Player.remaining, listener_state, hstate]
        omega

theorem inv_run (hlen : file.packets.length < 2 ^ 32) {evs : List Ev}
    (h : Run (Step file) .start evs s) :
    Inv file s ∧ evs.length + remaining file s ≤ file.packets.length + 5 := by
  induction h with
  | nil => exact ⟨rfl, Nat.le_of_eq (Nat.zero_add _)⟩
  | snoc _ hs ih =>
      obtain ⟨hinv, hle⟩ := ih.1.step hlen hs
      have hold := ih.2
      rw [List.length_append, List.length_singleton]
      exact ⟨hinv, by omega⟩

/-- Where nothing can happen any more. -/
theorem Inv.stuck (h : Inv file s) (hstuck : ∀ e, s.exec file e = none) :
    (Playable file → Over file s) ∧
      (¬ Playable file → s.state = .running ∧ s.runLoop ∧ s.heard = []) := by
  rw [Inv] at h
  split at h
  · case h_1 hstate =>
      have hbegins := hstuck .begins
      rw [exec, if_pos hstate] at hbegins
      exact absurd hbegins (Option.some_ne_none _)
  · case h_2 hstate =>
      have hq : s.queue = [] := by
        cases hq : s.queue with
        | nil => rfl
        | cons packets queue =>
            have hplayed := hstuck .played
            simp only [exec, hstate, hq] at hplayed
            exact absurd hplayed (Option.some_ne_none _)
      have hstop : s.stopping = false := by
        by_contra hstop
        have hceases := hstuck .ceases
        rw [exec, if_pos ⟨hstate, Bool.not_eq_false _ ▸ hstop, hq⟩] at hceases
        exact absurd hceases (Option.some_ne_none _)
      have hno : ¬ Playable file := (h.empty hq).resolve_left (Bool.not_eq_true _ ▸ hstop)
      exact ⟨fun hplay => absurd hplay hno, fun _ => ⟨hstate, h.runLoop, (h.silent hno).2.1⟩⟩
  · exact ⟨fun _ => h, fun hno => absurd h.playable hno⟩

end Player

end Codelib.ClCa
