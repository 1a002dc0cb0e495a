import StreamHouse.Lib.Bytes
import StreamHouse.Lib.Run

/-!
# Kafka frames

`KafkaCodec` (`codec.rs`): a frame is its payload behind a four-byte signed length.
`decode` is called again and again on the one buffer of a connection, to which the
socket appends whatever arrives. A schedule says in which order chunks arrive and
`decode` is called; the frames read must not depend on it.
-/

namespace StreamHouse.Kafka

open StreamHouse.Lib List

/-- `KafkaError::Protocol`, the one error of the codec. -/
inductive KafkaError where
  | protocol (message : String)
deriving DecidableEq

/-- `isize::MAX`, the most bytes an allocation holds. -/
def isizeMax : Nat := 2 ^ 63 - 1

/-- `v as usize` for an `i32` given by its bits: the sign is extended. -/
def i32AsUsize (bits : Nat) : Nat :=
  if bits < 2 ^ 31 then bits else bits + (2 ^ 64 - 2 ^ 32)

/-- `BytesMut::reserve` on a buffer of `len` bytes. -/
def reserve {ε : Type} (len additional : Nat) : Outcome ε Unit :=
  if len + additional ≤ isizeMax then .ok () else .error .panicked

structure KafkaCodec where
  maxFrameSize : Nat

namespace KafkaCodec

/-- `MAX_FRAME_SIZE`, 100 MB. -/
def MAX_FRAME_SIZE : Nat := 100 * 1024 * 1024

def new : KafkaCodec := ⟨MAX_FRAME_SIZE⟩

def withMaxFrameSize (maxFrameSize : Nat) : KafkaCodec := ⟨maxFrameSize⟩

def tooLong (codec : KafkaCodec) (length : Nat) : KafkaError :=
  .protocol ("Frame size " ++ toString length ++ " exceeds maximum " ++ toString codec.maxFrameSize)

/-- `decode`: what it answers, and the buffer it leaves. -/
def decode (codec : KafkaCodec) (src : List UInt8) : Outcome KafkaError (Option (List UInt8)) × List UInt8 :=
  if src.length < 4 then (.ok none, src)
  else
    let length := i32AsUsize (valueBE (src.take 4))
    if codec.maxFrameSize < length then (.error (.error (codec.tooLong length)), src)
    else
      let totalLength := (4 + length) % 2 ^ 64
      if src.length < totalLength then
        ((reserve src.length (totalLength - src.length)).map fun _ => none, src)
      else
        -- `advance(4)`, then `split_to(length)`, which panics past the end
        let src := src.drop 4
        if length ≤ src.length then (.ok (some (src.take length)), src.drop length) else (.error .panicked, src)

/-- `encode`: `dst` with the frame of `item` behind it. -/
def encode (codec : KafkaCodec) (item dst : List UInt8) : Outcome KafkaError (List UInt8) :=
  let length := item.length
  if codec.maxFrameSize < length then .error (.error (codec.tooLong length))
  else do
    reserve dst.length (4 + length)
    -- `put_i32(length as i32)`: the low four bytes
    .ok (dst ++ putBE 4 length ++ item)

/-- The encodings of a list of payloads, one behind the other. -/
def encodeAll (codec : KafkaCodec) : List (List UInt8) → Outcome KafkaError (List UInt8)
  | [] => .ok []
  | payload :: payloads => do
    let bytes ← codec.encode payload []
    let rest ← codec.encodeAll payloads
    .ok (bytes ++ rest)

end KafkaCodec

open KafkaCodec

/-- What a connection has received and not decoded, the frames it has decoded, and how
decoding ended if it did: the connection makes no call after an error. -/
structure Reader where
  buffer : List UInt8
  frames : List (List UInt8)
  fault : Option (Fault KafkaError)

/-- A schedule's items: bytes arrive, or `decode` is called. -/
inductive Event where
  | chunk (bytes : List UInt8)
  | decode

/-- The bytes that arrive in the course of a schedule. -/
def received : List Event → List UInt8
  | [] => []
  | .chunk bytes :: events => bytes ++ received events
  | .decode :: events => received events

namespace Reader

def start : Reader := ⟨[], [], none⟩

def step (codec : KafkaCodec) (r : Reader) : Event → Reader
  | .chunk bytes => { r with buffer := r.buffer ++ bytes }
  | .decode =>
    if r.fault.isSome then r
    else
      match codec.decode r.buffer with
      | (.ok none, buffer) => { r with buffer }
      | (.ok (some frame), buffer) => { r with buffer, frames := r.frames ++ [frame] }
      | (.error fault, buffer) => { r with buffer, fault := some fault }

end Reader

open Reader

/-- However the encodings of the payloads are cut into chunks and whenever `decode` is
called, once it has also been called as often as there are payloads the frames are
the payloads, in order, and no byte is left. -/
def ChunkingIndependent (codec : KafkaCodec) : Prop :=
  ∀ payloads wire, codec.encodeAll payloads = .ok wire → ∀ events, received events = wire →
    ∀ calls, payloads.length ≤ calls →
      run (step codec) start (events ++ replicate calls .decode) = ⟨[], payloads, none⟩

/-- On any bytes `decode` waits, yields the frame in front and nothing of what follows,
or returns an error; it leaves every byte it does not yield, and does not panic. -/
def Confined (codec : KafkaCodec) (src : List UInt8) : Prop :=
  match codec.decode src with
  | (.ok none, rest) => rest = src
  | (.ok (some frame), rest) => src = putBE 4 frame.length ++ frame ++ rest
  | (.error (.error _), rest) => rest = src
  | (.error .panicked, _) => False

/-- A payload as it goes over the wire. -/
def frame (payload : List UInt8) : List UInt8 :=
  putBE 4 payload.length ++ payload

def frames (payloads : List (List UInt8)) : List UInt8 :=
  (payloads.map frame).flatten

@[simp] theorem frame_length (payload : List UInt8) : (frame payload).length = 4 + payload.length := by
  simp [frame]

@[simp] theorem frames_nil : frames [] = [] := rfl

@[simp] theorem frames_cons (payload : List UInt8) (payloads : List (List UInt8)) :
    frames (payload :: payloads) = frame payload ++ frames payloads := rfl

variable {payload src later : List UInt8} {r : Reader} {todo : List (List UInt8)}

variable {codec : KafkaCodec}

/-- A payload is encoded exactly if it is within the maximum (and fits into memory). -/
theorem encode_ok_iff {bytes : List UInt8} : codec.encode payload [] = .ok bytes ↔
      payload.length ≤ codec.maxFrameSize ∧ 4 + payload.length ≤ isizeMax ∧ bytes = frame payload := by
  unfold encode reserve
  by_cases long : codec.maxFrameSize < payload.length
  · simp [long]
  · by_cases fits : 4 + payload.length ≤ isizeMax
    · simp [long, fits, Nat.le_of_not_lt long, frame, eq_comm]
    · simp only [long, fits, length_nil, Nat.zero_add, if_false, false_and, and_false, iff_false]
      intro encoded
      cases encoded

theorem encodeAll_ok_iff {payloads : List (List UInt8)} {wire : List UInt8} :
    codec.encodeAll payloads = .ok wire ↔
      (∀ p ∈ payloads, p.length ≤ codec.maxFrameSize ∧ 4 + p.length ≤ isizeMax) ∧ wire = frames payloads := by
  induction payloads generalizing wire with
  | nil => simp [encodeAll, eq_comm]
  | cons payload payloads ih =>
    constructor
    · intro encoded
      obtain ⟨bytes, first, encoded⟩ := bind_ok encoded
      obtain ⟨rest, others, encoded⟩ := bind_ok encoded
      obtain ⟨within, fits, rfl⟩ := encode_ok_iff.1 first
      obtain ⟨inside, rfl⟩ := ih.1 others
      exact ⟨forall_mem_cons.2 ⟨⟨within, fits⟩, inside⟩, (Except.ok.inj encoded).symm⟩
    · rintro ⟨inside, rfl⟩
      obtain ⟨⟨within, fits⟩, others⟩ := forall_mem_cons.1 inside
      have first : codec.encode payload [] = .ok (frame payload) := encode_ok_iff.2 ⟨within, fits, rfl⟩
      unfold encodeAll
      rw [first, ok_bind, ih.2 ⟨others, rfl⟩, ok_bind, frames_cons]

/-! ### One call of `decode` -/

/-- With less than a length prefix in the buffer, `decode` waits. -/
theorem decode_short (short : src.length < 4) : codec.decode src = (.ok none, src) := by
  rw [decode, if_pos short]

/-- What `decode` does on a length that is not negative and within the maximum. -/
theorem decode_length {length : Nat} (enough : 4 ≤ src.length)
    (announced : valueBE (src.take 4) = length) (positive : length < 2 ^ 31) (within : length ≤ codec.maxFrameSize) :
    codec.decode src =
      if src.length < 4 + length then (.ok none, src) else (.ok (some ((src.drop 4).take length)), (src.drop 4).drop length) := by
  have total : (4 + length) % 2 ^ 64 = 4 + length := Nat.mod_eq_of_lt (by omega)
  have size : i32AsUsize length = length := by rw [i32AsUsize, if_pos positive]
  have complete : ¬ src.length < 4 := by omega
  have allowed : ¬ codec.maxFrameSize < length := by omega
  unfold decode
  simp only [announced, size, total, complete, allowed, if_false]
  split
  · next waits =>
    have fits : src.length + (4 + length - src.length) ≤ isizeMax := by unfold isizeMax; omega
    rw [reserve, if_pos fits]
    rfl
  · next whole =>
    have body : length ≤ (src.drop 4).length := by simp; omega
    rw [if_pos body]

/-- The length prefix of a frame, whatever part of the frame is there. -/
theorem announced_length {rest : List UInt8} (enough : 4 ≤ src.length)
    (cut : frame payload ++ rest = src ++ later) (positive : payload.length < 2 ^ 31) :
    valueBE (src.take 4) = payload.length := by
  have front : src.take 4 = putBE 4 payload.length := by
    calc
      src.take 4 = (src ++ later).take 4 := (take_append_of_le_length enough).symm
      _ = (putBE 4 payload.length ++ (payload ++ rest)).take 4 := by rw [← cut, frame, append_assoc]
      _ = putBE 4 payload.length := take_left' (putBE_length _ _)
  rw [front, valueBE_putBE]
  exact Nat.mod_eq_of_lt (by omega)

/-- A frame that is there as a whole is yielded, and nothing behind it is touched. -/
theorem decode_frame (rest : List UInt8) (positive : payload.length < 2 ^ 31)
    (within : payload.length ≤ codec.maxFrameSize) : codec.decode (frame payload ++ rest) = (.ok (some payload), rest) := by
  have enough : 4 ≤ (frame payload ++ rest).length := by simp; omega
  have cut : frame payload ++ rest = frame payload ++ rest ++ [] := (append_nil _).symm
  have announced := announced_length enough cut positive
  have whole : ¬ (frame payload ++ rest).length < 4 + payload.length := by simp
  rw [decode_length enough announced positive within, if_neg whole]
  rw [frame, append_assoc, drop_left' (putBE_length _ _), take_left, drop_left]

/-- A frame of which some bytes are missing is waited for. -/
theorem decode_waits {rest : List UInt8} (cut : frame payload ++ rest = src ++ later)
    (missing : src.length < (frame payload).length) (positive : payload.length < 2 ^ 31)
    (within : payload.length ≤ codec.maxFrameSize) : codec.decode src = (.ok none, src) := by
  by_cases enough : 4 ≤ src.length
  · rw [frame_length] at missing
    rw [decode_length enough (announced_length enough cut positive) positive within, if_pos missing]
  · exact decode_short (by omega)

/-- With a maximum that an `i32` can express, no length is read that the code cannot handle. -/
theorem decode_confined (small : codec.maxFrameSize < 2 ^ 31) (src : List UInt8) : Confined codec src := by
  unfold Confined
  by_cases enough : 4 ≤ src.length
  · have front : (src.take 4).length = 4 := length_take_of_le enough
    have bits : valueBE (src.take 4) < 2 ^ 32 := by
      have bound := valueBE_lt (src.take 4)
      rw [front] at bound
      exact bound
    by_cases accepted : i32AsUsize (valueBE (src.take 4)) ≤ codec.maxFrameSize
    · have positive : valueBE (src.take 4) < 2 ^ 31 := by
        unfold i32AsUsize at accepted
        split at accepted <;> omega
      rw [i32AsUsize, if_pos positive] at accepted
      rw [decode_length enough rfl positive accepted]
      by_cases waits : src.length < 4 + valueBE (src.take 4)
      · rw [if_pos waits]
      · rw [if_neg waits]
        have size : ((src.drop 4).take (valueBE (src.take 4))).length = valueBE (src.take 4) := by
          rw [length_take, length_drop]
          omega
        have prefixed : putBE 4 (valueBE (src.take 4)) = src.take 4 := by
          have whole := putBE_valueBE (src.take 4)
          rw [front] at whole
          exact whole
        show src = putBE 4 _ ++ _ ++ _
        rw [size, prefixed, append_assoc, take_append_drop, take_append_drop]
    · have complete : ¬ src.length < 4 := by omega
      have excess : codec.maxFrameSize < i32AsUsize (valueBE (src.take 4)) := by omega
      simp only [decode, complete, excess, if_true, if_false]
  · rw [decode_short (by omega)]

/-! ### A connection -/

/-- Nothing has gone wrong: the frames read are the first payloads, and the bytes in the
buffer with those still to arrive are the encodings of the others. -/
structure OnTrack (payloads : List (List UInt8)) (later : List UInt8) (todo : List (List UInt8)) (r : Reader) : Prop where
  read : r.frames ++ todo = payloads
  wire : frames todo = r.buffer ++ later
  unfailed : r.fault = none

section Schedule

variable {payloads : List (List UInt8)}

/-- A call that has to wait changes nothing. -/
theorem step_waits (unfailed : r.fault = none) (waits : codec.decode r.buffer = (.ok none, r.buffer)) :
    r.step codec .decode = r := by
  obtain ⟨buffer, frames, fault⟩ := r
  cases unfailed
  simp only [step, waits]
  rfl

/-- A call that yields no frame leaves the frames read so far. -/
theorem step_frames (never : ∀ payload, (codec.decode r.buffer).1 ≠ .ok (some payload)) :
    (r.step codec .decode).frames = r.frames := by
  cases answer : codec.decode r.buffer with
  | mk result buffer =>
    rw [answer] at never
    by_cases failed : r.fault.isSome
    · simp only [step, failed, if_true]
    · simp only [step, failed, answer]
      cases result with
      | error fault => rfl
      | ok item =>
        cases item with
        | none => rfl
        | some payload => exact absurd rfl (never payload)

/-- A call with the next frame in the buffer reads it. -/
theorem OnTrack.reads {p : List UInt8} {rest : List (List UInt8)} (positive : p.length < 2 ^ 31)
    (allowed : p.length ≤ codec.maxFrameSize) (track : OnTrack payloads later (p :: rest) r)
    (whole : (frame p).length ≤ r.buffer.length) : OnTrack payloads later rest (r.step codec .decode) := by
  have cut : frame p ++ frames rest = r.buffer ++ later := track.wire
  obtain ⟨behind, buffer, remaining⟩ : ∃ behind, r.buffer = frame p ++ behind ∧ frames rest = behind ++ later := by
    refine ⟨r.buffer.drop (frame p).length, ?_, ?_⟩
    · have front : r.buffer.take (frame p).length = frame p := by
        rw [← take_append_of_le_length whole, ← cut, take_left]
      nth_rewrite 1 [← take_append_drop (frame p).length r.buffer]
      rw [front]
    · rw [← drop_append_of_le_length whole, ← cut, drop_left]
  have answer : codec.decode r.buffer = (.ok (some p), behind) := by
    rw [buffer]
    exact decode_frame behind positive allowed
  have reads : r.step codec .decode = { r with buffer := behind, frames := r.frames ++ [p] } := by
    simp only [step, track.unfailed, answer]
    rfl
  rw [reads]
  exact ⟨by simp [← track.read], remaining, track.unfailed⟩

section

variable (within : ∀ p ∈ payloads, p.length ≤ codec.maxFrameSize ∧ p.length < 2 ^ 31)
include within

/-- One call keeps the connection on track, wherever the chunk in the buffer was cut. -/
theorem OnTrack.decode (track : OnTrack payloads later todo r) :
    ∃ todo', OnTrack payloads later todo' (r.step codec .decode) := by
  cases todo with
  | nil =>
    have empty : r.buffer = [] := (append_eq_nil_iff.1 track.wire.symm).1
    rw [step_waits track.unfailed (decode_short (by simp [empty]))]
    exact ⟨[], track⟩
  | cons p rest =>
    have member : p ∈ payloads := by rw [← track.read]; simp
    obtain ⟨allowed, positive⟩ := within p member
    by_cases missing : r.buffer.length < (frame p).length
    · rw [step_waits track.unfailed (decode_waits track.wire missing positive allowed)]
      exact ⟨p :: rest, track⟩
    · exact ⟨rest, track.reads positive allowed (by omega)⟩

/-- Along every schedule the connection stays on track. -/
theorem OnTrack.run {events : List Event}
    (track : OnTrack payloads (received events ++ later) todo r) :
    ∃ todo', OnTrack payloads later todo' (Lib.run (step codec) r events) := by
  induction events generalizing todo r with
  | nil => exact ⟨todo, track⟩
  | cons event events ih =>
    cases event with
    | chunk bytes =>
      apply ih
      exact ⟨track.read, by rw [track.wire, received]; simp [step], track.unfailed⟩
    | decode =>
      obtain ⟨todo', next⟩ := track.decode within
      exact ih next

/-- When everything has arrived, every call reads one of the frames left. -/
theorem OnTrack.finish {calls : Nat}
    (track : OnTrack payloads [] todo r)
    (enough : todo.length ≤ calls) :
    Lib.run (step codec) r (replicate calls .decode) = ⟨[], payloads, none⟩ := by
  induction calls generalizing todo r with
  | zero =>
    obtain rfl := eq_nil_of_length_eq_zero (Nat.le_zero.1 enough)
    obtain ⟨buffer, frames, fault⟩ := r
    obtain ⟨read, wire, unfailed⟩ := track
    simp_all
  | succ calls ih =>
    rw [replicate_succ, run_cons]
    cases todo with
    | nil =>
      have empty : r.buffer = [] := (append_eq_nil_iff.1 track.wire.symm).1
      rw [step_waits track.unfailed (decode_short (by simp [empty]))]
      exact ih track (Nat.zero_le _)
    | cons p rest =>
      have member : p ∈ payloads := by rw [← track.read]; simp
      obtain ⟨allowed, positive⟩ := within p member
      have whole : (frame p).length ≤ r.buffer.length := by
        have sizes := congrArg List.length track.wire
        rw [frames_cons, append_nil, length_append] at sizes
        omega
      exact ih (track.reads positive allowed whole) (by simpa using enough)


end
end Schedule

/-- A payload whose length is no `i32` goes out behind a negative length. -/
theorem decode_negative (long : payload.length = 2 ^ 31) :
    ∀ other, (codec.decode (frame payload)).1 ≠ .ok (some other) := by
  have enough : ¬ (frame payload).length < 4 := by rw [frame_length]; omega
  have announced : i32AsUsize (valueBE ((frame payload).take 4)) = 2 ^ 64 - 2 ^ 31 := by
    rw [frame, take_left' (putBE_length _ _), valueBE_putBE, long]
    rfl
  have total : (4 + (2 ^ 64 - 2 ^ 31)) % 2 ^ 64 = 2 ^ 64 - 2 ^ 31 + 4 := by rfl
  have short : (frame payload).length < 2 ^ 64 - 2 ^ 31 + 4 := by rw [frame_length]; omega
  have panics : ¬ (frame payload).length + (2 ^ 64 - 2 ^ 31 + 4 - (frame payload).length) ≤ isizeMax := by unfold isizeMax; omega
  intro other answer
  unfold decode at answer
  simp only [announced, enough, total, short, reserve, panics, if_true, if_false] at answer
  split at answer <;> cases answer

/-- Such a payload is within the maximum, is encoded without an error, and is never read. -/
theorem unread_payload (large : 2 ^ 31 ≤ codec.maxFrameSize) : ¬ ChunkingIndependent codec := by
  intro independent
  obtain ⟨payload, size⟩ : ∃ payload : List UInt8, payload.length = 2 ^ 31 := ⟨_, length_replicate (a := 0)⟩
  have encoded : codec.encodeAll [payload] = .ok (frame payload) := by
    refine encodeAll_ok_iff.2 ⟨?_, by simp⟩
    unfold isizeMax
    simp only [mem_singleton, forall_eq]
    omega
  have reads := independent [payload] _ encoded [.chunk (frame payload)] (by simp [received]) 1 (by simp)
  rw [singleton_append, run_cons, replicate_one, run_cons, run_nil] at reads
  have unread : ((start.step codec (.chunk (frame payload))).step codec .decode).frames = [] :=
    step_frames (decode_negative size)
  rw [reads] at unread
  cases unread

/-- The codec is chunking-independent, and confined on arbitrary bytes, exactly if its
maximum is one that the signed length can express. -/
theorem framing_iff (codec : KafkaCodec) :
    (ChunkingIndependent codec ∧ ∀ src, Confined codec src) ↔ codec.maxFrameSize < 2 ^ 31 := by
  constructor
  · rintro ⟨independent, -⟩
    by_contra large
    exact unread_payload (Nat.le_of_not_lt large) independent
  · intro small
    refine ⟨?_, decode_confined small⟩
    rintro payloads wire encoded events arrived calls enough
    obtain ⟨inside, rfl⟩ := encodeAll_ok_iff.1 encoded
    have within : ∀ p ∈ payloads, p.length ≤ codec.maxFrameSize ∧ p.length < 2 ^ 31 := by
      intro p member
      have bound := (inside p member).1
      exact ⟨bound, by omega⟩
    have track : OnTrack payloads (received events ++ []) payloads start :=
      ⟨rfl, by rw [arrived, append_nil]; rfl, rfl⟩
    obtain ⟨todo, reached⟩ := track.run within
    have fewer : todo.length ≤ calls := by
      have sizes := congrArg List.length reached.read
      rw [length_append] at sizes
      omega
    rw [run_append]
    exact reached.finish within fewer

theorem framing_fails :
    ¬ (ChunkingIndependent (withMaxFrameSize (2 ^ 31)) ∧ ∀ src, Confined (withMaxFrameSize (2 ^ 31)) src) := by
  rintro ⟨independent, -⟩
  exact unread_payload (Nat.le_refl _) independent

/-- The server's own codec is far below the bound. -/
example : new.maxFrameSize < 2 ^ 31 := by decide

end StreamHouse.Kafka
