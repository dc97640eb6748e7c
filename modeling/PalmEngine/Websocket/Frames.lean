import PalmEngine.Lib.BigEndian
import PalmEngine.Lib.ChunkedSource

/-!
# WebSocket frames

A frame is encoded with its opcode, one of three forms of its length and, if it is masked, a key. A
reader reads frames from a stream that gives bytes in chunks of any sizes. The encodings of any frames,
one after the other, are read back in order, and of a stream that is cut somewhere the frames that are
complete are.
-/

namespace PalmEngine.Websocket

open PalmEngine.Lib

/-- A key that masks a payload. -/
abbrev MaskKey := { key : List UInt8 // key.length = 4 }

/-- A frame: an opcode of four bits and a payload whose length fits into 64 bits, masked or not. -/
structure Frame where
  opcode : ℕ
  payload : List UInt8
  mask : Option MaskKey
  opcode_lt : opcode < 16
  length_lt : payload.length < 2 ^ 64

/-- Mask or unmask a payload. -/
def applyMask (key payload : List UInt8) : List UInt8 :=
  payload.mapIdx fun i b => b ^^^ key.getD (i % 4) 0

/-- The bytes of the length of a payload, the first one with the bit for a mask. -/
def encodeLength (maskBit n : ℕ) : List UInt8 :=
  if n < 126 then [UInt8.ofNat (maskBit ||| n)]
  else if n < 2 ^ 16 then UInt8.ofNat (maskBit ||| 126) :: bigEndian 2 n
  else UInt8.ofNat (maskBit ||| 127) :: bigEndian 8 n

namespace Frame

variable (f : Frame)

/-- The bit that says whether a frame is masked. -/
def maskBit : ℕ := if f.mask.isSome then 0x80 else 0

/-- The bytes of the key. -/
def maskBytes : List UInt8 := f.mask.elim [] Subtype.val

/-- The payload as it is sent. -/
def sentPayload : List UInt8 := f.mask.elim f.payload fun key => applyMask key.val f.payload

/-- The encoding of a frame. -/
def encodeFrame : List UInt8 :=
  UInt8.ofNat (0x80 ||| (f.opcode &&& 0x0F)) ::
    (encodeLength f.maskBit f.payload.length ++ (f.maskBytes ++ f.sentPayload))

example : (Frame.mk 1 [72, 105] (some ⟨[1, 2, 3, 4], rfl⟩) (by decide) (by decide)).encodeFrame =
    [0x81, 0x82, 1, 2, 3, 4, 73, 107] := by decide

/-- What a reader returns for a frame. -/
def contents : ℕ × List UInt8 := (f.opcode, f.payload)

end Frame

section Reader

variable {m : Type → Type} [Monad m] (readExact : ℕ → m (List UInt8))

/-- Read the rest of a length of which seven bits are read. -/
def readLength (length : ℕ) : m ℕ :=
  if length = 126 then do
    let bytes ← readExact 2
    return fromBigEndian bytes
  else if length = 127 then do
    let bytes ← readExact 8
    return fromBigEndian bytes
  else return length

/-- Read so many bytes, if they are there. -/
def readIf (present : Bool) (n : ℕ) : m (List UInt8) := if present then readExact n else pure []

/-- Read a frame, given how to read exactly so many bytes. -/
def readFrameWith : m (ℕ × List UInt8) := do
  let b1 ← readExact 1
  let b2 ← readExact 1
  let opcode := (b1.getD 0 0 &&& 0x0F).toNat
  let masked := decide (b2.getD 0 0 &&& 0x80 ≠ 0)
  let length ← readLength readExact (b2.getD 0 0 &&& 0x7F).toNat
  let mask ← readIf readExact masked 4
  let payload ← readIf readExact (length ≠ 0) length
  return (opcode, if masked then applyMask mask payload else payload)

end Reader

/-- Read a frame from a stream; an error is that the connection is closed. -/
def readFrame : StateT (ChunkedSource UInt8) Option (ℕ × List UInt8) :=
  readFrameWith ChunkedSource.readExact

/-- Read a frame from bytes that are there at once. -/
def parseFrame : StateT (List UInt8) Option (ℕ × List UInt8) := readFrameWith takeExact

section Rules

/-- Reading a length from a stream agrees with reading it from the bytes. -/
theorem agrees_readLength (length : ℕ) :
    Agrees (readLength ChunkedSource.readExact length) (readLength takeExact length) := by
  unfold readLength
  split
  · exact (agrees_readExact 2).bind fun _ => agrees_pure _
  · split
    · exact (agrees_readExact 8).bind fun _ => agrees_pure _
    · exact agrees_pure length

/-- Reading bytes that may not be there agrees. -/
theorem agrees_readIf (present : Bool) (n : ℕ) :
    Agrees (readIf ChunkedSource.readExact present n) (readIf takeExact present n) := by
  unfold readIf
  split
  · exact agrees_readExact n
  · exact agrees_pure []

/-- Reading a frame from a stream agrees with reading it from the bytes. -/
theorem agrees_readFrame : Agrees readFrame parseFrame :=
  (agrees_readExact 1).bind fun _ => (agrees_readExact 1).bind fun _ =>
    (agrees_readLength _).bind fun length => (agrees_readIf _ 4).bind fun _ =>
      (agrees_readIf _ length).bind fun _ => agrees_pure _

/-- A length that is read is read from more bytes. -/
theorem extends_readLength (length : ℕ) : Extends (readLength takeExact length) := by
  unfold readLength
  split
  · exact (extends_takeExact 2).bind fun _ => extends_pure _
  · split
    · exact (extends_takeExact 8).bind fun _ => extends_pure _
    · exact extends_pure length

/-- Bytes that may not be there are read from more bytes. -/
theorem extends_readIf (present : Bool) (n : ℕ) : Extends (readIf takeExact present n) := by
  unfold readIf
  split
  · exact extends_takeExact n
  · exact extends_pure []

/-- A frame that is read is read from more bytes. -/
theorem extends_parseFrame : Extends parseFrame :=
  (extends_takeExact 1).bind fun _ => (extends_takeExact 1).bind fun _ =>
    (extends_readLength _).bind fun length => (extends_readIf _ 4).bind fun _ =>
      (extends_readIf _ length).bind fun _ => extends_pure _

/-- Reading a length leaves no more bytes. -/
theorem consumes_readLength (length : ℕ) : Consumes 0 (readLength takeExact length) := by
  unfold readLength
  split
  · exact ((consumes_takeExact 2).bind fun _ => consumes_pure _).zero
  · split
    · exact ((consumes_takeExact 8).bind fun _ => consumes_pure _).zero
    · exact consumes_pure length

/-- Reading bytes that may not be there leaves no more bytes. -/
theorem consumes_readIf (present : Bool) (n : ℕ) : Consumes 0 (readIf takeExact present n) := by
  unfold readIf
  split
  · exact (consumes_takeExact n).zero
  · exact consumes_pure []

/-- A frame that is read has two bytes at least. -/
theorem consumes_parseFrame : Consumes 2 parseFrame :=
  (consumes_takeExact 1).bind fun _ => (consumes_takeExact 1).bind fun _ =>
    (consumes_readLength _).bind fun length => (consumes_readIf _ 4).bind fun _ =>
      (consumes_readIf _ length).bind fun _ => consumes_pure _

end Rules

section Encoding

/-- The opcode of a frame is read back. -/
theorem opcode_eq : ∀ opcode < 16,
    (UInt8.ofNat (0x80 ||| (opcode &&& 0x0F)) &&& 0x0F).toNat = opcode := by decide

/-- Seven bits next to the bit for a mask are read back, and so is that bit. -/
theorem lengthByte_eq : ∀ maskBit ∈ [0, 0x80], ∀ n < 128,
    (UInt8.ofNat (maskBit ||| n) &&& 0x7F).toNat = n ∧
      (UInt8.ofNat (maskBit ||| n) &&& 0x80 ≠ 0 ↔ maskBit = 0x80) := by decide

/-- A byte is taken. -/
theorem takeExact_one (b : UInt8) (rest : List UInt8) :
    (takeExact 1).run (b :: rest) = some ([b], rest) := takeExact_append [b] rest

/-- A length of so many bytes is read back. -/
theorem readBigEndian {width n : ℕ} (h : n < 256 ^ width) (rest : List UInt8) :
    (do let bytes ← takeExact width
        return fromBigEndian bytes : StateT (List UInt8) Option ℕ).run (bigEndian width n ++ rest) =
      some (n, rest) := by
  have htake := takeExact_append (bigEndian width n) rest
  rw [length_bigEndian] at htake
  rw [StateT.run_bind, htake]
  simp [fromBigEndian_bigEndian h]

/-- The length of a payload is read back in each of its forms. -/
theorem encodeLength_eq {maskBit n : ℕ} (hmask : maskBit ∈ [0, 0x80]) (hn : n < 2 ^ 64) :
    ∃ b more, encodeLength maskBit n = b :: more ∧ (b &&& 0x80 ≠ 0 ↔ maskBit = 0x80) ∧
      ∀ rest, (readLength takeExact (b &&& 0x7F).toNat).run (more ++ rest) = some (n, rest) := by
  unfold encodeLength
  split
  · next hsmall =>
    obtain ⟨hlength, hmasked⟩ := lengthByte_eq maskBit hmask n (by omega)
    refine ⟨_, [], rfl, hmasked, fun rest => ?_⟩
    rw [hlength, readLength, if_neg (by omega), if_neg (by omega)]
    rfl
  · split
    · next hmedium =>
      obtain ⟨hlength, hmasked⟩ := lengthByte_eq maskBit hmask 126 (by omega)
      refine ⟨_, bigEndian 2 n, rfl, hmasked, fun rest => ?_⟩
      rw [hlength, readLength, if_pos rfl]
      exact readBigEndian (by omega) rest
    · obtain ⟨hlength, hmasked⟩ := lengthByte_eq maskBit hmask 127 (by omega)
      refine ⟨_, bigEndian 8 n, rfl, hmasked, fun rest => ?_⟩
      rw [hlength, readLength, if_neg (by omega), if_pos rfl]
      exact readBigEndian (by omega) rest

/-- Masking twice gives the payload. -/
theorem applyMask_applyMask (key payload : List UInt8) :
    applyMask key (applyMask key payload) = payload := by
  unfold applyMask
  refine List.ext_getElem (by simp) fun i _ _ => ?_
  rw [List.getElem_mapIdx, List.getElem_mapIdx, UInt8.xor_assoc, UInt8.xor_self, UInt8.xor_zero]

/-- A payload keeps its length when it is masked. -/
theorem length_applyMask (key payload : List UInt8) :
    (applyMask key payload).length = payload.length := List.length_mapIdx

/-- A payload is taken, if there is one. -/
theorem readIf_payload (payload rest : List UInt8) {n : ℕ} (hn : payload.length = n) :
    (readIf takeExact (n ≠ 0) n).run (payload ++ rest) = some (payload, rest) := by
  subst hn
  unfold readIf
  split
  · exact takeExact_append payload rest
  · next hzero =>
    have hnil : payload = [] := List.length_eq_zero_iff.mp (by simpa using hzero)
    subst hnil
    rfl

/-- The key and the payload of a frame are taken. -/
theorem readIf_mask (f : Frame) (rest : List UInt8) :
    (readIf takeExact f.mask.isSome 4).run (f.maskBytes ++ rest) = some (f.maskBytes, rest) := by
  unfold Frame.maskBytes
  cases f.mask with
  | none => rfl
  | some key =>
    have htake := takeExact_append key.val rest
    rwa [key.property] at htake

/-- The payload that is sent has the length of the payload, and unmasking it gives the payload. -/
theorem sentPayload_eq (f : Frame) : f.sentPayload.length = f.payload.length ∧
    (if f.mask.isSome then applyMask f.maskBytes f.sentPayload else f.sentPayload) = f.payload := by
  unfold Frame.sentPayload Frame.maskBytes
  cases f.mask with
  | none => exact ⟨rfl, rfl⟩
  | some key => exact ⟨length_applyMask _ _, applyMask_applyMask _ _⟩

/-- The bit for a mask is set if there is one. -/
theorem Frame.maskBit_eq (f : Frame) : f.maskBit = 0x80 ↔ f.mask.isSome = true := by
  unfold maskBit
  split
  · next h => exact ⟨fun _ => h, fun _ => rfl⟩
  · next h => exact ⟨fun hzero => absurd hzero (by decide), fun hsome => absurd hsome h⟩

/-- A frame is read back from its encoding, and what follows is left. -/
theorem parseFrame_encodeFrame (f : Frame) (rest : List UInt8) :
    parseFrame.run (f.encodeFrame ++ rest) = some (f.contents, rest) := by
  have hmask : f.maskBit ∈ [0, 0x80] := by
    unfold Frame.maskBit
    split <;> simp
  obtain ⟨b, more, hlength, hmasked, hread⟩ := encodeLength_eq hmask f.length_lt
  have hopcode := opcode_eq f.opcode f.opcode_lt
  have hbits : decide (b &&& 0x80 ≠ 0) = f.mask.isSome := by
    have hiff := hmasked.trans f.maskBit_eq
    cases hsome : f.mask.isSome with
    | true => simpa using hiff.mpr hsome
    | false => simpa [hsome] using hiff
  obtain ⟨hsent, hpayload⟩ := sentPayload_eq f
  simp only [parseFrame, readFrameWith, Frame.encodeFrame, hlength, List.cons_append,
    List.append_assoc, StateT.run_bind, takeExact_one, Option.bind_eq_bind, Option.bind_some,
    List.getD_cons_zero, hread, hbits, hopcode, readIf_mask, readIf_payload _ _ hsent, hpayload]
  rfl

end Encoding

/-- Read frames from a stream until the connection is closed. -/
def readFrames (s : ChunkedSource UInt8) : List (ℕ × List UInt8) :=
  match _h : readFrame s with
  | none => []
  | some (frame, s') => frame :: readFrames s'
termination_by s.rest.length
decreasing_by
  have hagrees := agrees_readFrame s
  simp only [StateT.run, _h, Option.map_some] at hagrees
  have hconsumes := consumes_parseFrame _ _ _ hagrees.symm
  omega

/-- The frames whose encodings are complete in so many bytes. -/
def completeFrames : List Frame → ℕ → List Frame
  | [], _ => []
  | f :: rest, cut =>
    if f.encodeFrame.length ≤ cut then f :: completeFrames rest (cut - f.encodeFrame.length) else []

/-- What is read from a stream is what is read from its bytes: if no frame can be read, nothing. -/
theorem readFrames_of_none {s : ChunkedSource UInt8} (h : parseFrame.run s.rest = none) :
    readFrames s = [] := by
  have hagrees := agrees_readFrame s
  rw [h, Option.map_eq_none_iff] at hagrees
  have hread : readFrame s = none := hagrees
  rw [readFrames]
  split
  · rfl
  · next hsome => rw [hread] at hsome; cases hsome

/-- What is read from a stream is what is read from its bytes: if a frame can be read, it is the first
one, and the rest is read in the same way with chunks of some sizes. -/
theorem readFrames_of_some {s : ChunkedSource UInt8} {frame : ℕ × List UInt8} {rest : List UInt8}
    (h : parseFrame.run s.rest = some (frame, rest)) :
    ∃ sizes, readFrames s = frame :: readFrames ⟨rest, sizes⟩ := by
  have hagrees := agrees_readFrame s
  rw [h] at hagrees
  obtain ⟨⟨frame', s'⟩, hread, heq⟩ := Option.map_eq_some_iff.mp hagrees
  have hread : readFrame s = some (frame', s') := hread
  obtain ⟨rfl, rfl⟩ := Prod.mk.inj heq
  refine ⟨s'.sizes, ?_⟩
  rw [readFrames]
  split
  · next hnone => rw [hread] at hnone; cases hnone
  · next frame'' s'' hsome =>
    obtain ⟨rfl, rfl⟩ := Prod.mk.inj (Option.some.inj (hread.symm.trans hsome))
    rfl

/-- No frame is read from a part of an encoding. -/
theorem parseFrame_part (f : Frame) {cut : ℕ} (hcut : cut < f.encodeFrame.length) :
    parseFrame.run (f.encodeFrame.take cut) = none := by
  have hwhole := parseFrame_encodeFrame f []
  rw [List.append_nil, ← List.take_append_drop cut f.encodeFrame] at hwhole
  refine extends_parseFrame.eq_none hwhole fun hnil => ?_
  have hlength := List.length_drop (i := cut) (l := f.encodeFrame)
  rw [hnil, List.length_nil] at hlength
  omega

/-- Of the encodings of frames, cut after any number of bytes and read in chunks of any sizes, the
frames that are complete are read, in order, until the connection is closed. -/
theorem readFrames_take (frames : List Frame) : ∀ (cut : ℕ) (sizes : ℕ → ℕ),
    readFrames ⟨((frames.map Frame.encodeFrame).flatten).take cut, sizes⟩ =
      (completeFrames frames cut).map Frame.contents := by
  have hnothing : ∀ sizes, readFrames ⟨[], sizes⟩ = [] := fun sizes =>
    readFrames_of_none rfl
  induction frames with
  | nil =>
    intro cut sizes
    simpa [completeFrames] using hnothing sizes
  | cons f frames ih =>
    intro cut sizes
    simp only [List.map_cons, List.flatten_cons, completeFrames]
    split
    · next hle =>
      rw [List.take_append, List.take_of_length_le hle]
      obtain ⟨sizes', hread⟩ := readFrames_of_some (s := ⟨_, sizes⟩) (parseFrame_encodeFrame f _)
      rw [hread, ih, List.map_cons]
    · next hlt =>
      rw [List.take_append_of_le_length (by omega)]
      exact readFrames_of_none (parseFrame_part f (by omega))

/-- All frames are complete in all bytes. -/
theorem completeFrames_length (frames : List Frame) :
    completeFrames frames (frames.map Frame.encodeFrame).flatten.length = frames := by
  induction frames with
  | nil => rfl
  | cons f frames ih =>
    rw [List.map_cons, List.flatten_cons, List.length_append, completeFrames,
      if_pos (Nat.le_add_right _ _), Nat.add_sub_cancel_left, ih]

/-- For every list of frames, whatever their masks, and whatever the sizes of the chunks in which the
stream of their encodings is read, the reader returns the opcodes and payloads of the frames in order
until the connection is closed; on a stream that is cut anywhere it returns those of the frames that
are complete. -/
theorem readFrames_encodeFrame (frames : List Frame) (sizes : ℕ → ℕ) :
    readFrames ⟨(frames.map Frame.encodeFrame).flatten, sizes⟩ = frames.map Frame.contents ∧
      ∀ cut, readFrames ⟨((frames.map Frame.encodeFrame).flatten).take cut, sizes⟩ =
        (completeFrames frames cut).map Frame.contents := by
  constructor
  · have hall := readFrames_take frames (frames.map Frame.encodeFrame).flatten.length sizes
    rwa [List.take_length, completeFrames_length] at hall
  · exact fun cut => readFrames_take frames cut sizes

end PalmEngine.Websocket
