import Audible.RecoderArgs
import Audible.RecoderCodec

set_option autoImplicit false

/- The recoder itself (`transformations.c`, `myrand.c`, the annotation half of `audio.c` and
`recode`). Undefined behaviour that the code runs into is `none`: reading an argument past
the end of `argv`, an annotation with no terminator in its buffer, a store outside of
`output_annotation`, and the one signed division that overflows. -/
namespace Audible.Recoder

def annotationMax : Nat := 1024

/-- A store of a byte at an index of an annotation. -/
abbrev Write := Nat × Byte

def myrand (next : BitVec 64) : CInt × BitVec 64 :=
  let next := next * 1103515245 + 12345
  ((next / 65536).setWidth 32 % 32768, next)

/-- The loop of `myrand32` with `i` calls of `myrand` to go. -/
def myrand32From (r : CInt) : Nat → BitVec 64 → CInt × BitVec 64
  | 0, next => (r, next)
  | i + 1, next =>
      let draw := myrand next
      myrand32From (r <<< 8 ||| (draw.1 &&& 0x7fff).sshiftRight 7) i draw.2

def myrand32 (next : BitVec 64) : CInt × BitVec 64 := myrand32From 0 4 next

def mysrand (seed : CInt) : BitVec 64 := seed.setWidth 64

/-- The loop of `read_annotation`: the character is stored in a `char` before it is compared,
so a byte `0xff` also ends the loop. -/
def readAnnotationBytes : Nat → List Byte → Option (List Byte × List Byte)
  | 0, input => some ([], input)
  | size + 1, input =>
      let c := getchar input
      let stored : Byte := c.1.setWidth 8
      if stored.signExtend 32 = EOF then none
      else (readAnnotationBytes size c.2).map fun rest => (stored :: rest.1, rest.2)

/-- The bytes stored at `ap` and the rest of the input, or `none` where 0 is returned. -/
def readAnnotation (size : CInt) (input : List Byte) : Option (List Byte × List Byte) :=
  if size % 8 ≠ 0 ∨ annotationMax < size.toNat then none
  else readAnnotationBytes size.toNat input

/-- The first `size` bytes of a buffer. -/
def writeAnnotation (ap : Nat → Byte) (size : Nat) : List Byte := (List.range size).map ap

/-- A global buffer is zero where nothing has been stored. -/
def buffer (content : List Byte) (index : Nat) : Byte := content[index]?.getD 0

def applyWrites (ap : Nat → Byte) (writes : List Write) : Nat → Byte :=
  writes.foldl (fun ap write index => if index = write.1 then write.2 else ap index) ap

def getArgC (options : Options) : Nat :=
  1 + (if isSpeedUp options || isSlowDown options || isCrypt options then 1 else 0) +
    (if isPreserve options then 1 else 0) +
    (if getKey options ≠ 0 ∨ getFactor options ≠ 0 then 2 else 0)

/-- The stores of `copyString` of `p2` to index `k`; it returns the length of `p2`. -/
def copyString (k : Nat) (p2 : List Byte) : List Write :=
  p2.mapIdx fun i c => (k + i, c)

/-- The first loop of `getNewAnnotation` with `remaining` arguments to go. -/
def copyArgs (argv : List (List Byte)) (argc : Nat) : Nat → Nat → Option (Nat × List Write)
  | 0, k => some (k, [])
  | remaining + 1, k => do
      let i := argc - (remaining + 1)
      let arg ← argv[i]?
      let k' := k + arg.length
      let separator : List Write := if i + 1 < argc then [(k', 0x20#8)] else []
      let rest ← copyArgs argv argc remaining (k' + separator.length)
      return (rest.1, copyString k arg ++ separator ++ rest.2)

/-- The last loop of `getNewAnnotation`, in which `i` and `k` both grow: `remaining` is `8 - i`. -/
def padToEight : Nat → Nat → Nat × List Write
  | 0, k => (k, [])
  | remaining + 1, k =>
      let rest := padToEight remaining (k + 1)
      (rest.1, (k + (8 - (remaining + 1)), 0#8) :: rest.2)

/-- The string at the start of `input_annotation`, if it ends inside the buffer. -/
def annotationString (inputNotes : List Byte) : Option (List Byte) :=
  let string := inputNotes.takeWhile (· ≠ 0#8)
  if string.length < annotationMax then some string else none

/-- The returned size and the stores at `ap`. How long the array there is only the caller knows. -/
def getNewAnnotation (options : Options) (argv : List (List Byte))
    (inputNotes : List Byte) : Option (Nat × List Write) := do
  let argc := getArgC options
  let args ← copyArgs argv argc argc 0
  let newline : Write := (args.1, 0x0a#8)
  let string ← annotationString inputNotes
  let k := args.1 + 1 + sizeOfString string
  let pad := padToEight (8 - k % 8) k
  return (pad.1, args.2 ++ newline :: copyString (args.1 + 1) string ++ pad.2)

/-- What the frame loop carries along: the unread input, the bytes written, the generator
and the frame at `S` (`fp`). -/
structure Stream where
  input : List Byte
  output : List Byte
  next : BitVec 64
  frame : List CInt

/-- `header->channels` and `header->encoding - 1` as the loops count with them. -/
def AudioHeader.channelCount (header : AudioHeader) : Nat := header.channels.toInt.toNat

def AudioHeader.sampleWidth (header : AudioHeader) : Nat := (header.encoding - 1).toInt.toNat

def Stream.write (s : Stream) (header : AudioHeader) (frame : List CInt) : Stream :=
  { s with output := s.output ++ writeFrame frame header.channelCount header.sampleWidth }

/-- Each sample in turn is combined with the next pseudorandom number. -/
def cryptFrame : List CInt → BitVec 64 → List CInt × BitVec 64
  | [], next => ([], next)
  | sample :: frame, next =>
      let draw := myrand32 next
      let rest := cryptFrame frame draw.2
      ((sample ^^^ draw.1) :: rest.1, rest.2)

def crypt (header : AudioHeader) (s : Stream) : Stream :=
  let read := readFrame header.channelCount header.sampleWidth s.input
  let out := cryptFrame read.1 s.next
  { s with input := read.2, next := out.2, frame := read.1 }.write header out.1

def speedUp (options : Options) (header : AudioHeader) (i : CInt) (s : Stream) : Stream :=
  let read := readFrame header.channelCount header.sampleWidth s.input
  let s := { s with input := read.2, frame := read.1 }
  if i.srem (getFactor options) = 0 then s.write header read.1 else s

def getInterpolation (S T k N : CInt) : CInt := S + ((T - S) * k).sdiv N

/-- The `k`-th frame inserted between `S` and `T`. -/
def interpolateFrame (S T : List CInt) (k N : CInt) : List CInt :=
  List.zipWith (fun s t => getInterpolation s t k N) S T

/-- The loop `for (k = 1; k < factor; k++)` with `remaining` rounds to go. -/
def insertFrames (header : AudioHeader) (S T : List CInt) (N : CInt) : Nat → CInt → Stream → Stream
  | 0, _, s => s
  | remaining + 1, k, s =>
      insertFrames header S T N remaining (k + 1) (s.write header (interpolateFrame S T k N))

def slowDown (options : Options) (header : AudioHeader) (i frames : CInt) (s : Stream) : Stream :=
  let factor := getFactor options
  let first := readFrame header.channelCount header.sampleWidth s.input
  let s := if i = 0 then { s with input := first.2, frame := first.1 } else s
  let s := s.write header s.frame
  if (i + 1).slt frames then
    let T := readFrame header.channelCount header.sampleWidth s.input
    let inserted := insertFrames header s.frame T.1 factor (factor.toInt - 1).toNat 1
      { s with input := T.2 }
    { inserted with frame := T.1 }
  else s

/-- `none` is the division of `INT_MIN` by `-1`. -/
def setNewDataSize (options : Options) (header : AudioHeader) (frameSize frames : CInt) :
    Option AudioHeader :=
  if isSlowDown options then
    some { header with dataSize := (frames + (getFactor options - 1) * (frames - 1)) * frameSize }
  else if isSpeedUp options then
    if frames = BitVec.intMin 32 ∧ getFactor options = -1 then none
    else some { header with dataSize := (frames.sdiv (getFactor options) + 1) * frameSize }
  else some header

def recodeFrame (options : Options) (header : AudioHeader) (frames i : CInt) (s : Stream) : Stream :=
  if isSpeedUp options then speedUp options header i s
  else if isSlowDown options then slowDown options header i frames s
  else if isCrypt options then crypt header s
  else s

/-- The frame loop with `remaining` rounds to go. -/
def recodeFrames (options : Options) (header : AudioHeader) (frames : CInt) :
    Nat → CInt → Stream → Stream
  | 0, _, s => s
  | remaining + 1, i, s =>
      recodeFrames options header frames remaining (i + 1) (recodeFrame options header frames i s)

def frameSize (header : AudioHeader) : CInt := header.channels * (header.encoding - 1)

def frameCount (header : AudioHeader) : CInt := header.dataSize / frameSize header

/-- The bytes written by the frame loop. -/
def recodeData (options : Options) (header : AudioHeader) (frames : CInt) (input : List Byte) :
    List Byte :=
  (recodeFrames options header frames frames.toInt.toNat 0
    { input := input, output := [], next := mysrand (getKey options), frame := [] }).output

/-- The returned flag and the bytes written. -/
def recode (options : Options) (argv : List (List Byte)) (input : List Byte) :
    Option (Bool × List Byte) :=
  let read := readHeader input
  let header := read.2.1
  if !read.1 then some (false, [])
  else
    match readAnnotation (header.dataOffset - 24) read.2.2 with
    | none => some (false, [])
    | some (notes, input) =>
        let frames := frameCount header
        if isPreserve options then do
          let header ← setNewDataSize options header (frameSize header) frames
          return (true, writeHeader header ++
            writeAnnotation (buffer notes) (header.dataOffset - 24).toNat ++
            recodeData options header frames input)
        else do
          let new ← getNewAnnotation options argv notes
          if ∃ write ∈ new.2, annotationMax ≤ write.1 then none
          else if annotationMax < new.1 then return (false, [])
          else
            let header ← setNewDataSize options header (frameSize header) frames
            let header := { header with dataOffset := 24 + BitVec.ofNat 32 new.1 }
            return (true, writeHeader header ++
              writeAnnotation (applyWrites (buffer []) new.2) new.1 ++
              recodeData options header frames input)

end Audible.Recoder
