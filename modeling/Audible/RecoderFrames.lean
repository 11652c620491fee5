import Audible.RecoderCrypt

set_option autoImplicit false

/- The frames that `recode` writes when it speeds a stream up or slows it down, and the values
of those it inserts. -/
namespace Audible.Recoder

/-- The sample at `k` of `N` steps on the line from `S` to `T`, rounded towards `S`. -/
def lineAt (S T k N : Int) : Int := S + ((T - S) * k).tdiv N

/-- `getInterpolation` computes a sample of the line, which is between its ends. -/
def Interpolates (S T k N : CInt) : Prop :=
  (getInterpolation S T k N).toInt = lineAt S.toInt T.toInt k.toInt N.toInt ∧
    min S.toInt T.toInt ≤ (getInterpolation S T k N).toInt ∧
    (getInterpolation S T k N).toInt ≤ max S.toInt T.toInt

/-- The product that is divided is an `int`. -/
def ProductFits (S T k : CInt) : Prop :=
  -(2 ^ 31 : Int) ≤ (T.toInt - S.toInt) * k.toInt ∧ (T.toInt - S.toInt) * k.toInt < 2 ^ 31

instance (S T k : CInt) : Decidable (ProductFits S T k) := inferInstanceAs (Decidable (_ ∧ _))

/-- A truncated quotient and its remainder, which has the sign of the dividend. -/
theorem tdiv_remainder (p N : Int) (positive : 0 < N) :
    ∃ r, p = N * p.tdiv N + r ∧ -N < r ∧ r < N ∧ (0 ≤ p → 0 ≤ r) ∧ (p ≤ 0 → r ≤ 0) := by
  refine ⟨p.tmod N, (Int.mul_tdiv_add_tmod p N).symm, ?_, Int.tmod_lt_of_pos p positive,
    Int.tmod_nonneg N, fun nonpos => ?_⟩
  · exact Int.lt_tmod_of_pos p positive
  · have flipped := Int.tmod_nonneg N (show 0 ≤ -p by omega)
    rw [Int.neg_tmod] at flipped
    omega

theorem tdiv_le_of_lt (D k N : Int) (nonneg : 0 ≤ D) (step : 0 ≤ k) (before : k < N) :
    0 ≤ (D * k).tdiv N ∧ (D * k).tdiv N ≤ D := by
  have product : 0 ≤ D * k := Int.mul_nonneg nonneg step
  have short : D * k ≤ D * N := Int.mul_le_mul_of_nonneg_left (by omega) nonneg
  rw [Int.tdiv_eq_ediv_of_nonneg product]
  exact ⟨Int.ediv_nonneg product (by omega), Int.ediv_le_of_le_mul (by omega) short⟩

/-- The line stays between its ends. -/
theorem lineAt_between (S T k N : Int) (step : 0 ≤ k) (before : k < N) :
    min S T ≤ lineAt S T k N ∧ lineAt S T k N ≤ max S T := by
  unfold lineAt
  rcases Int.le_total S T with up | down
  · have rise := tdiv_le_of_lt (T - S) k N (by omega) step before
    omega
  · have fall := tdiv_le_of_lt (S - T) k N (by omega) step before
    rw [show (T - S) * k = -((S - T) * k) by ring, Int.neg_tdiv]
    omega

theorem toInt_sub_mul (S T k : CInt) :
    ((T - S) * k).toInt = ((T.toInt - S.toInt) * k.toInt).bmod (2 ^ 32) := by
  rw [BitVec.toInt_mul, BitVec.toInt_sub, Int.bmod_mul_bmod]

/-- The quotient of the product as it is kept in an `int`. -/
theorem getInterpolation_toInt (S T k N : CInt) :
    (getInterpolation S T k N).toInt = (S.toInt +
      (((T.toInt - S.toInt) * k.toInt).bmod (2 ^ 32)).tdiv N.toInt).bmod (2 ^ 32) := by
  rw [getInterpolation, BitVec.toInt_add, BitVec.toInt_sdiv, toInt_sub_mul, Int.add_bmod_bmod]

/-- A product that wraps is off by a multiple of `2 ^ 32`, which a factor up to 1024 does not
hide: the quotients differ, and by less than `2 ^ 32`. -/
theorem tdiv_wrapped_ne (p w N : Int) (few : 2 ≤ N ∧ N ≤ 1024)
    (product : -((2 ^ 32 - 1) * (N - 1)) ≤ p ∧ p ≤ (2 ^ 32 - 1) * (N - 1))
    (kept : -(2 ^ 31) ≤ w ∧ w < 2 ^ 31) (off : (2 ^ 32 : Int) ∣ p - w) (wraps : p ≠ w) :
    ¬ (2 ^ 32 : Int) ∣ p.tdiv N - w.tdiv N := by
  obtain ⟨r, exact, below, above, -⟩ := tdiv_remainder p N (by omega)
  obtain ⟨s, kept', below', above', -⟩ := tdiv_remainder w N (by omega)
  generalize p.tdiv N = q at *
  generalize w.tdiv N = v at *
  have difference : p - w = N * (q - v) + (r - s) := by rw [exact, kept']; ring
  rintro ⟨m, apart⟩
  rw [apart] at difference
  obtain ⟨d, off⟩ := off
  have same : d = N * m := by
    rw [show N * (2 ^ 32 * m) = 2 ^ 32 * (N * m) by ring] at difference
    omega
  rcases Int.lt_trichotomy m 0 with neg | zero | pos
  · have far : N * m ≤ N * -1 := Int.mul_le_mul_of_nonneg_left (by omega) (by omega)
    omega
  · rw [zero, Int.mul_zero] at same
    omega
  · have far : N * 1 ≤ N * m := Int.mul_le_mul_of_nonneg_left (by omega) (by omega)
    omega

theorem product_bounds {D k N m : Int} (below : -m ≤ D) (above : D ≤ m) (step : 0 ≤ k)
    (before : k < N) : -(m * (N - 1)) ≤ D * k ∧ D * k ≤ m * (N - 1) := by
  have most : m * k ≤ m * (N - 1) := Int.mul_le_mul_of_nonneg_left (by omega) (by omega)
  have high : D * k ≤ m * k := Int.mul_le_mul_of_nonneg_right above step
  have low : -m * k ≤ D * k := Int.mul_le_mul_of_nonneg_right below step
  rw [Int.neg_mul] at low
  omega

theorem interpolates_iff (S T k N : CInt) (few : 2 ≤ N.toInt ∧ N.toInt ≤ 1024)
    (step : 1 ≤ k.toInt ∧ k.toInt < N.toInt) : Interpolates S T k N ↔ ProductFits S T k := by
  have line := lineAt_between S.toInt T.toInt k.toInt N.toInt (by omega) step.2
  have sRange := S.toInt_lt
  have sLower := S.le_toInt
  have tRange := T.toInt_lt
  have tLower := T.le_toInt
  unfold Interpolates ProductFits
  rw [getInterpolation_toInt]
  constructor
  · rintro ⟨exact, -⟩
    by_contra wide
    have kept := @Int.bmod_lt ((T.toInt - S.toInt) * k.toInt) (2 ^ 32) (by decide)
    have kept' := @Int.le_bmod ((T.toInt - S.toInt) * k.toInt) (2 ^ 32) (by decide)
    have off := @Int.dvd_self_sub_bmod ((T.toInt - S.toInt) * k.toInt) (2 ^ 32)
    have wrapped := @Int.dvd_self_sub_bmod (S.toInt +
      (((T.toInt - S.toInt) * k.toInt).bmod (2 ^ 32)).tdiv N.toInt) (2 ^ 32)
    rw [exact, lineAt] at wrapped
    refine tdiv_wrapped_ne ((T.toInt - S.toInt) * k.toInt)
      (((T.toInt - S.toInt) * k.toInt).bmod (2 ^ 32)) N.toInt few ?_ (by omega) off (by omega)
      (by omega)
    exact product_bounds (by omega) (by omega) (by omega) step.2
  · intro fits
    have self : ((T.toInt - S.toInt) * k.toInt).bmod (2 ^ 32) = (T.toInt - S.toInt) * k.toInt :=
      Int.bmod_eq_of_le (by omega) (by omega)
    have inside : (lineAt S.toInt T.toInt k.toInt N.toInt).bmod (2 ^ 32) =
        lineAt S.toInt T.toInt k.toInt N.toInt := Int.bmod_eq_of_le (by omega) (by omega)
    rw [self, show S.toInt + ((T.toInt - S.toInt) * k.toInt).tdiv N.toInt =
      lineAt S.toInt T.toInt k.toInt N.toInt from rfl, inside]
    exact ⟨rfl, line⟩

/-- Interpolation between samples is exact where the product of their difference with the step
fits an `int`, as it does for samples of one or two bytes. -/
theorem interpolation_exact_iff (width : Nat) (S T k N : CInt) (sRange : InRange width S)
    (tRange : InRange width T) (few : 2 ≤ N.toInt ∧ N.toInt ≤ 1024)
    (step : 1 ≤ k.toInt ∧ k.toInt < N.toInt) :
    (Interpolates S T k N ↔ ProductFits S T k) ∧ (width ≤ 2 → ProductFits S T k) := by
  refine ⟨interpolates_iff S T k N few step, fun narrow => ?_⟩
  have bound : ((256 ^ width : Nat) : Int) ≤ 65536 := by
    have most : 256 ^ width ≤ 256 ^ 2 := Nat.pow_le_pow_right (by decide) narrow
    exact_mod_cast most
  unfold InRange at sRange tRange
  have bounds := @product_bounds (T.toInt - S.toInt) k.toInt N.toInt 65535 (by omega) (by omega)
    (by omega) step.2
  unfold ProductFits
  omega

/-- The full range of 24-bit samples, halfway. -/
theorem interpolation_exact_half :
    (Interpolates (-8388608) 8388607 1 2 ↔ ProductFits (-8388608) 8388607 1) ∧
      ((3 : Nat) ≤ 2 → ProductFits (-8388608) 8388607 1) :=
  interpolation_exact_iff 3 (-8388608) 8388607 1 2 (by unfold InRange; decide)
    (by unfold InRange; decide) (by decide) (by decide)

/-- The last step but one of two hundred over the same range is far outside of it. -/
theorem interpolation_wraps :
    ¬ ∀ (width : Nat) (S T k N : CInt), 1 ≤ width → width ≤ 4 → InRange width S →
      InRange width T → 2 ≤ N.toInt ∧ N.toInt ≤ 1024 → 1 ≤ k.toInt ∧ k.toInt < N.toInt →
      Interpolates S T k N := by
  intro exact
  have same := (exact 3 (-8388608) 8388607 199 200 (by decide) (by decide)
    (by unfold InRange; decide) (by unfold InRange; decide) (by decide) (by decide)).1
  exact absurd same (by decide)

/-- The frames at the multiples of `N`, counted from `i`. -/
def everyNth {α : Type} (N i : Nat) (frames : List α) : List α :=
  ((frames.zipIdx i).filter fun frame => N ∣ frame.2).map Prod.fst

/-- The `N - 1` frames between `S` and `T`. -/
def insertedFrames (N : CInt) (S T : List CInt) : List (List CInt) :=
  (List.range' 1 (N.toInt - 1).toNat).map fun k => interpolateFrame S T (BitVec.ofNat 32 k) N

/-- The first frame, and each later one with those inserted before it. -/
def slowedDown (N : CInt) : List (List CInt) → List (List CInt)
  | [] => []
  | S :: frames =>
      S :: ((S :: frames).zip frames).flatMap fun pair =>
        insertedFrames N pair.1 pair.2 ++ [pair.2]

/-- What the modes `-u` and `-d` make of the frames. -/
def recodedFrames (mode : List Byte) (N : CInt) (frames : List (List CInt)) : List (List CInt) :=
  if mode = flag 0x75#8 then everyNth N.toInt.natAbs 0 frames else slowedDown N frames

@[simp] theorem everyNth_nil {α : Type} (N i : Nat) : everyNth N i ([] : List α) = [] := rfl

theorem everyNth_cons {α : Type} (N i : Nat) (frame : α) (frames : List α) :
    everyNth N i (frame :: frames) =
      if N ∣ i then frame :: everyNth N (i + 1) frames else everyNth N (i + 1) frames := by
  unfold everyNth
  rw [List.zipIdx_cons, List.filter_cons]
  split <;> simp_all

theorem slowedDown_cons (N : CInt) (S T : List CInt) (frames : List (List CInt)) :
    slowedDown N (S :: T :: frames) = S :: insertedFrames N S T ++ slowedDown N (T :: frames) := by
  simp [slowedDown]

@[simp] theorem writeFrames_nil (channels width : Nat) : writeFrames [] channels width = [] := rfl

theorem writeFrames_cons (frame : List CInt) (frames : List (List CInt)) (channels width : Nat) :
    writeFrames (frame :: frames) channels width =
      writeFrame frame channels width ++ writeFrames frames channels width := by
  rw [writeFrames, List.flatMap_cons, writeFrames]

theorem writeFrames_append (frames more : List (List CInt)) (channels width : Nat) :
    writeFrames (frames ++ more) channels width =
      writeFrames frames channels width ++ writeFrames more channels width := by
  rw [writeFrames, List.flatMap_append, writeFrames, writeFrames]

/-- Every round of a speed-up reads one frame, and writes it if its index says so. -/
theorem speedUp_recodeFrames (options : Options) (header : AudioHeader) (frames : CInt)
    (speeds : isSpeedUp options = true) (remaining i : Nat) (short : i + remaining < 2 ^ 31)
    (s : Stream) :
    let read := readFrames header.channelCount header.sampleWidth remaining s.input
    let final := recodeFrames options header frames remaining (BitVec.ofNat 32 i) s
    final.input = read.2 ∧
      final.output = s.output ++ writeFrames
        (everyNth (getFactor options).toInt.natAbs i read.1) header.channelCount
        header.sampleWidth := by
  induction remaining generalizing i s with
  | zero => simp [recodeFrames, readFrames]
  | succ remaining ih =>
      have kept := srem_getFactor_iff options i (by omega)
      have unread : (speedUp options header (BitVec.ofNat 32 i) s).input =
          (readFrame header.channelCount header.sampleWidth s.input).2 := by
        unfold speedUp
        dsimp only
        split <;> rfl
      have written : (speedUp options header (BitVec.ofNat 32 i) s).output = s.output ++
          if (getFactor options).toInt.natAbs ∣ i then
            writeFrame (readFrame header.channelCount header.sampleWidth s.input).1
              header.channelCount header.sampleWidth
          else [] := by
        unfold speedUp
        simp only [kept]
        split <;> simp [Stream.write]
      have rest := ih (i + 1) (by omega) (speedUp options header (BitVec.ofNat 32 i) s)
      dsimp only at rest ⊢
      rw [unread] at rest
      rw [recodeFrames, recodeFrame, speeds, if_pos rfl, ofNat_next, readFrames]
      refine ⟨rest.1, ?_⟩
      rw [rest.2, written, everyNth_cons, List.append_assoc]
      split
      · rw [writeFrames_cons]
      · rfl

/-- The frame at hand when a round of slowing down writes: the first round reads it. -/
def loaded (header : AudioHeader) (i : CInt) (s : Stream) : Stream :=
  let first := readFrame header.channelCount header.sampleWidth s.input
  if i = 0 then { s with input := first.2, frame := first.1 } else s

theorem insertFrames_eq (header : AudioHeader) (S T : List CInt) (N : CInt) (remaining k : Nat)
    (s : Stream) :
    insertFrames header S T N remaining (BitVec.ofNat 32 k) s = { s with
      output := s.output ++ writeFrames ((List.range' k remaining).map fun j =>
        interpolateFrame S T (BitVec.ofNat 32 j) N) header.channelCount header.sampleWidth } := by
  induction remaining generalizing k s with
  | zero => simp [insertFrames]
  | succ remaining ih =>
      rw [insertFrames, ofNat_next, ih, List.range'_succ, List.map_cons, writeFrames_cons,
        ← List.append_assoc]
      rfl

/-- A round with another frame to come writes the frame at hand, reads the next one, and writes
those between the two. -/
theorem slowDown_next (options : Options) (header : AudioHeader) (i frames : CInt) (s : Stream)
    (more : (i + 1).slt frames = true) :
    slowDown options header i frames s =
      let S := loaded header i s
      let T := readFrame header.channelCount header.sampleWidth S.input
      { S with
        input := T.2
        output := S.output ++ writeFrames
          (S.frame :: insertedFrames (getFactor options) S.frame T.1) header.channelCount
          header.sampleWidth
        frame := T.1 } := by
  let S := loaded header i s
  let T := readFrame header.channelCount header.sampleWidth S.input
  have inserts := insertFrames_eq header S.frame T.1 (getFactor options)
    ((getFactor options).toInt - 1).toNat 1 { S.write header S.frame with input := T.2 }
  unfold slowDown
  dsimp only
  rw [if_pos (by exact more)]
  refine (congrArg (fun final : Stream => { final with frame := T.1 }) inserts).trans ?_
  dsimp only
  rw [writeFrames_cons, ← List.append_assoc]
  rfl

/-- The last round writes the frame at hand. -/
theorem slowDown_last (options : Options) (header : AudioHeader) (i frames : CInt) (s : Stream)
    (last : (i + 1).slt frames = false) :
    slowDown options header i frames s =
      (loaded header i s).write header (loaded header i s).frame := by
  unfold slowDown
  dsimp only
  rw [if_neg (by rw [last]; exact Bool.false_ne_true)]
  rfl

/-- From the round of the frame at hand on, the frames still unread are read, and all of them are
written with those between them. -/
theorem slowDown_recodeFrames (options : Options) (header : AudioHeader) (n : Nat)
    (other : isSpeedUp options = false) (slows : isSlowDown options = true) (short : n < 2 ^ 31)
    (remaining i : Nat) (left : i + (remaining + 1) = n) (s : Stream) :
    let S := loaded header (BitVec.ofNat 32 i) s
    let read := readFrames header.channelCount header.sampleWidth remaining S.input
    let final := recodeFrames options header (BitVec.ofNat 32 n) (remaining + 1)
      (BitVec.ofNat 32 i) s
    final.input = read.2 ∧
      final.output = S.output ++ writeFrames
        (slowedDown (getFactor options) (S.frame :: read.1)) header.channelCount
        header.sampleWidth := by
  have round : ∀ (rest : Nat) (i : CInt) (s : Stream),
      recodeFrames options header (BitVec.ofNat 32 n) (rest + 1) i s =
        recodeFrames options header (BitVec.ofNat 32 n) rest (i + 1)
          (slowDown options header i (BitVec.ofNat 32 n) s) := by
    intro rest i s
    rw [recodeFrames, recodeFrame, other, slows, if_neg Bool.false_ne_true, if_pos rfl]
  induction remaining generalizing i s with
  | zero =>
      have last := next_slt i n (by omega) short
      rw [decide_eq_false (by omega)] at last
      rw [round, recodeFrames, slowDown_last options header _ _ s last]
      simp [readFrames, slowedDown, writeFrames, Stream.write]
  | succ remaining ih =>
      have another := next_slt i n (by omega) short
      rw [decide_eq_true (by omega)] at another
      have later : BitVec.ofNat 32 (i + 1) ≠ 0 := by
        intro zero
        have value := congrArg BitVec.toNat zero
        rw [BitVec.toNat_ofNat, show (0 : CInt).toNat = 0 from rfl] at value
        omega
      have rest := ih (i + 1) (by omega) (slowDown options header (BitVec.ofNat 32 i)
        (BitVec.ofNat 32 n) s)
      dsimp only at rest ⊢
      rw [loaded, if_neg later, slowDown_next options header _ _ s another] at rest
      dsimp only at rest
      rw [round, ofNat_next, slowDown_next options header _ _ s another, readFrames]
      refine ⟨rest.1, ?_⟩
      rw [rest.2, slowedDown_cons, writeFrames_append, List.append_assoc]

def recodeStream (options : Options) (header : AudioHeader) (frames : CInt) (input : List Byte) :
    Stream :=
  recodeFrames options header frames frames.toInt.toNat 0
    { input := input, output := [], next := mysrand (getKey options), frame := [] }

theorem recodeData_eq (options : Options) (header : AudioHeader) (frames : CInt)
    (input : List Byte) :
    recodeData options header frames input = (recodeStream options header frames input).output :=
  rfl

/-- The number of frames that a header announces. -/
def AudioHeader.frameTotal (header : AudioHeader) : Nat :=
  header.dataSize.toNat / (frameSize header).toNat

/-- The frames that `read_frame` decodes from the data, and what follows them. -/
def AudioHeader.inputFrames (header : AudioHeader) (data : List Byte) :
    List (List CInt) × List Byte :=
  readFrames header.channelCount header.sampleWidth header.frameTotal data

/-- What is written after a header and the annotation it announces are the recoded frames, and the
loop has read each input frame once. -/
def FramesEmitted (mode : List Byte) (options : Options) (header : AudioHeader)
    (data out : List Byte) : Prop :=
  ∃ (sized : AudioHeader) (notes : List Byte),
    out = writeHeader sized ++ notes ++ writeFrames
      (recodedFrames mode (getFactor options) (header.inputFrames data).1) header.channelCount
      header.sampleWidth ∧
    sized.dataOffset.toNat = 24 + notes.length ∧
    (recodeStream options sized (frameCount header) data).input = (header.inputFrames data).2

/-- Below `2 ^ 31` frames the loop makes of them what it should. -/
theorem recodeStream_eq {options : Options} {mode : List Byte} (header : AudioHeader) (n : Nat)
    (short : n < 2 ^ 31) (up : isSpeedUp options = decide (mode = flag 0x75#8))
    (slow : isSlowDown options = decide (mode = flag 0x64#8))
    (speeds : mode = flag 0x75#8 ∨ mode = flag 0x64#8) (data : List Byte) :
    let read := readFrames header.channelCount header.sampleWidth n data
    let final := recodeStream options header (BitVec.ofNat 32 n) data
    final.input = read.2 ∧ final.output = writeFrames
      (recodedFrames mode (getFactor options) read.1) header.channelCount header.sampleWidth := by
  have rounds : (BitVec.ofNat 32 n).toInt.toNat = n := by
    rw [toInt_ofNat_of_lt n short, Int.toNat_natCast]
  unfold recodeStream recodedFrames
  dsimp only
  rw [rounds]
  by_cases faster : mode = flag 0x75#8
  · rw [decide_eq_true faster] at up
    have final := speedUp_recodeFrames options header (BitVec.ofNat 32 n) up n 0 (by omega)
      { input := data, output := [], next := mysrand (getKey options), frame := [] }
    rw [if_pos faster]
    simpa using final
  · rw [decide_eq_false faster] at up
    rw [decide_eq_true (speeds.resolve_left faster)] at slow
    rw [if_neg faster]
    cases n with
    | zero => simp [recodeFrames, readFrames, slowedDown]
    | succ n =>
        have final := slowDown_recodeFrames options header (n + 1) up slow short n 0 (by omega)
          { input := data, output := [], next := mysrand (getKey options), frame := [] }
        simpa [loaded, readFrames] using final

/-- The first frame is always written. -/
theorem recodedFrames_cons (mode : List Byte) (N : CInt) (first : List CInt)
    (frames : List (List CInt)) :
    ∃ more, recodedFrames mode N (first :: frames) = first :: more := by
  unfold recodedFrames
  split
  · rw [everyNth_cons, if_pos (Nat.dvd_zero _)]
    exact ⟨_, rfl⟩
  · exact ⟨_, rfl⟩

/-- Some frame is announced: its bytes are among those to be written. -/
theorem writeFrames_recodedFrames_ne_nil {header : AudioHeader} (supported : header.Supported)
    (mode : List Byte) (N : CInt) (data : List Byte) (some : 1 ≤ header.frameTotal) :
    writeFrames (recodedFrames mode N (header.inputFrames data).1) header.channelCount
      header.sampleWidth ≠ [] := by
  obtain ⟨n, total⟩ := Nat.exists_eq_add_of_le some
  rw [AudioHeader.inputFrames, total, Nat.add_comm, readFrames]
  obtain ⟨more, first⟩ := recodedFrames_cons mode N
    (readFrame header.channelCount header.sampleWidth data).1
    (readFrames header.channelCount header.sampleWidth n
      (readFrame header.channelCount header.sampleWidth data).2).1
  have size := writeFrame_length _ _ header.sampleWidth
    (readFrame_length header.channelCount header.sampleWidth data)
  have positive : 0 < header.channelCount * header.sampleWidth :=
    Nat.mul_pos (by rcases supported.channels with one | two <;> omega) supported.positive
  intro empty
  rw [first, writeFrames_cons, List.append_eq_nil_iff] at empty
  rw [empty.1, List.length_nil] at size
  omega

/-- From `2 ^ 31` frames on the counter of the loop is negative. -/
theorem recodeData_many (options : Options) (header sized : AudioHeader) (data : List Byte)
    (many : ¬ header.frameTotal < 2 ^ 31) :
    recodeData options sized (frameCount header) data = [] := by
  have none : rounds (frameCount header) = 0 := by
    rw [rounds_eq, frameCount_toNat]
    exact if_neg many
  rw [rounds] at none
  unfold recodeData
  rw [none]
  rfl

/-- Two outputs with a header and the annotation that it announces have the same data. -/
theorem announced_unique {a b : AudioHeader} {notes notes' data data' : List Byte}
    (same : writeHeader a ++ notes ++ data = writeHeader b ++ notes' ++ data')
    (offset : a.dataOffset.toNat = 24 + notes.length)
    (offset' : b.dataOffset.toNat = 24 + notes'.length) : data = data' := by
  rw [List.append_assoc, List.append_assoc] at same
  have field := (headerField_writeHeader a (notes ++ data)).1
  rw [same, (headerField_writeHeader b (notes' ++ data')).1] at field
  rw [← putCharInt_injective field] at offset
  have tails := (List.append_inj same (by simp)).2
  exact (List.append_inj tails (by omega)).2

theorem framesEmitted_iff {options : Options} {mode : List Byte} {argv : List (List Byte)}
    {input inputNotes data out : List Byte} (up : isSpeedUp options = decide (mode = flag 0x75#8))
    (slow : isSlowDown options = decide (mode = flag 0x64#8))
    (speeds : mode = flag 0x75#8 ∨ mode = flag 0x64#8)
    (read : readAnnotation ((readHeader input).2.1.dataOffset - 24) (readHeader input).2.2 =
      some (inputNotes, data))
    (returned : recode options argv input = some (true, out))
    (some : 1 ≤ (readHeader input).2.1.frameTotal) :
    FramesEmitted mode options (readHeader input).2.1 data out ↔
      (readHeader input).2.1.frameTotal < 2 ^ 31 := by
  obtain ⟨sized, offset, notes, rest, inputNotes', valid, unread, set, start, -, rfl⟩ :=
    recode_output returned
  rw [read, Option.some.injEq, Prod.mk.injEq] at unread
  obtain ⟨-, rfl⟩ := unread
  have same := setNewDataSize_eq set
  constructor
  · rintro ⟨other, notes', written, start', -⟩
    by_contra many
    rw [recodeData_many _ _ _ _ many] at written
    have data := announced_unique written start start'
    exact writeFrames_recodedFrames_ne_nil (supported_of_valid valid) _ _ _ some data.symm
  · intro short
    have count : frameCount (readHeader input).2.1 =
        BitVec.ofNat 32 (readHeader input).2.1.frameTotal := by
      apply BitVec.eq_of_toNat_eq
      rw [frameCount_toNat, BitVec.toNat_ofNat, Nat.mod_eq_of_lt (by omega)]
      rfl
    have final := recodeStream_eq { sized with dataOffset := offset } _ short up slow speeds data
    have channels : ({ sized with dataOffset := offset } : AudioHeader).channelCount =
        (readHeader input).2.1.channelCount := by
      rw [same]
      rfl
    have width : ({ sized with dataOffset := offset } : AudioHeader).sampleWidth =
        (readHeader input).2.1.sampleWidth := by
      rw [same]
      rfl
    dsimp only at final
    rw [channels, width, ← count] at final
    refine ⟨{ sized with dataOffset := offset }, notes, ?_, start, final.1⟩
    rw [recodeData_eq, final.2]
    rfl

/-- `recode` emits the frames it should exactly while their number is an `int`. The factor without
`-f`, which is `-1`, keeps all of them and inserts none. -/
theorem frames_emitted_iff (argv : List Argument) (options : Options)
    (input inputNotes data out : List Byte) (accepted : validargs (bytesOf argv) = (true, options))
    (speeds : argAt (bytesOf argv) 1 = flag 0x75#8 ∨ argAt (bytesOf argv) 1 = flag 0x64#8)
    (read : readAnnotation ((readHeader input).2.1.dataOffset - 24) (readHeader input).2.2 =
      some (inputNotes, data))
    (returned : recode options (bytesOf argv) input = some (true, out))
    (some : 1 ≤ (readHeader input).2.1.frameTotal) :
    FramesEmitted (argAt (bytesOf argv) 1) options (readHeader input).2.1 data out ↔
      (readHeader input).2.1.frameTotal < 2 ^ 31 := by
  have line := (validargs_iff _ (bytesOf_noNul argv) options).mp accepted
  obtain ⟨program, mode, args, same⟩ := line.cons
  rw [same] at line speeds ⊢
  have transforms : mode ≠ flag 0x68#8 := by
    rintro rfl
    rcases speeds with bad | bad <;> exact absurd bad (by simp [argAt, flag])
  obtain ⟨bit, low, modes, word⟩ := line.word transforms
  exact framesEmitted_iff (modes.isSpeedUp word) (modes.isSlowDown word) speeds read returned some

/-- The command line `audible -d -f 2 -p`. -/
def halfAsFast : List Argument :=
  [[0x61#8], flag 0x64#8, flag 0x66#8, [0x32#8], flag 0x70#8].pmap Argument.mk (by decide)

/-- One frame is inserted halfway. -/
theorem frames_emitted_two :
    FramesEmitted (flag 0x64#8) (validargs (bytesOf halfAsFast)).2
      (readHeader (monoStream [10#8, 30#8])).2.1 [10#8, 30#8] (monoStream [10#8, 20#8, 30#8]) := by
  have accepted : validargs (bytesOf halfAsFast) = (true, (validargs (bytesOf halfAsFast)).2) :=
    Prod.ext (by decide) rfl
  have returned : recode (validargs (bytesOf halfAsFast)).2 (bytesOf halfAsFast)
      (monoStream [10#8, 30#8]) = some (true, monoStream [10#8, 20#8, 30#8]) := by
    decide
  exact (frames_emitted_iff halfAsFast _ _ [] [10#8, 30#8] _ accepted (by decide) (by decide)
    returned (by decide)).mpr (by decide)

/-- The header of a mono stream of `2 ^ 31` samples of 8 bits. -/
def longHeader : AudioHeader :=
  { magicNumber := audioMagic, dataOffset := 24, dataSize := 2147483648, encoding := 2
    sampleRate := 8000, channels := 1 }

/-- The command line `audible -u -f 2 -p`. -/
def doubleSpeed : List Argument :=
  [[0x61#8], flag 0x75#8, flag 0x66#8, [0x32#8], flag 0x70#8].pmap Argument.mk (by decide)

section Long

variable (data : List Byte)

theorem readHeader_long : readHeader (writeHeader longHeader ++ data) = (true, longHeader, data) :=
  readHeader_writeHeader longHeader data (by decide) (by decide) (by decide)

theorem readAnnotation_long :
    readAnnotation (longHeader.dataOffset - 24) data = some ([], data) :=
  readAnnotation_append [] data (longHeader.dataOffset - 24) rfl (by decide)

/-- None of its frames is written. -/
theorem recode_long :
    recode (validargs (bytesOf doubleSpeed)).2 (bytesOf doubleSpeed)
        (writeHeader longHeader ++ data) =
      some (true, writeHeader { longHeader with dataSize := 3221225473 }) := by
  have preserves : isPreserve (validargs (bytesOf doubleSpeed)).2 = true := by decide
  have sized : setNewDataSize (validargs (bytesOf doubleSpeed)).2 longHeader
      (frameSize longHeader) (frameCount longHeader) =
        some { longHeader with dataSize := 3221225473 } := by
    decide
  have none := recodeData_many (validargs (bytesOf doubleSpeed)).2 longHeader
    { longHeader with dataSize := 3221225473 } data (by decide)
  unfold recode
  rw [readHeader_long]
  dsimp only
  rw [readAnnotation_long]
  simp only [Bool.not_true, Bool.false_eq_true, if_false, preserves, if_true, sized,
    Option.bind_eq_bind, Option.bind_some, none, List.append_nil]
  rfl

end Long

/-- Whatever is read, what is written of a stream of `2 ^ 31` frames is empty. -/
theorem frames_not_emitted :
    ¬ ∀ (argv : List Argument) (options : Options) (input inputNotes data out : List Byte),
      validargs (bytesOf argv) = (true, options) →
      argAt (bytesOf argv) 1 = flag 0x75#8 ∨ argAt (bytesOf argv) 1 = flag 0x64#8 →
      1 ≤ (getFactor options).toInt →
      readAnnotation ((readHeader input).2.1.dataOffset - 24) (readHeader input).2.2 =
        some (inputNotes, data) →
      recode options (bytesOf argv) input = some (true, out) →
      1 ≤ (readHeader input).2.1.frameTotal →
      FramesEmitted (argAt (bytesOf argv) 1) options (readHeader input).2.1 data out := by
  intro emitted
  have accepted : validargs (bytesOf doubleSpeed) = (true, (validargs (bytesOf doubleSpeed)).2) :=
    Prod.ext (by decide) rfl
  have returned := recode_long (List.replicate (2 ^ 31) 0#8)
  have header := readHeader_long (List.replicate (2 ^ 31) 0#8)
  have notes := readAnnotation_long (List.replicate (2 ^ 31) 0#8)
  generalize List.replicate (2 ^ 31) 0#8 = data at returned header notes
  have read : readAnnotation ((readHeader (writeHeader longHeader ++ data)).2.1.dataOffset - 24)
      (readHeader (writeHeader longHeader ++ data)).2.2 = some ([], data) := by
    rw [header]
    exact notes
  have some : (readHeader (writeHeader longHeader ++ data)).2.1.frameTotal = 2 ^ 31 := by
    rw [header]
    exact (by decide : longHeader.frameTotal = 2 ^ 31)
  have short := (framesEmitted_iff (by decide) (by decide) (.inl rfl) read returned
    (by rw [some]; decide)).mp (emitted doubleSpeed _ _ _ _ _ accepted (by decide) (by decide) read
      returned (by rw [some]; decide))
  rw [some] at short
  exact absurd short (by decide)

end Audible.Recoder
