import Audible.RecoderFrames

set_option autoImplicit false

/- When `recode` refuses a stream whose data is cut short or ends within a frame. -/
namespace Audible.Recoder

/-- A stream with a valid header of known size and the annotation it announces; any bytes may
follow. -/
structure Supply where
  header : AudioHeader
  notes : List Byte
  data : List Byte
  valid : validHeader header = true
  offset : header.dataOffset.toNat = 24 + notes.length
  known : header.dataSize ≠ EOF
  annotation : AnnotationAt notes.length notes

def Supply.bytes (supply : Supply) : List Byte :=
  writeHeader supply.header ++ (supply.notes ++ supply.data)

/-- The data is there, and it is a whole number of frames. -/
def Supply.Whole (supply : Supply) : Prop :=
  (frameSize supply.header).toNat ∣ supply.header.dataSize.toNat ∧
    supply.header.dataSize.toNat ≤ supply.data.length

instance (supply : Supply) : Decidable supply.Whole := inferInstanceAs (Decidable (_ ∧ _))

/-- Only a whole stream is recoded, any other one is refused. -/
def RefusesPartial (options : Options) (argv : List (List Byte)) (supply : Supply) : Prop :=
  (∀ out, recode options argv supply.bytes = some (true, out) → supply.Whole) ∧
    (¬ supply.Whole → ∃ out, recode options argv supply.bytes = some (false, out))

def Supply.read (supply : Supply) : AudioHeader :=
  { supply.header with sampleRate := decodeField (putCharInt supply.header.sampleRate) }

theorem Supply.readsHeader (supply : Supply) :
    readHeader supply.bytes = (true, supply.read, supply.notes ++ supply.data) :=
  readHeader_known supply.header _ supply.valid supply.known

theorem Supply.readsNotes (supply : Supply) :
    readAnnotation (supply.read.dataOffset - 24) (supply.notes ++ supply.data) =
      if 255#8 ∉ supply.notes then some (supply.notes, supply.data) else none := by
  have size : (supply.read.dataOffset - 24).toNat = supply.notes.length := by
    have offset : supply.read.dataOffset.toNat = 24 + supply.notes.length := supply.offset
    bv_omega
  rw [readAnnotation_append _ _ _ size supply.annotation.aligned]
  simp only [supply.annotation.short, true_and]

/-- The end of a valid annotation is found in its buffer. -/
theorem Supply.ended (supply : Supply) :
    annotationString supply.notes = some (supply.notes.takeWhile (· ≠ 0#8)) := by
  rw [annotationString_iff supply.annotation.short]
  by_cases empty : supply.notes.length = 0
  · exact .inl (by rw [empty]; decide)
  · exact .inr (List.mem_of_getElem? (supply.annotation.ended (by omega)))

/-- It is refused for a byte 0xff in its annotation only: a new annotation that is too long has been
stored past the end of `output_annotation` before its size is looked at. -/
theorem recode_refuses_iff (options : Options) (argv : List (List Byte)) (supply : Supply) :
    (∃ out, recode options argv supply.bytes = some (false, out)) ↔ 255#8 ∈ supply.notes := by
  unfold recode
  rw [supply.readsHeader]
  dsimp only
  rw [supply.readsNotes]
  by_cases misread : 255#8 ∈ supply.notes
  · simp [misread]
  rw [if_pos misread]
  cases preserves : isPreserve options with
  | true =>
      simp only [misread, Bool.not_true, Bool.false_eq_true, if_false, if_true]
      simp [Option.bind_eq_some_iff]
  | false =>
      simp only [misread, Bool.not_true, Bool.false_eq_true, if_false]
      cases built : getNewAnnotation options argv supply.notes with
      | none => simp
      | some new =>
          by_cases outside : ∃ write ∈ new.2, annotationMax ≤ write.1
          · simp only [Option.bind_eq_bind, Option.bind_some, if_pos outside]
            simp
          · have fits := getNewAnnotation_fits built fun write member =>
              Nat.lt_of_not_le fun past => outside ⟨write, member, past⟩
            simp only [Option.bind_eq_bind, Option.bind_some, if_neg outside,
              if_neg (Nat.not_lt_of_le fits)]
            simp [Option.bind_eq_some_iff]

theorem refusesPartial_iff (options : Options) (argv : List (List Byte)) (supply : Supply) :
    RefusesPartial options argv supply ↔
      supply.Whole ∨ ∃ out, recode options argv supply.bytes = some (false, out) := by
  unfold RefusesPartial
  constructor
  · rintro ⟨-, refuses⟩
    exact or_iff_not_imp_left.mpr refuses
  · rintro (whole | ⟨out, refused⟩)
    · exact ⟨fun _ _ => whole, fun short => absurd whole short⟩
    · refine ⟨fun other returned => ?_, fun _ => ⟨out, refused⟩⟩
      rw [refused] at returned
      cases returned

/-- `read_frame` does not tell the end of the input from data, so a stream that is not whole is
only refused where its annotation is. -/
theorem refuses_partial_iff (options : Options) (argv : List (List Byte)) (supply : Supply) :
    RefusesPartial options argv supply ↔ supply.Whole ∨ 255#8 ∈ supply.notes := by
  rw [refusesPartial_iff, recode_refuses_iff]

/-- Two frames after a header, and the bytes of the given data. -/
def twoFrames (data : List Byte) : Supply where
  header := { magicNumber := audioMagic, dataOffset := 24, dataSize := 2, encoding := 2,
              sampleRate := 8000, channels := 1 }
  notes := []
  data := data
  valid := by decide
  offset := by decide
  known := by decide
  annotation := ⟨by decide, by decide, by decide, by decide⟩

/-- The second frame is missing, and zeros are written for it. -/
theorem accepts_partial :
    ¬ ∀ (argv : List Argument) (options : Options) (supply : Supply),
      validargs (bytesOf argv) = (true, options) → argAt (bytesOf argv) 1 ≠ flag 0x68#8 →
      RefusesPartial options (bytesOf argv) supply := by
  intro refuses
  have whole := (refuses halfAsFast _ (twoFrames [10#8]) (Prod.ext (by decide) rfl)
    (by decide)).1 (monoStream [10#8, 5#8, 0#8]) (by decide)
  exact absurd whole (by decide)

end Audible.Recoder
