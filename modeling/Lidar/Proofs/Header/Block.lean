import Lidar.Header.Block
import Lidar.Proofs.Wire

/-!
# The header block on the wire

A block has its optional fields exactly when its version has them, and its padding fills it up to
its declared size. Such a block is read back from its bytes, and every block that is read is of
this kind.
-/
namespace Lidar.Header.Block

theorem inverts_axes : Inverts axesDecoder encodeAxes := by
  refine InvertsOn.inverts ?_
  show InvertsOn _ axesDecoder fun a => encodeAxes a
  simp only [encodeAxes, List.append_assoc]
  refine InvertsOn.field inverts_binary64 Axes.x fun x => ?_
  refine InvertsOn.field inverts_binary64 Axes.y fun y => ?_
  refine InvertsOn.last inverts_binary64.on Axes.z (fun _ _ => trivial) fun z _ a => ?_
  cases a
  simp [and_assoc]

theorem inverts_bounds : Inverts boundsDecoder encodeBounds := by
  refine InvertsOn.inverts ?_
  show InvertsOn _ boundsDecoder fun b => encodeBounds b
  simp only [encodeBounds, List.append_assoc]
  refine InvertsOn.field inverts_binary64 (fun b : Bounds => b.max.x) fun maxX => ?_
  refine InvertsOn.field inverts_binary64 (fun b : Bounds => b.min.x) fun minX => ?_
  refine InvertsOn.field inverts_binary64 (fun b : Bounds => b.max.y) fun maxY => ?_
  refine InvertsOn.field inverts_binary64 (fun b : Bounds => b.min.y) fun minY => ?_
  refine InvertsOn.field inverts_binary64 (fun b : Bounds => b.max.z) fun maxZ => ?_
  refine InvertsOn.last inverts_binary64.on (fun b : Bounds => b.min.z) (fun _ _ => trivial)
    fun minZ _ b => ?_
  obtain ⟨⟨_, _, _⟩, ⟨_, _, _⟩⟩ := b
  constructor
  · rintro ⟨⟨⟨⟨⟨⟨-, rfl⟩, rfl⟩, rfl⟩, rfl⟩, rfl⟩, rfl⟩
    rfl
  · rintro ⟨⟩
    exact ⟨⟨⟨⟨⟨⟨trivial, rfl⟩, rfl⟩, rfl⟩, rfl⟩, rfl⟩, rfl⟩

theorem inverts_version : Inverts versionDecoder encodeVersion := by
  refine InvertsOn.inverts ?_
  show InvertsOn _ versionDecoder fun v => encodeVersion v
  simp only [encodeVersion]
  refine InvertsOn.field inverts_u8 Version.major fun major => ?_
  refine InvertsOn.last inverts_u8.on Version.minor (fun _ _ => trivial) fun minor _ v => ?_
  cases v
  simp

theorem inverts_extended : Inverts extendedDecoder encodeExtended := by
  refine InvertsOn.inverts ?_
  show InvertsOn _ extendedDecoder fun e => encodeExtended e
  simp only [encodeExtended]
  refine InvertsOn.field inverts_u64 ExtendedRecords.start fun start => ?_
  refine InvertsOn.last inverts_u32.on ExtendedRecords.count (fun _ _ => trivial) fun count _ e => ?_
  cases e
  simp

theorem inverts_large : Inverts largeDecoder encodeLarge := by
  refine InvertsOn.inverts ?_
  show InvertsOn _ largeDecoder fun c => encodeLarge c
  simp only [encodeLarge]
  refine InvertsOn.field inverts_u64 LargeCounts.points fun points => ?_
  refine InvertsOn.last (inverts_vector inverts_u64 15).on LargeCounts.byReturn (fun _ _ => trivial)
    fun byReturn _ c => ?_
  cases c
  simp

theorem length_encodeVersion (v : Version) : (encodeVersion v).length = 2 := by
  simp only [encodeVersion, List.length_append, Wire.length_u8]

theorem length_encodeAxes (a : Axes Binary64) : (encodeAxes a).length = 24 := by
  simp only [encodeAxes, List.length_append, Wire.length_binary64]

theorem length_encodeBounds (b : Bounds) : (encodeBounds b).length = 48 := by
  simp only [encodeBounds, List.length_append, Wire.length_binary64]

theorem length_encodeExtended (e : ExtendedRecords) : (encodeExtended e).length = 12 := by
  simp [encodeExtended]

theorem length_encodeLarge (c : LargeCounts) : (encodeLarge c).length = 128 := by
  simp [encodeLarge, Wire.length_vector Wire.length_u64]

/-- The block has the fields of its version, and padding up to its declared size. -/
structure Complete (b : Block) : Prop where
  waveforms : b.waveformStart?.isSome = b.version.supports .waveforms
  extendedRecords : b.extendedRecords?.isSome = b.version.supports .extendedRecords
  largeFiles : b.largeCounts?.isSome = b.version.supports .largeFiles
  padding : b.padding.length = b.headerSize.toNat - b.version.headerSize

theorem inverts : InvertsOn Complete decoder encode := by
  show InvertsOn Complete decoder fun b => encode b
  unfold encode
  simp only [List.append_assoc]
  refine InvertsOn.field (inverts_bytes 4) Block.signature fun signature => ?_
  refine InvertsOn.field inverts_u16 Block.fileSourceId fun fileSourceId => ?_
  refine InvertsOn.field inverts_u16 Block.globalEncoding fun globalEncoding => ?_
  refine InvertsOn.field (inverts_bytes 16) Block.guid fun guid => ?_
  refine InvertsOn.field inverts_version Block.version fun version => ?_
  refine InvertsOn.field (inverts_bytes 32) Block.systemIdentifier fun systemIdentifier => ?_
  refine InvertsOn.field (inverts_bytes 32) Block.generatingSoftware fun generatingSoftware => ?_
  refine InvertsOn.field inverts_u16 Block.creationDay fun creationDay => ?_
  refine InvertsOn.field inverts_u16 Block.creationYear fun creationYear => ?_
  refine InvertsOn.field inverts_u16 Block.headerSize fun headerSize => ?_
  refine InvertsOn.field inverts_u32 Block.pointDataStart fun pointDataStart => ?_
  refine InvertsOn.field inverts_u32 Block.recordCount fun recordCount => ?_
  refine InvertsOn.field inverts_u8 Block.pointFormat fun pointFormat => ?_
  refine InvertsOn.field inverts_u16 Block.pointRecordLength fun pointRecordLength => ?_
  refine InvertsOn.field inverts_u32 Block.points fun points => ?_
  refine InvertsOn.field (inverts_vector inverts_u32 5) Block.pointsByReturn fun byReturn => ?_
  refine InvertsOn.field inverts_axes Block.scale fun scale => ?_
  refine InvertsOn.field inverts_axes Block.offset fun offset => ?_
  refine InvertsOn.field inverts_bounds Block.bounds fun bounds => ?_
  -- what follows depends on the version and the declared size, which are known by now
  simp only [and_assoc]
  refine (InvertsOn.when (version.supports .waveforms) inverts_u64 0).bind Block.waveformStart? ?_
    ?_ fun waveformStart? waveforms => ?_
  · rintro b ⟨complete, -, -, -, -, rfl, -⟩
    exact complete.waveforms
  · rintro b ⟨-, -, -, -, -, rfl, -⟩
    rfl
  simp only [and_assoc]
  refine (InvertsOn.when (version.supports .extendedRecords) inverts_extended ⟨0, 0⟩).bind
    Block.extendedRecords? ?_ ?_ fun extendedRecords? extendedRecords => ?_
  · rintro b ⟨complete, -, -, -, -, rfl, -⟩
    exact complete.extendedRecords
  · rintro b ⟨-, -, -, -, -, rfl, -⟩
    rfl
  simp only [and_assoc]
  refine (InvertsOn.when (version.supports .largeFiles) inverts_large .zero).bind
    Block.largeCounts? ?_ ?_ fun largeCounts? largeFiles => ?_
  · rintro b ⟨complete, -, -, -, -, rfl, -⟩
    exact complete.largeFiles
  · rintro b ⟨-, -, -, -, -, rfl, -⟩
    rfl
  simp only [and_assoc]
  refine (InvertsOn.take (headerSize.toNat - version.headerSize)).last Block.padding ?_
    fun padding length b => ?_
  · rintro b ⟨complete, -, -, -, -, rfl, -, -, -, -, rfl, -⟩
    exact complete.padding
  · constructor
    · intro hb
      cases b
      simp_all
    · rintro rfl
      simp only [and_true]
      exact ⟨waveforms, extendedRecords, largeFiles, length⟩

theorem length_encode (b : Block) :
    b.encode.length = b.version.headerSize + b.padding.length := by
  have waveforms := Wire.length_when Wire.length_u64 (b.version.supports .waveforms) 0
    b.waveformStart?
  have extended := Wire.length_when length_encodeExtended (b.version.supports .extendedRecords)
    ⟨0, 0⟩ b.extendedRecords?
  have large := Wire.length_when length_encodeLarge (b.version.supports .largeFiles) .zero
    b.largeCounts?
  have byReturn := Wire.length_vector Wire.length_u32 b.pointsByReturn
  unfold encode
  simp only [List.length_append, waveforms, extended, large, byReturn]
  simp [Version.headerSize, Version.added, Feature.blockSize, encodeVersion, encodeAxes, encodeBounds]

section Widths

open Decoder

theorem takes_axes : Takes axesDecoder 24 := by
  unfold axesDecoder
  exact takes_binary64.bind fun _ => takes_binary64.bind fun _ => takes_binary64.map _

theorem takes_bounds : Takes boundsDecoder 48 := by
  unfold boundsDecoder
  exact takes_binary64.bind fun _ => takes_binary64.bind fun _ => takes_binary64.bind fun _ =>
    takes_binary64.bind fun _ => takes_binary64.bind fun _ => takes_binary64.map _

theorem takes_version : Takes versionDecoder 2 := takes_u8.bind fun _ => takes_u8.map _

theorem takes_extended : Takes extendedDecoder 12 := takes_u64.bind fun _ => takes_u32.map _

theorem takes_large : Takes largeDecoder 128 :=
  takes_u64.bind fun _ => (takes_vector takes_u64 15).map _

theorem suffices_decoder : Suffices 65910 decoder := by
  have fields : Suffices _ decoder :=
    (takes_bytes 4).suffices.bind fun _ => takes_u16.suffices.bind fun _ =>
    takes_u16.suffices.bind fun _ => (takes_bytes 16).suffices.bind fun _ =>
    takes_version.suffices.bind fun version => (takes_bytes 32).suffices.bind fun _ =>
    (takes_bytes 32).suffices.bind fun _ => takes_u16.suffices.bind fun _ =>
    takes_u16.suffices.bind fun _ => takes_u16.suffices.bind fun size =>
    takes_u32.suffices.bind fun _ => takes_u32.suffices.bind fun _ =>
    takes_u8.suffices.bind fun _ => takes_u16.suffices.bind fun _ =>
    takes_u32.suffices.bind fun _ => (takes_vector takes_u32 5).suffices.bind fun _ =>
    takes_axes.suffices.bind fun _ => takes_axes.suffices.bind fun _ =>
    takes_bounds.suffices.bind fun _ => (suffices_when _ takes_u64).bind fun _ =>
    (suffices_when _ takes_extended).bind fun _ => (suffices_when _ takes_large).bind fun _ =>
    ((takes_take (size.toNat - version.headerSize)).map _).suffices.mono
      (Nat.le_trans (Nat.sub_le _ _) (Nat.le_of_lt_succ size.toNat_lt))
  exact fields.mono (by decide)

end Widths

theorem complete_of_decoder {s rest : Bytes} {b : Block} (read : decoder s = some (b, rest)) :
    b.Complete ∧ ∃ front, s = front ++ rest ∧
      front.length = b.version.headerSize + b.padding.length :=
  ⟨(inverts.complete read).1, b.encode, (inverts.complete read).2, length_encode b⟩

end Lidar.Header.Block
