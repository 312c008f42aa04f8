import Lidar.Header.Basic

/-!
# Codecs

A codec turns point records into compressed bytes and back. It leaves a variable length record in
the header by which it knows its own data again.
-/
namespace Lidar

/-- A way to compress point records. -/
structure Codec where
  /-- Whether a record describes data of this codec. -/
  describes : Vlr → Bool
  /-- The record that describes data of a format. -/
  vlr : Format → Except Error Vlr
  /-- The point records of everything that follows a header. -/
  decode : Header → Bytes → Except Error Bytes
  /-- What is written after a header for point records. -/
  encode : Header → Bytes → Except Error Bytes

end Lidar
