import Lidar.Header.Stream
import Lidar.Proofs.Header.Block
import Lidar.Proofs.Header.FromBlock
import Lidar.Proofs.Vlr.Record

/-!
# Headers read from a stream

What reading a header establishes about the bytes it took: the block, as many valid records as were
found, and the bytes up to the point data, in this order and without a gap.
-/
namespace Lidar.Header

variable {α : Type}

theorem result_decodeNext_eq_ok {operation : Operation} {decode : Decoder α} {s : Bytes}
    {found : α × Bytes} :
    (decodeNext operation decode s).result = .ok found ↔ decode s = some found := by
  unfold decodeNext
  cases decode s <;> simp

/-- The records were read from the front of a stream, which goes on with the rest. -/
structure TakenFrom (records : List Vlr) (s rest : Bytes) : Prop where
  valid : ∀ v ∈ records, v.Valid
  front : ∃ front, s = front ++ rest ∧ front.length = Vlr.totalSize records

theorem takenFrom_nil (s : Bytes) : TakenFrom [] s s where
  valid := by simp
  front := ⟨[], rfl, rfl⟩

theorem TakenFrom.cons {v : Vlr} {records : List Vlr} {r : Vlr.Record} {s behind rest : Bytes}
    (read : Vlr.Record.decoder s = some (r, behind)) (made : Vlr.ofRecord r = .ok v)
    (later : TakenFrom records behind rest) : TakenFrom (v :: records) s rest := by
  obtain ⟨complete, rfl⟩ := Vlr.Record.inverts.complete read
  obtain ⟨hv, size⟩ := Vlr.valid_of_ofRecord made complete
  obtain ⟨front, rfl, length⟩ := later.front
  constructor
  · exact List.forall_mem_cons.2 ⟨hv, later.valid⟩
  · refine ⟨r.encode ++ front, (List.append_assoc _ _ _).symm, ?_⟩
    rw [List.length_append, Vlr.Record.length_encode, length, size, Vlr.totalSize_cons]

theorem takenFrom_of_decodeRecords {declared start left position : Nat} {records : Vlr.Store}
    {s rest : Bytes} {last : Nat} {all : Vlr.Store}
    (read : (decodeRecords declared start left position records s).result = .ok (last, all, rest)) :
    ∃ found, all.toList = records.toList ++ found ∧ TakenFrom found s rest ∧
      last = position + Vlr.totalSize found := by
  induction left generalizing position records s with
  | zero =>
    cases read
    exact ⟨[], by simp, takenFrom_nil _, rfl⟩
  | succ left ih =>
    unfold decodeRecords at read
    split at read
    · cases read
      exact ⟨[], by simp, takenFrom_nil _, rfl⟩
    · simp only [Traced.result_bind, Traced.result_liftM, Success.bind_eq_ok, Prod.exists,
        result_decodeNext_eq_ok] at read
      obtain ⟨r, behind, hr, v, made, more, pushed, read⟩ := read
      obtain ⟨valid, rfl⟩ := Vlr.Store.push_eq_ok.1 pushed
      obtain ⟨found, whole, taken, rfl⟩ := ih read
      have size := (Vlr.valid_of_ofRecord made (Vlr.Record.inverts.complete hr).1).2
      refine ⟨v :: found, ?_, taken.cons hr made, ?_⟩
      · rw [whole, Vlr.Store.append, List.append_assoc, List.singleton_append]
      · rw [size, Vlr.totalSize_cons, Nat.add_assoc]

theorem result_decode_eq_ok {s : Bytes} {h : Header} {rest : Bytes} :
    (decode s).result = .ok (h, rest) ↔
      ∃ b behind, Block.decoder s = some (b, behind) ∧
      ∃ first, (ofBlock b).result = .ok first ∧
      ∃ position records left,
        (decodeRecords b.recordCount.toNat b.pointDataStart.toNat b.recordCount.toNat first.size
          .empty behind).result = .ok (position, records, left) ∧
        position ≤ b.pointDataStart.toNat ∧
        ∃ recordPadding,
          Decoder.take (b.pointDataStart.toNat - position) left = some (recordPadding, rest) ∧
          { first with records, recordPadding } = h := by
  unfold decode
  simp only [Traced.result_bind, Success.bind_eq_ok, Prod.exists, result_decodeNext_eq_ok,
    Success.traced_guard_eq_ok]
  refine exists_congr fun b => exists_congr fun behind => and_congr_right fun _ =>
    exists_congr fun first => and_congr_right fun _ => exists_congr fun position =>
    exists_congr fun records => exists_congr fun left => and_congr_right fun _ =>
    and_congr Nat.not_lt ?_
  cases Decoder.take (b.pointDataStart.toNat - position) left with
  | none => simp
  | some found =>
    obtain ⟨recordPadding, points⟩ := found
    simp only [Traced.result_bind, Traced.result_sayIf, Traced.result_pure]
    constructor
    · rintro ⟨⟩
      exact ⟨recordPadding, rfl, rfl⟩
    · rintro ⟨_, ⟨⟩, rfl⟩
      rfl

end Lidar.Header
