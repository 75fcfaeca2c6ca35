import EdhocLab.Coap.Packet
import EdhocLab.Proofs.Outcome

/-! # Packets on the wire

A packet is read back from its bytes, options and payload included, if what it says about its
token is right and its options are in order.
-/
namespace EdhocLab.Coap

/-- Deltas and lengths from here on have no extension. -/
def extensionLimit : Nat := 65805

section Extension

variable {n : Nat}

theorem extension_fst_lt (n : Nat) : (extension n).1 < 15 := by
  unfold extension
  split
  · omega
  · split <;> simp

theorem length_extension_le (n : Nat) : (extension n).2.length ≤ 2 := by
  unfold extension
  split
  · exact Nat.zero_le 2
  · split <;> simp

/-- Larger numbers do not need less room. -/
theorem length_extension_mono {m n : Nat} (h : m ≤ n) :
    (extension m).2.length ≤ (extension n).2.length := by
  unfold extension
  by_cases hn : n < 13
  · simp [hn, show m < 13 by omega]
  · by_cases hn' : n < 269
    · by_cases hm : m < 13 <;> simp [hm, hn, hn', show m < 269 by omega]
    · by_cases hm : m < 13
      · simp [hm, hn, hn']
      · by_cases hm' : m < 269 <;> simp [hm, hm', hn, hn']

theorem readExtension_extension (h : n < extensionLimit) (reserved : Error) (rest : Bytes) :
    readExtension reserved (extension n).1 ((extension n).2 ++ rest) = .ok (n, rest) := by
  have hn : n < 65805 := h
  unfold extension
  by_cases h13 : n < 13
  · simp [readExtension, h13]
  · by_cases h269 : n < 269
    · have hbyte : Bytes.ofNatBE 1 (n - 13) = [UInt8.ofNat (n - 13)] := by
        simp [Bytes.ofNatBE, Bytes.ofNatLE, Nat.mod_eq_of_lt (show n - 13 < 256 by omega)]
      have hvalue : (UInt8.ofNat (n - 13)).toNat = n - 13 := by
        rw [UInt8.toNat_ofNat']
        omega
      simp only [h13, h269, if_true, if_false, hbyte, readExtension, List.singleton_append, hvalue,
        Nat.lt_irrefl, Nat.sub_add_cancel (Nat.not_lt.mp h13)]
    · have hbytes : Bytes.ofNatBE 2 (n - 269) =
          [UInt8.ofNat ((n - 269) / 256 % 256), UInt8.ofNat ((n - 269) % 256)] := by
        simp [Bytes.ofNatBE, Bytes.ofNatLE]
      have hhigh : (UInt8.ofNat ((n - 269) / 256 % 256)).toNat = (n - 269) / 256 := by
        rw [UInt8.toNat_ofNat']
        omega
      have hlow : (UInt8.ofNat ((n - 269) % 256)).toNat = (n - 269) % 256 := by
        rw [UInt8.toNat_ofNat']
        omega
      have hsum : (n - 269) / 256 * 256 + (n - 269) % 256 + 269 = n := by omega
      simp [h13, h269, hbytes, readExtension, hhigh, hlow, hsum]

end Extension

section Fields

variable {number limit : Nat} {field : Field} {fields : List Field}

theorem writeField_eq (number : Nat) (field : Field) : writeField number field =
    UInt8.ofNat ((extension (field.number - number)).1 * 16 + (extension field.value.length).1) ::
      ((extension (field.number - number)).2 ++ ((extension field.value.length).2 ++ field.value)) := by
  rw [writeField]
  simp only [List.cons_append, List.append_assoc]

theorem length_writeField (number : Nat) (field : Field) : (writeField number field).length =
    1 + (extension (field.number - number)).2.length + (extension field.value.length).2.length +
      field.value.length := by
  rw [writeField_eq]
  simp only [List.length_cons, List.length_append]
  omega

/-- An option is read back behind the one before it, and is not taken for the payload marker. -/
theorem writeField_read (hle : number ≤ field.number) (hnumber : field.number < extensionLimit)
    (hvalue : field.value.length < extensionLimit) (rest : Bytes) :
    ∃ first tail, writeField number field = first :: tail ∧ first ≠ 0xff ∧
      readField number first (tail ++ rest) = .ok (field, rest) := by
  have hdelta := extension_fst_lt (field.number - number)
  have hlength := extension_fst_lt field.value.length
  have hfirst : (UInt8.ofNat ((extension (field.number - number)).1 * 16 +
      (extension field.value.length).1)).toNat =
      (extension (field.number - number)).1 * 16 + (extension field.value.length).1 := by
    rw [UInt8.toNat_ofNat']
    omega
  refine ⟨_, _, writeField_eq number field, fun hmarker => ?_, ?_⟩
  · rw [hmarker] at hfirst
    have hff : (0xff : UInt8).toNat = 255 := rfl
    omega
  · have hhigh : ((extension (field.number - number)).1 * 16 +
        (extension field.value.length).1) / 16 = (extension (field.number - number)).1 := by omega
    have hlow : ((extension (field.number - number)).1 * 16 +
        (extension field.value.length).1) % 16 = (extension field.value.length).1 := by omega
    have hreadDelta := readExtension_extension (n := field.number - number)
      (by omega) .invalidOptionDelta ((extension field.value.length).2 ++ (field.value ++ rest))
    have hreadLength := readExtension_extension hvalue .invalidOptionLength (field.value ++ rest)
    have hroom : ¬(field.value ++ rest).length < field.value.length := by
      rw [List.length_append]
      omega
    rw [readField, hfirst, hhigh, hlow, List.append_assoc, List.append_assoc, hreadDelta]
    simp only [ok_bind, hreadLength, hroom, if_false, List.take_left, List.drop_left,
      Nat.add_sub_cancel' hle]
    rfl

/-- Numbers that do not descend. -/
abbrev Ascending (fields : List Field) : Prop := fields.Pairwise fun f g => f.number ≤ g.number

theorem length_le_writeFields (number : Nat) (fields : List Field) :
    fields.length ≤ (writeFields number fields).length := by
  induction fields generalizing number with
  | nil => exact Nat.zero_le _
  | cons field fields ih =>
    have hrest := ih field.number
    rw [writeFields, List.length_append, length_writeField, List.length_cons]
    omega

theorem value_le_writeFields (number : Nat) (hmem : field ∈ fields) :
    field.value.length ≤ (writeFields number fields).length := by
  induction fields generalizing number with
  | nil => cases hmem
  | cons head fields ih =>
    rw [writeFields, List.length_append]
    rcases List.mem_cons.mp hmem with rfl | hmem
    · rw [length_writeField]
      omega
    · exact Nat.le_trans (ih head.number hmem) (Nat.le_add_left ..)

/-- The marker and a payload that is not empty. -/
def marked (payload : Bytes) : Bytes := if payload.isEmpty then [] else 0xff :: payload

theorem length_le_marked (payload : Bytes) : payload.length ≤ (marked payload).length := by
  cases payload with
  | nil => exact Nat.zero_le _
  | cons b payload => exact Nat.le_succ _

theorem length_marked_le (payload : Bytes) : (marked payload).length ≤ payload.length + 1 := by
  unfold marked
  split <;> simp

theorem readFields_marked (limit number : Nat) (payload : Bytes) :
    readFields limit number (marked payload) = .ok ([], payload) := by
  unfold marked
  cases payload with
  | nil => simp [readFields]
  | cons b payload => simp [readFields]

/-- Options and payload are read back. -/
theorem readFields_writeFields (hascending : Ascending fields) (hle : ∀ f ∈ fields, number ≤ f.number)
    (hnumber : ∀ f ∈ fields, f.number < extensionLimit)
    (hvalue : ∀ f ∈ fields, f.value.length < extensionLimit) (hlimit : fields.length ≤ limit)
    (payload : Bytes) :
    readFields limit number (writeFields number fields ++ marked payload) = .ok (fields, payload) := by
  induction fields generalizing limit number with
  | nil => exact readFields_marked limit number payload
  | cons field fields ih =>
    obtain ⟨hfirst, hrest⟩ := List.pairwise_cons.mp hascending
    obtain ⟨limit, rfl⟩ := Nat.exists_eq_add_of_lt (Nat.lt_of_lt_of_le (Nat.zero_lt_succ _) hlimit)
    obtain ⟨first, tail, hwrite, hmarker, hread⟩ := writeField_read (hle field List.mem_cons_self)
      (hnumber field List.mem_cons_self) (hvalue field List.mem_cons_self)
      (writeFields field.number fields ++ marked payload)
    have hlimit : fields.length ≤ 0 + limit := by
      simp only [List.length_cons] at hlimit
      omega
    have htail := ih hrest hfirst (fun f hf => hnumber f (List.mem_cons_of_mem field hf))
      (fun f hf => hvalue f (List.mem_cons_of_mem field hf)) hlimit
    rw [writeFields, hwrite, List.append_assoc, List.cons_append]
    simp only [readFields, hread]
    rw [ok_bind]
    simp only [htail, ok_bind, pure_eq_ok]

theorem number_le_of_readField {first : UInt8} {bs rest : Bytes}
    (h : readField number first bs = .ok (field, rest)) : number ≤ field.number := by
  obtain ⟨⟨delta, bs⟩, -, h⟩ := bind_eq_ok.mp h
  obtain ⟨⟨length, bs⟩, -, h⟩ := bind_eq_ok.mp h
  simp only at h
  split at h
  · cases h
  · cases h
    exact Nat.le_add_right ..

/-- What is read is in order. -/
theorem ascending_of_readFields {bs payload : Bytes}
    (h : readFields limit number bs = .ok (fields, payload)) :
    Ascending fields ∧ ∀ f ∈ fields, number ≤ f.number := by
  induction limit, number, bs using readFields.induct generalizing fields with
  | case1 limit number =>
    rw [readFields] at h
    cases h
    exact ⟨List.Pairwise.nil, nofun⟩
  | case2 limit number payload =>
    rw [readFields] at h
    cases h
    exact ⟨List.Pairwise.nil, nofun⟩
  | case3 number bs hempty hmarker =>
    rw [readFields] at h
    · cases h
    · exact hempty
    · exact hmarker
  | case4 limit number first bs hmarker ih =>
    rw [readFields] at h
    · obtain ⟨⟨field, rest⟩, hfield, h⟩ := bind_eq_ok.mp h
      obtain ⟨⟨others, _⟩, hothers, h⟩ := bind_eq_ok.mp h
      cases h
      obtain ⟨hascending, hle⟩ := ih field rest hothers
      have hfirst := number_le_of_readField hfield
      refine ⟨List.pairwise_cons.mpr ⟨hle, hascending⟩, fun f hf => ?_⟩
      rcases List.mem_cons.mp hf with rfl | hf
      · exact hfirst
      · exact Nat.le_trans hfirst (hle f hf)
    · exact hmarker

end Fields

namespace Packet

variable {packet : Packet} {bs : Bytes}

/-- What holds of every packet that was read. -/
structure Readable (packet : Packet) : Prop where
  token_length : packet.token.length = packet.first.toNat % 16
  token_le : packet.token.length ≤ 8
  ascending : Ascending packet.options

/-- A message without a code has no payload. -/
def KeepsPayload (packet : Packet) : Prop := packet.code ≠ 0 ∨ packet.payload = []

theorem ofBytes_readable (h : ofBytes bs = .ok packet) : packet.Readable := by
  unfold ofBytes at h
  split at h
  · rename_i first code high low rest
    simp only at h
    split at h
    · cases h
    rename_i htoken
    obtain ⟨⟨options, payload⟩, hfields, h⟩ := bind_eq_ok.mp h
    cases h
    have hle : first.toNat % 16 ≤ rest.length := by omega
    refine ⟨List.length_take_of_le hle, ?_, (ascending_of_readFields hfields).1⟩
    rw [List.length_take_of_le hle]
    omega
  · cases h

theorem writePayload_eq (h : packet.KeepsPayload) : packet.writePayload = marked packet.payload := by
  unfold writePayload marked
  rcases h with hcode | hpayload
  · simp [hcode]
  · simp [hpayload]

/-- A packet is sent as it stands if it is short enough. -/
theorem toBytes_eq_ok (h : packet.KeepsPayload) : packet.toBytes = .ok bs ↔
    4 + packet.token.length + (writeFields 0 packet.options).length +
      (marked packet.payload).length ≤ maxLength ∧
    bs = packet.first :: packet.code :: (Bytes.ofNatBE 2 packet.messageId.toNat ++ (packet.token ++
      (writeFields 0 packet.options ++ marked packet.payload))) := by
  have hmarker : packet.payload.length + (if packet.code ≠ 0 ∧ packet.payload ≠ [] then 1 else 0) =
      (marked packet.payload).length := by
    unfold marked
    cases hpayload : packet.payload with
    | nil => simp
    | cons b payload => simp [show packet.code ≠ 0 by simpa [KeepsPayload, hpayload] using h]
  unfold toBytes
  simp only [writePayload_eq h, Nat.add_assoc, hmarker, List.cons_append, List.append_assoc]
  split
  · rename_i hlong
    simp only [reduceCtorEq, false_iff, not_and]
    omega
  · rename_i hshort
    simp only [Except.ok.injEq, Nat.not_lt.mp hshort, true_and, eq_comm]

/-- A packet that can be sent is read back. -/
theorem ofBytes_of_toBytes (hreadable : packet.Readable) (hkeeps : packet.KeepsPayload)
    (hnumber : ∀ f ∈ packet.options, f.number < extensionLimit) (h : packet.toBytes = .ok bs) :
    ofBytes bs = .ok packet := by
  obtain ⟨hlength, rfl⟩ := (toBytes_eq_ok hkeeps).mp h
  have hid : Bytes.ofNatBE 2 packet.messageId.toNat =
      [UInt8.ofNat (packet.messageId.toNat / 256 % 256), UInt8.ofNat (packet.messageId.toNat % 256)] := by
    simp [Bytes.ofNatBE, Bytes.ofNatLE]
  have hidRead : UInt16.ofNat ((UInt8.ofNat (packet.messageId.toNat / 256 % 256)).toNat * 256 +
      (UInt8.ofNat (packet.messageId.toNat % 256)).toNat) = packet.messageId := by
    have hlt := packet.messageId.toNat_lt
    rw [UInt8.toNat_ofNat', UInt8.toNat_ofNat', ← UInt16.toNat_inj, UInt16.toNat_ofNat']
    omega
  have htoken : ¬(8 < packet.token.length ∨ (packet.token ++
      (writeFields 0 packet.options ++ marked packet.payload)).length < packet.token.length) := by
    rw [List.length_append]
    have := hreadable.token_le
    omega
  have hfirst : ∀ f ∈ packet.options, 0 ≤ f.number := fun f _ => Nat.zero_le f.number
  have hvalue : ∀ f ∈ packet.options, f.value.length < extensionLimit := by
    intro f hf
    have hvalue := value_le_writeFields 0 hf
    simp only [maxLength] at hlength
    simp only [extensionLimit]
    omega
  have hlimit : packet.options.length ≤
      (packet.token ++ (writeFields 0 packet.options ++ marked packet.payload)).length := by
    have hcount := length_le_writeFields 0 packet.options
    simp only [List.length_append]
    omega
  have hfields := readFields_writeFields hreadable.ascending hfirst hnumber hvalue hlimit
    packet.payload
  rw [hid]
  simp only [ofBytes, List.cons_append, List.nil_append, ← hreadable.token_length, htoken, if_false,
    List.drop_left, List.take_left, hfields, ok_bind, pure_eq_ok, hidRead]

end Packet

end EdhocLab.Coap
