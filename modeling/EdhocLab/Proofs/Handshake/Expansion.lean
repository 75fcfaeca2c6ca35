import EdhocLab.Handshake.KeySchedule
import EdhocLab.Proofs.Digest.Evaluation

/-! # Expansions as chains of blocks

An expansion is the front of a chain of 255 blocks.  Each of them authenticates the one before it and
its own number as a byte, so the chain ends where numbers stop being bytes, and so does the output.
-/
namespace EdhocLab

namespace Digest.Hkdf

/-- A chain of blocks: nothing stands before the first one, and each is the keyed hash of the one before
it, the info and the byte that is its number.  Blocks whose number is no byte are left open. -/
structure IsChain (prk info : Bytes) (block : Nat → Bytes) : Prop where
  start : block 0 = []
  next (i : Nat) (number : UInt8) :
    number.toNat = i + 1 → block (i + 1) = hmac prk (block i ++ info ++ [number])

variable {prk info : Bytes} {block : Nat → Bytes} {length count : Nat}

theorem isChain_T (prk info : Bytes) : IsChain prk info (T prk info) where
  start := rfl
  next i number h := by rw [T, ← h, UInt8.ofNat_toNat]

/-- There is one chain only, up to the last number that is a byte. -/
theorem IsChain.eq_T (h : IsChain prk info block) {i : Nat} (hi : i ≤ 255) :
    block i = T prk info i := by
  induction i with
  | zero => exact h.start
  | succ i ih =>
    have hnumber : (UInt8.ofNat (i + 1)).toNat = i + 1 := by
      rw [UInt8.toNat_ofNat']
      omega
    rw [h.next i _ hnumber, ih (by omega), T]

theorem IsChain.flatMap_eq (h : IsChain prk info block) (hcount : count ≤ 255) :
    ((List.range count).flatMap fun i => block (i + 1)) = blocks prk info [] 0 count := by
  have hblocks : blocks prk info [] 0 count = _ := blocks_T prk info 0 count
  rw [hblocks, List.flatMap_def, List.flatMap_def]
  congr 1
  apply List.map_congr_left
  intro i hi
  have hlt := List.mem_range.mp hi
  rw [Nat.zero_add]
  exact h.eq_T (by omega)

/-- The blocks in front do not depend on how many follow. -/
theorem blocks_isPrefix (prk info previous : Bytes) (i count more : Nat) :
    blocks prk info previous i count <+: blocks prk info previous i (count + more) := by
  induction count generalizing previous i with
  | zero => exact List.nil_prefix
  | succ count ih =>
    rw [Nat.succ_add, blocks, blocks]
    exact (List.prefix_append_right_inj _).mpr (ih _ (i + 1))

/-- All expansions are taken from the same blocks. -/
theorem expand_eq_take (h : length ≤ maxLength) :
    expand prk info length = some ((blocks prk info [] 0 255).take length) := by
  have hcount : (length + 31) / 32 ≤ 255 := by
    simp only [maxLength, hashLength] at h
    omega
  obtain ⟨more, hmore⟩ := Nat.exists_eq_add_of_le hcount
  obtain ⟨rest, hrest⟩ := blocks_isPrefix prk info [] 0 ((length + 31) / 32) more
  have hlength : length ≤ (blocks prk info [] 0 ((length + 31) / 32)).length := by
    rw [length_blocks]
    omega
  rw [expand, if_neg (Nat.not_lt.mpr h), hmore, ← hrest, List.take_append_of_le_length hlength]

/-- Two blocks, the second one cut. -/
example : expand [0x19, 0xef, 0x24, 0xa3, 0x2c, 0x71, 0x7b, 0x16, 0x7f, 0x33, 0xa9, 0x1d, 0x6f, 0x64,
    0x8b, 0xdf, 0x96, 0x59, 0x67, 0x76, 0xaf, 0xdb, 0x63, 0x77, 0xac, 0x43, 0x4c, 0x1c, 0x29, 0x3c,
    0xcb, 0x04] [] 42 =
    some [0x8d, 0xa4, 0xe7, 0x75, 0xa5, 0x63, 0xc1, 0x8f, 0x71, 0x5f, 0x80, 0x2a, 0x06, 0x3c, 0x5a,
      0x31, 0xb8, 0xa1, 0x1f, 0x5c, 0x5e, 0xe1, 0x87, 0x9e, 0xc3, 0x45, 0x4e, 0x5f, 0x3c, 0x73, 0x8d,
      0x2d, 0x9d, 0x20, 0x13, 0x95, 0xfa, 0xa4, 0xb6, 0x1a, 0x96, 0xc8] := by
  simp only [expand, blocks, hmac_eq]
  decide +kernel

end Digest.Hkdf

namespace Handshake.KeySchedule

open Digest.Hkdf (IsChain T blocks maxLength)

variable {prk info : Bytes} {length : Nat}

theorem expand_of_le (h : length ≤ maxLength) :
    expand prk info length = .ok ((blocks prk info [] 0 255).take length) := by
  rw [expand, Digest.Hkdf.expand_eq_take h]

theorem expand_of_lt (h : maxLength < length) : expand prk info length = .error .kdfLength := by
  rw [expand, Digest.Hkdf.expand, if_pos h]

/-- An expansion is refused exactly if it is longer than 255 blocks.  Any other is the front of the
chain of blocks, of which only those are needed whose number is the byte that they authenticate.  So a
shorter expansion stands in front of each longer one. -/
theorem expand_of_chain (prk info : Bytes) :
    (∀ length, expand prk info length = .error .kdfLength ↔ 255 * 32 < length) ∧
    IsChain prk info (T prk info) ∧
    (∀ block, IsChain prk info block → ∀ length ≤ 255 * 32, expand prk info length =
      .ok (((List.range 255).flatMap fun i => block (i + 1)).take length)) ∧
    ∀ short long output, short ≤ long → expand prk info long = .ok output →
      ∃ front, expand prk info short = .ok front ∧ front <+: output := by
  refine ⟨fun length => ⟨?_, expand_of_lt⟩, Digest.Hkdf.isChain_T prk info, ?_, ?_⟩
  · intro herror
    rcases Nat.lt_or_ge maxLength length with hlong | hshort
    · exact hlong
    · rw [expand_of_le hshort] at herror
      cases herror
  · intro block hchain length hlength
    rw [hchain.flatMap_eq (Nat.le_refl 255), expand_of_le hlength]
  · intro short long output hle hlong
    rcases Nat.lt_or_ge maxLength long with hover | hlimit
    · rw [expand_of_lt hover] at hlong
      cases hlong
    · rw [expand_of_le hlimit] at hlong
      cases hlong
      exact ⟨_, expand_of_le (Nat.le_trans hle hlimit), List.take_prefix_take_left hle⟩

/-- The longest expansion of a key of one byte is a whole chain, and one of 33 bytes stands in front. -/
theorem expand_of_chain_longest :
    expand [1] [] 8161 = .error .kdfLength ∧
      ∃ output front, expand [1] [] 8160 = .ok output ∧
        output = ((List.range 255).flatMap fun i => T [1] [] (i + 1)).take 8160 ∧
        T [1] [] 255 = Digest.hmac [1] (T [1] [] 254 ++ [] ++ [255]) ∧
        expand [1] [] 33 = .ok front ∧ front <+: output := by
  obtain ⟨herror, hchain, hfront, hshorter⟩ := expand_of_chain [1] []
  have hlongest := hfront _ hchain 8160 (by decide)
  obtain ⟨front, hshort, hprefix⟩ := hshorter 33 8160 _ (by decide) hlongest
  exact ⟨(herror 8161).mpr (by decide), _, front, hlongest, rfl, hchain.next 254 255 rfl, hshort,
    hprefix⟩

end Handshake.KeySchedule

end EdhocLab
