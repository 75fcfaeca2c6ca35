import EdhocLab.Aead.Algorithm
import EdhocLab.Proofs.Aead.Aes

/-! # Opening inverts sealing

Masking twice with one key stream gives the text back, so that a sealed text is opened under the
key, nonce and associated data that it was sealed with.  A tag that is sent in full also shows every
change of a single block of the associated data, since a block cipher keeps different blocks apart.
-/
namespace EdhocLab.Aead

namespace Ccm

variable {E : BlockCipher} (hE : ∀ block, (E block).length = 16) (tagLength : Nat)
  (nonce data plaintext : Bytes)

include hE in
theorem length_keystream (length : Nat) : (keystream E nonce length).length = length := by
  have hall : ((List.range ((length + 15) / 16)).flatMap fun i =>
      E (counterBlock nonce (i + 1))).length = 16 * ((length + 15) / 16) := by
    simp only [List.length_flatMap, hE, List.map_const', List.length_range]
    rw [List.sum_replicate_nat, Nat.mul_comm]
  rw [keystream, List.length_take, hall]
  omega

include hE in
theorem length_mask : (mask E nonce plaintext).length = plaintext.length := by
  simp [mask, length_keystream hE]

include hE in
theorem mask_mask : mask E nonce (mask E nonce plaintext) = plaintext := by
  rw [mask, length_mask hE]
  exact Bytes.xor_xor_cancel (Nat.le_of_eq (length_keystream hE nonce _).symm)

/-- The authentication of some blocks, before it is cut to the length of a tag. -/
def chain (E : BlockCipher) (mac : Bytes) (blocks : List Bytes) : Bytes :=
  blocks.foldl (fun mac block => E (Bytes.xor mac block)) mac

theorem authenticate_eq : authenticate E tagLength nonce data plaintext =
    (chain E (Bytes.zeros 16) (firstBlock tagLength nonce (!data.isEmpty) plaintext.length ::
      paddedBlocks (frameData data) ++ paddedBlocks plaintext)).take tagLength := rfl

include hE in
theorem length_chain (blocks : List Bytes) {mac : Bytes} (hmac : mac.length = 16) :
    (chain E mac blocks).length = 16 := by
  induction blocks generalizing mac with
  | nil => exact hmac
  | cons block blocks ih => exact ih (hE _)

include hE in
theorem length_authenticate (htag : tagLength ≤ 16) :
    (authenticate E tagLength nonce data plaintext).length = tagLength := by
  rw [authenticate_eq, List.length_take, length_chain hE _ (by simp [Bytes.zeros])]
  omega

include hE in
theorem length_sealedTag (htag : tagLength ≤ 16) :
    (sealedTag E tagLength nonce data plaintext).length = tagLength := by
  rw [sealedTag, Bytes.length_xor, length_authenticate hE _ _ _ _ htag, hE]
  omega

include hE in
theorem length_encrypt (htag : tagLength ≤ 16) :
    (encrypt E tagLength nonce data plaintext).length = plaintext.length + tagLength := by
  rw [encrypt, List.length_append, length_mask hE, length_sealedTag hE _ _ _ _ htag]

include hE in
/-- A sealed text is opened again. -/
theorem decrypt_encrypt (htag : tagLength ≤ 16) :
    decrypt E tagLength nonce data (encrypt E tagLength nonce data plaintext) = some plaintext := by
  have hlength : (encrypt E tagLength nonce data plaintext).length - tagLength =
      (mask E nonce plaintext).length := by
    rw [length_encrypt hE _ _ _ _ htag, length_mask hE]
    omega
  unfold decrypt
  dsimp only
  rw [hlength, encrypt, List.take_left, List.drop_left, mask_mask hE, if_pos rfl]

section Tags

/-- Associated data that differ in one block, once they are framed. -/
def OneBlockApart (data data' : Bytes) : Prop :=
  ∃ before block block' rest, paddedBlocks (frameData data) = before ++ block :: rest ∧
    paddedBlocks (frameData data') = before ++ block' :: rest ∧ block ≠ block'

theorem length_of_mem_blocks {count : Nat} {bs block : Bytes} (h : block ∈ blocks count bs) :
    block.length = 16 := by
  induction count generalizing bs with
  | zero => cases h
  | succ count ih =>
    rcases List.mem_cons.mp h with rfl | h
    · rw [List.length_append, Bytes.zeros, List.length_replicate, List.length_take]
      omega
    · exact ih h

theorem isEmpty_of_mem_frame {data block : Bytes} (h : block ∈ paddedBlocks (frameData data)) :
    data.isEmpty = false := by
  cases data with
  | nil => cases h
  | cons _ _ => rfl

variable (hinj : ∀ a b : Bytes, a.length = 16 → b.length = 16 → E a = E b → a = b)
  {data' : Bytes}

include hE hinj in
/-- The same blocks do not make up for a difference before them. -/
theorem chain_injective {blocks : List Bytes} {mac mac' : Bytes}
    (hblocks : ∀ block ∈ blocks, block.length = 16) (hmac : mac.length = 16)
    (hmac' : mac'.length = 16) (h : chain E mac blocks = chain E mac' blocks) : mac = mac' := by
  induction blocks generalizing mac mac' with
  | nil => exact h
  | cons block blocks ih =>
    have hblock := hblocks block List.mem_cons_self
    have hnext := ih (fun other hmem => hblocks other (List.mem_cons_of_mem block hmem)) (hE _)
      (hE _) h
    have hxor := hinj _ _ (by rw [Bytes.length_xor, hmac, hblock, Nat.min_self])
      (by rw [Bytes.length_xor, hmac', hblock, Nat.min_self]) hnext
    exact (Bytes.xor_left_inj (by omega) (by omega)).mp hxor

include hE hinj in
/-- One changed block changes the authentication. -/
theorem chain_ne {before rest : List Bytes} {block block' mac : Bytes}
    (hrest : ∀ b ∈ rest, b.length = 16) (hmac : mac.length = 16) (hblock : block.length = 16)
    (hblock' : block'.length = 16) (hne : block ≠ block') :
    chain E mac (before ++ block :: rest) ≠ chain E mac (before ++ block' :: rest) := by
  intro h
  have hbefore := length_chain hE before hmac
  simp only [chain, List.foldl_append, List.foldl_cons] at h
  have hnext := chain_injective hE hinj hrest (hE _) (hE _) h
  have hxor := hinj _ _ (by rw [Bytes.length_xor, ← chain, hbefore, hblock, Nat.min_self])
    (by rw [Bytes.length_xor, ← chain, hbefore, hblock', Nat.min_self]) hnext
  exact hne ((Bytes.xor_right_inj (by rw [← chain]; omega) (by rw [← chain]; omega)).mp hxor)

include hE hinj in
theorem authenticate_ne (h : OneBlockApart data data') :
    authenticate E 16 nonce data plaintext ≠ authenticate E 16 nonce data' plaintext := by
  obtain ⟨before, block, block', rest, hdata, hdata', hne⟩ := h
  have hmem : block ∈ paddedBlocks (frameData data) := by rw [hdata]; simp
  have hmem' : block' ∈ paddedBlocks (frameData data') := by rw [hdata']; simp
  have hrest : ∀ b ∈ rest ++ paddedBlocks plaintext, b.length = 16 := by
    intro b hb
    rcases List.mem_append.mp hb with hb | hb
    · have hframe : b ∈ paddedBlocks (frameData data) := by
        rw [hdata]
        simp [hb]
      exact length_of_mem_blocks hframe
    · exact length_of_mem_blocks hb
  have hstart : (Bytes.zeros 16).length = 16 := by simp [Bytes.zeros]
  rw [authenticate_eq, authenticate_eq, isEmpty_of_mem_frame hmem, isEmpty_of_mem_frame hmem',
    List.take_of_length_le (Nat.le_of_eq (length_chain hE _ hstart)),
    List.take_of_length_le (Nat.le_of_eq (length_chain hE _ hstart)), hdata, hdata']
  simp only [← List.cons_append, List.append_assoc]
  exact chain_ne hE hinj hrest hstart (length_of_mem_blocks hmem) (length_of_mem_blocks hmem') hne

include hE hinj in
/-- A sealed text is not opened with other associated data that differ in one block. -/
theorem decrypt_encrypt_eq_none (h : OneBlockApart data data') :
    decrypt E 16 nonce data' (encrypt E 16 nonce data plaintext) = none := by
  have hlength : (encrypt E 16 nonce data plaintext).length - 16 =
      (mask E nonce plaintext).length := by
    rw [length_encrypt hE _ _ _ _ (Nat.le_refl 16), length_mask hE]
    omega
  have htag : sealedTag E 16 nonce data' plaintext ≠ sealedTag E 16 nonce data plaintext := by
    have hfull (d : Bytes) : (authenticate E 16 nonce d plaintext).length ≤
        (E (counterBlock nonce 0)).length :=
      Nat.le_of_eq (by rw [length_authenticate hE _ _ _ _ (Nat.le_refl 16), hE])
    intro heq
    have hauth := (Bytes.xor_left_inj (hfull data') (hfull data)).mp heq
    exact authenticate_ne hE nonce data plaintext hinj h hauth.symm
  unfold decrypt
  dsimp only
  rw [hlength, encrypt, List.take_left, List.drop_left, mask_mask hE, if_neg htag]

end Tags

end Ccm

namespace Algorithm

variable {alg : Algorithm} {key nonce data plaintext output : Bytes}

theorem tagLength_le (alg : Algorithm) : alg.tagLength ≤ 16 := by cases alg <;> decide

theorem tagLength_pos (alg : Algorithm) : 0 < alg.tagLength := by cases alg <;> decide

theorem length_of_encrypt (h : alg.encrypt key nonce data plaintext = .ok output) :
    output.length = plaintext.length + alg.tagLength := by
  unfold encrypt at h
  split at h
  · cases h
    exact Ccm.length_encrypt (Aes.length_encrypt _) _ _ _ _ alg.tagLength_le
  · cases h

/-- A ciphertext is opened under the key, nonce and data that it was sealed with. -/
theorem decrypt_of_encrypt (h : alg.encrypt key nonce data plaintext = .ok output) :
    alg.decrypt key nonce data output = .ok plaintext := by
  have hlength := length_of_encrypt h
  unfold encrypt at h
  split at h
  · rename_i haccepts
    cases h
    have hsub : (Ccm.encrypt (Aes.encrypt (Aes.expandKey key)) alg.tagLength nonce data
        plaintext).length - alg.tagLength = plaintext.length := by omega
    rw [decrypt, if_pos ⟨by omega, by rw [hsub]; exact haccepts⟩,
      Ccm.decrypt_encrypt (Aes.length_encrypt _) _ _ _ _ alg.tagLength_le]
  · cases h

/-- With a full tag, a ciphertext is not opened with data of which one block has changed. -/
theorem decrypt_of_oneBlockApart {data' : Bytes}
    (h : longTag.encrypt key nonce data plaintext = .ok output)
    (hdata : Ccm.OneBlockApart data data') :
    longTag.decrypt key nonce data' output = .error .rejected := by
  unfold encrypt at h
  split at h
  · cases h
    unfold decrypt
    split
    · rw [tagLength, Ccm.decrypt_encrypt_eq_none (Aes.length_encrypt _) _ _ _
        (fun _ _ => Aes.encrypt_injective) hdata]
    · rfl
  · cases h

end Algorithm

end EdhocLab.Aead
